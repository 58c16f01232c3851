import FeedIntake.Record
import FeedIntake.Value.Json
import Mathlib.Data.List.Basic

/-! # JSON texts are single lines

In a JSON text a character below the blank is always escaped, in names and in texts alike, and
numbers are written in digits and signs. So no JSON text has a line break in it.
-/

namespace FeedIntake

namespace Text

/-- No character stands below the blank. -/
def Plain (cs : List Char) : Prop := ∀ c ∈ cs, 0x20 ≤ c.toNat

instance (cs : List Char) : Decidable (Plain cs) :=
  List.decidableBAll (fun c : Char => 0x20 ≤ c.toNat) cs

section

variable {c : Char} {cs ds : List Char}

theorem plain_nil : Plain [] := fun _ h => absurd h List.not_mem_nil

theorem plain_cons : Plain (c :: cs) ↔ 0x20 ≤ c.toNat ∧ Plain cs := List.forall_mem_cons

theorem plain_append : Plain (cs ++ ds) ↔ Plain cs ∧ Plain ds := List.forall_mem_append

theorem Plain.of_subset (plain : Plain ds) (h : cs ⊆ ds) : Plain cs := fun c hc => plain c (h hc)

theorem plain_replicate (n : Nat) (h : 0x20 ≤ c.toNat) : Plain (List.replicate n c) :=
  fun _ hd => List.eq_of_mem_replicate hd ▸ h

theorem plain_flatMap {f : Char → List Char} (h : ∀ c, Plain (f c)) (cs : List Char) :
    Plain (cs.flatMap f) := by
  intro d hd
  obtain ⟨c, -, hd⟩ := List.mem_flatMap.mp hd
  exact h c d hd

theorem plain_intercalate {items : List (List Char)} (hcs : Plain cs)
    (h : ∀ item ∈ items, Plain item) : Plain (cs.intercalate items) := by
  induction items with
  | nil => exact plain_nil
  | cons item rest ih =>
      obtain ⟨hitem, hrest⟩ := List.forall_mem_cons.mp h
      have ih := ih hrest
      cases rest with
      | nil => simpa [List.intercalate] using hitem
      | cons next rest =>
          rw [List.intercalate, List.intersperse_cons_cons, List.flatten_cons, List.flatten_cons]
          exact plain_append.mpr ⟨hitem, plain_append.mpr ⟨hcs, ih⟩⟩

theorem plain_commaSeparated {items : List String} (h : ∀ item ∈ items, Plain item.toList) :
    Plain (Value.commaSeparated items).toList := by
  rw [Value.commaSeparated, String.toList_intercalate]
  refine plain_intercalate (by decide) fun cs hcs => ?_
  obtain ⟨item, hitem, rfl⟩ := List.mem_map.mp hcs
  exact h item hitem

theorem plain_hexDigits (width n : Nat) : Plain (hexDigits width n) := by
  have hdigit : ∀ d < 16, 0x20 ≤ (hexDigit d).toNat := by decide
  induction width with
  | zero => exact plain_nil
  | succ width ih => exact plain_cons.mpr ⟨hdigit _ (Nat.mod_lt _ (by decide)), ih⟩

end

end Text

open Text

/-! ## Numbers -/

namespace Decimal

theorem plain_natural (n : Nat) : Plain (natural n) := by
  intro c hc
  have hdigit := Nat.isDigit_of_mem_toDigits (by decide) (by decide) hc
  simp only [Char.isDigit, Bool.and_eq_true, decide_eq_true_eq] at hdigit
  have h48 : (48 : UInt32).toNat ≤ c.val.toNat := hdigit.1
  exact Nat.le_trans (by decide) h48

theorem plain_integer (n : Int) : Plain (integer n) := by
  cases n with
  | ofNat m => exact plain_natural m
  | negSucc m => exact plain_cons.mpr ⟨by decide, plain_natural _⟩

theorem plain_toString (n : Int) : Plain (toString n).toList := by
  cases n with
  | ofNat m =>
      show Plain m.repr.toList
      rw [Nat.toList_repr]
      exact plain_natural m
  | negSucc m =>
      show Plain ("-" ++ (m + 1).repr).toList
      rw [String.toList_append, Nat.toList_repr]
      exact plain_append.mpr ⟨by decide, plain_natural _⟩

theorem plain_dropZerosAtEnd {cs : List Char} (h : Plain cs) : Plain (dropZerosAtEnd cs) :=
  h.of_subset fun c hc => by
    have hmem := (List.dropWhile_sublist _).mem (List.mem_reverse.mp hc)
    exact List.mem_reverse.mp hmem

variable (l : Layout)

theorem Layout.plain_exponent (e : Int) : Plain (l.exponent e) := by
  refine plain_cons.mpr ⟨by decide, plain_cons.mpr ⟨by split <;> decide, ?_⟩⟩
  exact plain_append.mpr ⟨plain_replicate _ (by decide), plain_natural _⟩

theorem Layout.plain_write (s : Significand) : Plain (l.write s) := by
  unfold write
  have hdigits := plain_dropZerosAtEnd (plain_natural s.digits)
  generalize dropZerosAtEnd (natural s.digits) = ds at hdigits
  dsimp only
  split
  · split
    · exact plain_cons.mpr ⟨by decide, plain_cons.mpr ⟨by decide,
        plain_append.mpr ⟨plain_replicate _ (by decide), hdigits⟩⟩⟩
    · refine plain_append.mpr ⟨plain_append.mpr ⟨hdigits.of_subset (List.take_subset _ _),
        plain_replicate _ (by decide)⟩, plain_cons.mpr ⟨by decide, ?_⟩⟩
      split
      · decide
      · exact hdigits.of_subset (List.drop_subset _ _)
  · split
    · exact plain_nil
    · obtain ⟨hd, -⟩ := plain_cons.mp hdigits
      exact plain_cons.mpr ⟨hd, l.plain_exponent _⟩
    · obtain ⟨hd, hrest⟩ := plain_cons.mp hdigits
      exact plain_cons.mpr ⟨hd, plain_cons.mpr ⟨by decide,
        plain_append.mpr ⟨hrest, l.plain_exponent _⟩⟩⟩

theorem plain_jsonLayout (x : Float) : Plain (Layout.json.text x).toList := by
  rw [Layout.text, String.toList_ofList, Layout.chars]
  have hsign (negative : Bool) : Plain (if negative then ['-'] else []) := by
    cases negative <;> decide
  cases Binary64.ofFloat x with
  | notANumber => exact (by decide : Plain Layout.json.notANumber.toList)
  | infinite negative => exact plain_append.mpr ⟨hsign negative, by decide⟩
  | finite negative m e =>
      refine plain_append.mpr ⟨hsign negative, ?_⟩
      split
      · decide
      · exact Layout.plain_write _ _

end Decimal

/-! ## Values -/

namespace Value

theorem plain_jsonEscape (c : Char) : Plain (jsonEscape c) := by
  unfold jsonEscape
  iterate 7 (split; · decide)
  split
  · exact plain_cons.mpr ⟨by decide, plain_cons.mpr ⟨by decide, plain_hexDigits _ _⟩⟩
  · exact plain_cons.mpr ⟨by omega, plain_nil⟩

theorem plain_jsonString (s : String) : Plain (jsonString s).toList := by
  rw [jsonString, String.toList_ofList, jsonStringChars]
  exact plain_append.mpr ⟨plain_cons.mpr ⟨by decide, plain_flatMap plain_jsonEscape _⟩, by decide⟩

theorem plain_between {opening closing : String} {items : List String}
    (ho : Plain opening.toList) (hc : Plain closing.toList)
    (h : ∀ item ∈ items, Plain item.toList) :
    Plain (opening ++ commaSeparated items ++ closing).toList := by
  rw [String.toList_append, String.toList_append]
  exact plain_append.mpr ⟨plain_append.mpr ⟨ho, plain_commaSeparated h⟩, hc⟩

mutual

/-- **A JSON text has no character below the blank**, whatever the value is. -/
theorem plain_json : ∀ v : Value, Plain (json v).toList
  | .null => by decide
  | .bool b => by cases b <;> decide
  | .int n => by
      rw [json, String.toList_ofList]
      exact Decimal.plain_integer n
  | .float x => by
      rw [json]
      exact Decimal.plain_jsonLayout x
  | .text s => by
      rw [json]
      exact plain_jsonString s
  | .bytes bs => by
      rw [json]
      exact plain_jsonString _
  | .list items => by
      rw [json]
      exact plain_between (by decide) (by decide) (plain_jsonItems items)
  | .tuple items => by
      rw [json]
      exact plain_between (by decide) (by decide) (plain_jsonItems items)
  | .brokenDown t => by
      rw [json]
      refine plain_between (by decide) (by decide) fun item hitem => ?_
      obtain ⟨n, -, rfl⟩ := List.mem_map.mp hitem
      exact Decimal.plain_toString n
  | .moment d => by
      rw [json]
      exact plain_jsonString _
  | .dict fields => by
      rw [json]
      exact plain_between (by decide) (by decide) (plain_jsonMembers fields)

theorem plain_jsonItems : ∀ items : List Value, ∀ text ∈ jsonItems items, Plain text.toList
  | [] => fun _ h => absurd h List.not_mem_nil
  | item :: rest => by
      rw [jsonItems]
      exact List.forall_mem_cons.mpr ⟨plain_json item, plain_jsonItems rest⟩

theorem plain_jsonMembers : ∀ fields : List (String × Value),
    ∀ text ∈ jsonMembers fields, Plain text.toList
  | [] => fun _ h => absurd h List.not_mem_nil
  | (key, value) :: rest => by
      rw [jsonMembers]
      refine List.forall_mem_cons.mpr ⟨?_, plain_jsonMembers rest⟩
      rw [String.toList_append, String.toList_append]
      exact plain_append.mpr ⟨plain_append.mpr ⟨plain_jsonString key, by decide⟩,
        plain_json value⟩

end

end Value

end FeedIntake
