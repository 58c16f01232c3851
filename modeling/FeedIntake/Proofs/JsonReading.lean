import FeedIntake.Proofs.JsonNumbers
import FeedIntake.Value.Json

/-! # JSON texts are read as they were written

Where a value has a form in JSON, its text is read as the value itself: texts with all their
characters, numbers, lists in their order, mappings with their members in their order. The reader
stops where the text of the value ends, and so values are read one after the other.
-/

namespace FeedIntake

open Text (hexDigit hexDigits)
open Value (jsonEscape jsonString jsonStringChars)

/-! ## What is told -/

/-- A double that is neither infinite nor no number at all. -/
def Decimal.IsFinite (x : Float) : Prop :=
  ∃ negative m e, Decimal.Binary64.ofFloat x = .finite negative m e

/-- A value that can be told in full: its doubles are finite, and no mapping has a key twice. -/
inductive Value.Sound : Value → Prop where
  | null : Sound .null
  | bool (b : Bool) : Sound (.bool b)
  | int (n : Int) : Sound (.int n)
  | float {x : Float} (h : Decimal.IsFinite x) : Sound (.float x)
  | text (s : String) : Sound (.text s)
  | bytes (bs : List UInt8) : Sound (.bytes bs)
  | list {items : List Value} (h : ∀ v ∈ items, Sound v) : Sound (.list items)
  | tuple {items : List Value} (h : ∀ v ∈ items, Sound v) : Sound (.tuple items)
  | brokenDown (t : Time.BrokenDown) : Sound (.brokenDown t)
  | moment (d : Time.DateTime) : Sound (.moment d)
  | dict {fields : Fields} (hkeys : (fields.map Prod.fst).Nodup) (h : ∀ f ∈ fields, Sound f.2) :
      Sound (.dict fields)

namespace Value

mutual

/-- What is told of a value: whatever is a sequence is a list, and what has no form of its own is
the text for people. -/
def echo : Value → Value
  | .null => .null
  | .bool b => .bool b
  | .int n => .int n
  | .float x => .float x
  | .text s => .text s
  | .bytes bs => .text (display (.bytes bs))
  | .list items => .list (echoes items)
  | .tuple items => .list (echoes items)
  | .brokenDown t => .list (t.toList.map .int)
  | .moment d => .text (display (.moment d))
  | .dict fields => .dict (echoFields fields)

def echoes : List Value → List Value
  | [] => []
  | item :: rest => echo item :: echoes rest

def echoFields : List (String × Value) → List (String × Value)
  | [] => []
  | (key, value) :: rest => (key, echo value) :: echoFields rest

end

theorem echoFields_eq_map (fields : Fields) :
    echoFields fields = fields.map fun f => (f.1, f.2.echo) := by
  induction fields with
  | nil => rfl
  | cons f rest ih =>
      rw [echoFields, ih]
      rfl

end Value

namespace Json

variable {cs rest : List Char}

/-! ## Texts -/

theorem hexValue?_hexDigit : ∀ d < 16, hexValue? (hexDigit d) = some d := by decide

theorem unit?_hexDigits {n : Nat} (hn : n < 0x10000) :
    unit? (hexDigits 4 n ++ rest) = some (n, rest) := by
  have hdigit (k : Nat) : hexValue? (hexDigit (k % 16)) = some (k % 16) :=
    hexValue?_hexDigit _ (Nat.mod_lt _ (by decide))
  simp only [hexDigits, List.cons_append, List.nil_append, unit?, hdigit]
  show some (((n / 4096 % 16 * 16 + n / 256 % 16) * 16 + n / 16 % 16) * 16 + n / 1 % 16, rest) = _
  congr 2
  omega

/-- A control character is read from the code that is written for it. -/
theorem stringFrom_control {c : Char} (hc : c.toNat < 0x20) (fuel : Nat) (read : List Char) :
    stringFrom (fuel + 1) ('\\' :: 'u' :: hexDigits 4 c.toNat ++ rest) read =
      stringFrom fuel rest (c :: read) := by
  have hchar : charOfUnit c.toNat = c := by
    rw [charOfUnit, if_neg (by omega), Char.ofNat_toNat]
  rw [List.cons_append, List.cons_append, stringFrom, if_neg (by decide), if_neg (by decide),
    if_pos rfl]
  dsimp only
  rw [unit?_hexDigits (by omega)]
  dsimp only
  rw [if_neg (by omega), hchar]

theorem stringFrom_jsonEscape (c : Char) (fuel : Nat) (read : List Char) :
    stringFrom (fuel + 1) (jsonEscape c ++ rest) read = stringFrom fuel rest (c :: read) := by
  unfold jsonEscape
  iterate 7 (split; · subst_vars; rfl)
  split
  · exact stringFrom_control ‹_› fuel read
  · rename_i hquote hslash _ _ _ _ _ hcontrol
    simp [stringFrom, hquote, hslash, hcontrol]

theorem length_jsonEscape_pos (c : Char) : 0 < (jsonEscape c).length := by
  unfold jsonEscape
  iterate 8 (split; · exact Nat.succ_pos _)
  exact Nat.one_pos

theorem stringFrom_escapes (cs : List Char) {fuel : Nat} (hfuel : cs.length < fuel)
    (read : List Char) : stringFrom fuel (cs.flatMap jsonEscape ++ '"' :: rest) read =
      some (read.reverse ++ cs, rest) := by
  induction cs generalizing fuel read with
  | nil =>
      obtain ⟨fuel, rfl⟩ := Nat.exists_eq_add_of_lt hfuel
      simp [stringFrom]
  | cons c tail ih =>
      obtain ⟨fuel, rfl⟩ := Nat.exists_eq_add_of_lt hfuel
      rw [List.flatMap_cons, List.append_assoc, stringFrom_jsonEscape, ih (by simp; omega)]
      simp

/-- **A text is read as itself**, whatever characters are in it. -/
theorem string?_escapes (s : String) :
    string? (s.toList.flatMap jsonEscape ++ '"' :: rest) = some (s, rest) := by
  have hlength : s.toList.length ≤ (s.toList.flatMap jsonEscape).length := by
    rw [List.length_flatMap]
    have hone : ∀ n ∈ s.toList.map fun c => (jsonEscape c).length, 1 ≤ n := by
      intro n hn
      obtain ⟨c, -, rfl⟩ := List.mem_map.mp hn
      exact length_jsonEscape_pos c
    simpa using List.card_nsmul_le_sum _ 1 hone
  rw [string?, stringFrom_escapes s.toList (by rw [List.length_append]; omega)]
  simp

/-! ## Values without parts -/

/-- A text begins with a character that is no blank and closes nothing. -/
def Begins (cs : List Char) : Prop :=
  ∃ c tail, cs = c :: tail ∧ isSpace c = false ∧ c ≠ ']' ∧ c ≠ '\x7d'

theorem Begins.skipSpace (begins : Begins cs) : skipSpace (cs ++ rest) = cs ++ rest := by
  obtain ⟨c, tail, rfl, hspace, -⟩ := begins
  rw [Json.skipSpace, List.cons_append, List.dropWhile_cons_of_neg (by simp [hspace])]

/-- Where a value ends: at the end of the text, or before one of the marks that follow a value. -/
def Ends (rest : List Char) : Prop :=
  ∀ c, rest.head? = some c → c = ',' ∨ c = ']' ∨ c = '\x7d'

theorem Ends.stops (ends : Ends rest) : Stops rest := by
  intro c hc
  rcases ends c hc with rfl | rfl | rfl <;> decide

variable {r : Value × List Char}

theorem word?_of_number {word : String} (value : Value)
    (hword : ∀ tail, number? (word.toList ++ tail) = none) (hnumber : number? cs = some r) :
    word? word value cs = none := by
  unfold word?
  dsimp only
  split
  · rename_i hprefix
    obtain ⟨tail, rfl⟩ := List.isPrefixOf_iff_prefix.mp hprefix
    rw [hword] at hnumber
    cases hnumber
  · rfl

/-- A number is no word. -/
theorem scalar?_of_number (hnumber : number? cs = some r) : scalar? cs = some r := by
  unfold scalar?
  rw [word?_of_number _ (fun _ => rfl) hnumber, word?_of_number _ (fun _ => rfl) hnumber,
    word?_of_number _ (fun _ => rfl) hnumber, word?_of_number _ (fun _ => rfl) hnumber,
    word?_of_number _ (fun _ => rfl) hnumber, word?_of_number _ (fun _ => rfl) hnumber]
  exact hnumber

theorem valueFrom_of_number (hnumber : number? cs = some r) (fuel : Nat) :
    valueFrom (fuel + 1) cs = some r := by
  unfold valueFrom
  split
  · cases hnumber
  · cases hnumber
  · cases hnumber
  · exact scalar?_of_number hnumber

theorem begins_of_number (hnumber : number? cs = some r) : Begins cs := by
  cases cs with
  | nil => cases hnumber
  | cons c tail =>
      refine ⟨c, tail, rfl, ?_, ?_, ?_⟩
      · by_contra hspace
        rw [Bool.not_eq_false, isSpace] at hspace
        simp only [Bool.or_eq_true, decide_eq_true_eq] at hspace
        rcases hspace with ((rfl | rfl) | rfl) | rfl <;> cases hnumber
      · rintro rfl
        cases hnumber
      · rintro rfl
        cases hnumber

/-! ## Lists and mappings -/

theorem toList_commaSeparated_single (item : String) :
    (Value.commaSeparated [item]).toList = item.toList := by
  simp [Value.commaSeparated]

theorem toList_commaSeparated_cons (item next : String) (items : List String) :
    (Value.commaSeparated (item :: next :: items)).toList =
      item.toList ++ ',' :: ' ' :: (Value.commaSeparated (next :: items)).toList := by
  simp [Value.commaSeparated, String.toList_intercalate, List.intercalate]

theorem put_of_not_mem {fields : Fields} {key : String} (h : key ∉ fields.map Prod.fst)
    (value : Value) : fields.put key value = fields ++ [(key, value)] := by
  induction fields with
  | nil => rfl
  | cons f rest ih =>
      obtain ⟨hne, hrest⟩ := not_or.mp (mt List.mem_cons.mpr h)
      rw [Fields.put, if_neg (Ne.symm hne), ih hrest, List.cons_append]

theorem toList_toString (n : Int) : (toString n).toList = Decimal.integer n := by
  cases n with
  | ofNat m =>
      show m.repr.toList = _
      rw [Nat.toList_repr]
      rfl
  | negSucc m =>
      show ("-" ++ (m + 1).repr).toList = _
      rw [String.toList_append, Nat.toList_repr]
      rfl

/-- A text is that of a value: it is read as the value, up to what follows. -/
structure Tells (text : String) (value : Value) : Prop where
  begins : Begins text.toList
  reads : ∀ rest fuel, Ends rest → 2 * text.toList.length ≤ fuel →
    valueFrom fuel (text.toList ++ rest) = some (value, rest)

theorem ends_comma (cs : List Char) : Ends (',' :: cs) := fun c hc => .inl (by cases hc; rfl)

theorem ends_bracket (cs : List Char) : Ends (']' :: cs) :=
  fun c hc => .inr (.inl (by cases hc; rfl))

theorem ends_brace (cs : List Char) : Ends ('\x7d' :: cs) :=
  fun c hc => .inr (.inr (by cases hc; rfl))

theorem Begins.append (begins : Begins cs) (rest : List Char) : Begins (cs ++ rest) := by
  obtain ⟨c, tail, rfl, hc⟩ := begins
  exact ⟨c, tail ++ rest, rfl, hc⟩

theorem begins_commaSeparated {text : String} (begins : Begins text.toList) (texts : List String) :
    Begins (Value.commaSeparated (text :: texts)).toList := by
  cases texts with
  | nil => rwa [toList_commaSeparated_single]
  | cons next texts =>
      rw [toList_commaSeparated_cons]
      exact begins.append _

/-- A mark is no blank, and the blank after a comma is skipped. -/
theorem skipSpace_cons {c : Char} (hc : isSpace c = false) (cs : List Char) :
    skipSpace (c :: cs) = c :: cs := by
  rw [skipSpace, List.dropWhile_cons_of_neg (by simp [hc])]

theorem skipSpace_blank (begins : Begins cs) (rest : List Char) :
    skipSpace (' ' :: (cs ++ rest)) = cs ++ rest := by
  rw [skipSpace, List.dropWhile_cons_of_pos (by decide)]
  exact begins.skipSpace

/-- The items of a list are read one after the other. The induction is on the items that follow the
first one. -/
theorem itemsFrom_of_tells {text : String} {value : Value} {texts : List String}
    {values : List Value} (first : Tells text value) (others : List.Forall₂ Tells texts values)
    {fuel : Nat} (hfuel : 2 * (Value.commaSeparated (text :: texts)).toList.length < fuel)
    (read : List Value) :
    itemsFrom fuel ((Value.commaSeparated (text :: texts)).toList ++ ']' :: rest) read =
      some (read.reverse ++ value :: values, rest) := by
  obtain ⟨fuel, rfl⟩ : ∃ k, fuel = k + 1 := ⟨fuel - 1, by omega⟩
  induction others generalizing text value fuel read with
  | nil =>
      rw [toList_commaSeparated_single] at hfuel ⊢
      rw [itemsFrom, first.reads _ _ (ends_bracket rest) (by omega)]
      dsimp only
      rw [skipSpace_cons (by decide)]
      simp
  | @cons next value' texts values second others ih =>
      have begins := begins_commaSeparated second.begins texts
      rw [toList_commaSeparated_cons, List.length_append, List.length_cons, List.length_cons]
        at hfuel
      obtain ⟨fuel, rfl⟩ : ∃ k, fuel = k + 1 := ⟨fuel - 1, by omega⟩
      rw [toList_commaSeparated_cons, List.append_assoc, List.cons_append, List.cons_append,
        itemsFrom, first.reads _ _ (ends_comma _) (by omega)]
      dsimp only
      rw [skipSpace_cons (by decide)]
      show itemsFrom (fuel + 1) (skipSpace (' ' :: (_ ++ ']' :: rest))) (value :: read) = _
      rw [skipSpace_blank begins, ih second _ _ (by omega), List.reverse_cons, List.append_assoc]
      rfl

theorem tells_list {texts : List String} {values : List Value}
    (h : List.Forall₂ Tells texts values) :
    Tells ("[" ++ Value.commaSeparated texts ++ "]") (.list values) := by
  have htext : ("[" ++ Value.commaSeparated texts ++ "]").toList =
      '[' :: ((Value.commaSeparated texts).toList ++ [']']) := by
    rw [String.toList_append, String.toList_append]
    rfl
  refine ⟨⟨'[', _, htext, by decide, by decide, by decide⟩, fun rest fuel ends hfuel => ?_⟩
  rw [htext, List.length_cons, List.length_append] at hfuel
  obtain ⟨fuel, rfl⟩ : ∃ k, fuel = k + 1 := ⟨fuel - 1, by omega⟩
  rw [htext, List.cons_append, List.append_assoc]
  cases h with
  | nil => rfl
  | @cons text value texts values first others =>
      have begins := begins_commaSeparated first.begins texts
      have hroom : 2 * (Value.commaSeparated (text :: texts)).toList.length < fuel := by
        rw [List.length_singleton] at hfuel
        omega
      rw [valueFrom, List.cons_append, List.nil_append, begins.skipSpace]
      split
      · rename_i tail heq
        obtain ⟨c, cs, hcs, -, hne, -⟩ := begins
        rw [hcs] at heq
        cases heq
        exact absurd rfl hne
      · rw [itemsFrom_of_tells first others hroom]
        rfl

/-- A text is that of a member of a mapping: its key, and the text of its value. -/
def TellsMember (text : String) (f : String × Value) : Prop :=
  ∃ told, text = jsonString f.1 ++ ": " ++ told ∧ Tells told f.2

theorem toList_member (key told : String) : (jsonString key ++ ": " ++ told).toList =
    '"' :: (key.toList.flatMap jsonEscape ++ '"' :: ':' :: ' ' :: told.toList) := by
  rw [String.toList_append, String.toList_append, jsonString, String.toList_ofList,
    jsonStringChars]
  simp

theorem TellsMember.begins {text : String} {f : String × Value} (member : TellsMember text f) :
    Begins text.toList := by
  obtain ⟨told, rfl, -⟩ := member
  rw [toList_member]
  exact ⟨'"', _, rfl, by decide, by decide, by decide⟩

theorem membersFrom_of_member {text : String} {f : String × Value} (member : TellsMember text f)
    (ends : Ends rest) {fuel : Nat} (hfuel : 2 * text.toList.length ≤ fuel) (read : Fields) :
    membersFrom (fuel + 1) (text.toList ++ rest) read =
      match skipSpace rest with
      | '\x7d' :: rest => some (read.put f.1 f.2, rest)
      | ',' :: rest => membersFrom fuel (skipSpace rest) (read.put f.1 f.2)
      | _ => none := by
  obtain ⟨told, rfl, tells⟩ := member
  rw [toList_member] at hfuel ⊢
  rw [List.length_cons, List.length_append, List.length_cons, List.length_cons,
    List.length_cons] at hfuel
  have hvalue : valueFrom fuel (skipSpace (' ' :: (told.toList ++ rest))) = some (f.2, rest) := by
    rw [skipSpace_blank tells.begins, tells.reads rest fuel ends (by omega)]
  rw [List.cons_append, List.append_assoc, List.cons_append, List.cons_append, List.cons_append,
    membersFrom, string?_escapes]
  dsimp only
  rw [skipSpace_cons (by decide)]
  split
  · rename_i after heq
    cases heq
    exact hvalue ▸ rfl
  · rename_i hcolon
    exact absurd rfl (hcolon _)

theorem put_of_nodup {read fields : Fields} {f : String × Value}
    (hkeys : ((read ++ f :: fields).map Prod.fst).Nodup) : read.put f.1 f.2 = read ++ [f] := by
  refine put_of_not_mem (fun hmem => ?_) f.2
  rw [List.map_append, List.nodup_append] at hkeys
  exact hkeys.2.2 f.1 hmem f.1 List.mem_cons_self rfl

/-- The members of a mapping are read one after the other, as long as no key comes twice. -/
theorem membersFrom_of_tells {text : String} {f : String × Value} {texts : List String}
    {fields : Fields} (first : TellsMember text f) (others : List.Forall₂ TellsMember texts fields)
    {fuel : Nat} (hfuel : 2 * (Value.commaSeparated (text :: texts)).toList.length < fuel)
    {read : Fields} (hkeys : ((read ++ f :: fields).map Prod.fst).Nodup) :
    membersFrom fuel ((Value.commaSeparated (text :: texts)).toList ++ '\x7d' :: rest) read =
      some (read ++ f :: fields, rest) := by
  obtain ⟨fuel, rfl⟩ : ∃ k, fuel = k + 1 := ⟨fuel - 1, by omega⟩
  induction others generalizing text f fuel read with
  | nil =>
      rw [toList_commaSeparated_single] at hfuel ⊢
      rw [membersFrom_of_member first (ends_brace rest) (by omega), skipSpace_cons (by decide),
        put_of_nodup hkeys]
      rfl
  | @cons next f' texts fields second others ih =>
      have begins := begins_commaSeparated second.begins texts
      rw [toList_commaSeparated_cons, List.length_append, List.length_cons, List.length_cons]
        at hfuel
      obtain ⟨fuel, rfl⟩ : ∃ k, fuel = k + 1 := ⟨fuel - 1, by omega⟩
      rw [toList_commaSeparated_cons, List.append_assoc, List.cons_append, List.cons_append,
        membersFrom_of_member first (ends_comma _) (by omega), skipSpace_cons (by decide),
        put_of_nodup hkeys]
      show membersFrom (fuel + 1) (skipSpace (' ' :: (_ ++ '\x7d' :: rest))) (read ++ [f]) = _
      rw [skipSpace_blank begins, ih second (by simpa using hkeys) _ (by omega),
        List.append_assoc]
      rfl

theorem tells_dict {texts : List String} {fields : Fields}
    (h : List.Forall₂ TellsMember texts fields) (hkeys : (fields.map Prod.fst).Nodup) :
    Tells ("\x7b" ++ Value.commaSeparated texts ++ "\x7d") (.dict fields) := by
  have htext : ("\x7b" ++ Value.commaSeparated texts ++ "\x7d").toList =
      '\x7b' :: ((Value.commaSeparated texts).toList ++ ['\x7d']) := by
    rw [String.toList_append, String.toList_append]
    rfl
  refine ⟨⟨'\x7b', _, htext, by decide, by decide, by decide⟩, fun rest fuel ends hfuel => ?_⟩
  rw [htext, List.length_cons, List.length_append] at hfuel
  obtain ⟨fuel, rfl⟩ : ∃ k, fuel = k + 1 := ⟨fuel - 1, by omega⟩
  rw [htext, List.cons_append, List.append_assoc]
  cases h with
  | nil => rfl
  | @cons text f texts fields first others =>
      have begins := begins_commaSeparated first.begins texts
      have hroom : 2 * (Value.commaSeparated (text :: texts)).toList.length < fuel := by
        rw [List.length_singleton] at hfuel
        omega
      have hfirst : (([] ++ f :: fields : Fields).map Prod.fst).Nodup := hkeys
      rw [valueFrom, List.cons_append, List.nil_append, begins.skipSpace]
      split
      · rename_i tail heq
        obtain ⟨c, cs, hcs, -, -, hne⟩ := begins
        rw [hcs] at heq
        cases heq
        exact absurd rfl hne
      · rw [membersFrom_of_tells first others hroom hfirst]
        rfl

/-! ## Values -/

theorem tells_of_number {text : String} {value : Value}
    (h : ∀ rest, Stops rest → number? (text.toList ++ rest) = some (value, rest)) :
    Tells text value := by
  have hend := h [] fun c hc => by cases hc
  rw [List.append_nil] at hend
  have begins := begins_of_number hend
  refine ⟨begins, fun rest fuel ends hfuel => ?_⟩
  obtain ⟨c, tail, htext, -⟩ := begins
  rw [htext, List.length_cons] at hfuel
  obtain ⟨fuel, rfl⟩ : ∃ k, fuel = k + 1 := ⟨fuel - 1, by omega⟩
  exact valueFrom_of_number (h rest ends.stops) fuel

theorem tells_integer {n : Int} (writable : Decimal.isWritable n = true) :
    Tells (String.ofList (Decimal.integer n)) (.int n) :=
  tells_of_number fun rest stops => by
    rw [String.toList_ofList]
    exact number?_integer writable stops

theorem tells_text (s : String) : Tells (jsonString s) (.text s) := by
  have htext : (jsonString s).toList = '"' :: (s.toList.flatMap jsonEscape ++ ['"']) := by
    rw [jsonString, String.toList_ofList, jsonStringChars]
    rfl
  refine ⟨⟨'"', _, htext, by decide, by decide, by decide⟩, fun rest fuel ends hfuel => ?_⟩
  rw [htext, List.length_cons] at hfuel
  obtain ⟨fuel, rfl⟩ : ∃ k, fuel = k + 1 := ⟨fuel - 1, by omega⟩
  rw [htext, List.cons_append, List.append_assoc, List.cons_append, List.nil_append, valueFrom,
    string?_escapes]
  rfl

theorem tells_brokenDown {t : Time.BrokenDown}
    (writable : (Value.brokenDown t).isWritable = true) :
    Tells (Value.brokenDown t).json (Value.brokenDown t).echo := by
  rw [Value.json, Value.echo]
  refine tells_list (List.forall₂_map_left_iff.mpr (List.forall₂_map_right_iff.mpr ?_))
  refine List.forall₂_same.mpr fun n hn => ?_
  have htext : (toString n) = String.ofList (Decimal.integer n) := by
    rw [← toList_toString, String.ofList_toList]
  show Tells (toString n) _
  rw [htext]
  exact tells_integer (List.all_eq_true.mp writable n hn)

theorem tells_null : Tells "null" .null := by
  refine ⟨⟨'n', _, rfl, by decide, by decide, by decide⟩, fun rest fuel ends hfuel => ?_⟩
  obtain ⟨fuel, rfl⟩ : ∃ k, fuel = k + 1 := ⟨fuel - 1, by simp at hfuel; omega⟩
  rfl

theorem tells_bool (b : Bool) : Tells (if b then "true" else "false") (.bool b) := by
  cases b with
  | true =>
      refine ⟨⟨'t', _, rfl, by decide, by decide, by decide⟩, fun rest fuel ends hfuel => ?_⟩
      obtain ⟨fuel, rfl⟩ : ∃ k, fuel = k + 1 := ⟨fuel - 1, by simp at hfuel; omega⟩
      rfl
  | false =>
      refine ⟨⟨'f', _, rfl, by decide, by decide, by decide⟩, fun rest fuel ends hfuel => ?_⟩
      obtain ⟨fuel, rfl⟩ : ∃ k, fuel = k + 1 := ⟨fuel - 1, by simp at hfuel; omega⟩
      rfl

theorem tells_float {x : Float} (finite : Decimal.IsFinite x) :
    Tells (Decimal.Layout.json.text x) (.float x) := by
  obtain ⟨negative, m, e, hx⟩ := finite
  exact tells_of_number fun rest stops => number?_float hx stops

mutual

/-- **The JSON text of a value that can be written tells it**, as far as JSON has a form for it. -/
theorem tells_json : ∀ v : Value, v.Sound → v.isWritable = true → Tells v.json v.echo
  | .null, _, _ => tells_null
  | .bool b, _, _ => tells_bool b
  | .int n, _, writable => tells_integer writable
  | .float x, sound, _ => tells_float (by cases sound; assumption)
  | .text s, _, _ => tells_text s
  | .bytes bs, _, _ => tells_text _
  | .list items, sound, writable =>
      tells_list (tells_items items (by cases sound; assumption) writable)
  | .tuple items, sound, writable =>
      tells_list (tells_items items (by cases sound; assumption) writable)
  | .brokenDown t, _, writable => tells_brokenDown writable
  | .moment d, _, _ => tells_text _
  | .dict fields, sound, writable => by
      cases sound with
      | dict hkeys hfields =>
          refine tells_dict (tells_members fields hfields writable) ?_
          rwa [Value.echoFields_eq_map, List.map_map]

theorem tells_items : ∀ items : List Value, (∀ v ∈ items, v.Sound) →
    Value.areWritable items = true →
    List.Forall₂ Tells (Value.jsonItems items) (Value.echoes items)
  | [], _, _ => .nil
  | item :: rest, sound, writable => by
      obtain ⟨hitem, hrest⟩ := Bool.and_eq_true_iff.mp writable
      exact .cons (tells_json item (sound item List.mem_cons_self) hitem)
        (tells_items rest (fun v hv => sound v (List.mem_cons_of_mem _ hv)) hrest)

theorem tells_members : ∀ fields : List (String × Value), (∀ f ∈ fields, f.2.Sound) →
    Value.membersWritable fields = true →
    List.Forall₂ TellsMember (Value.jsonMembers fields) (Value.echoFields fields)
  | [], _, _ => .nil
  | (key, value) :: rest, sound, writable => by
      obtain ⟨hvalue, hrest⟩ := Bool.and_eq_true_iff.mp writable
      exact .cons ⟨_, rfl, tells_json value (sound (key, value) List.mem_cons_self) hvalue⟩
        (tells_members rest (fun f hf => sound f (List.mem_cons_of_mem _ hf)) hrest)

end

/-- **A JSON text is read as the value that was written**, as far as JSON has a form for it. -/
theorem read?_json {v : Value} (sound : v.Sound) (writable : v.isWritable = true) :
    read? v.json = some v.echo := by
  have tells := tells_json v sound writable
  have hskip : skipSpace (v.json.toList ++ []) = v.json.toList ++ [] := tells.begins.skipSpace
  rw [List.append_nil] at hskip
  have hread := tells.reads [] (2 * v.json.toList.length + 2) (fun c hc => by cases hc) (by omega)
  rw [List.append_nil] at hread
  unfold read?
  dsimp only
  rw [hskip, hread]
  rfl

end Json

end FeedIntake
