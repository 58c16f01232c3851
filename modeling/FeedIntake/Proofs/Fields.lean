import Mathlib.Data.Nat.Log
import FeedIntake.Decimal.Digits

/-! # Fields of digits

A number is written with as many digits as it has, and so its text is a field of just that width.
A field that is cut into two is read in two parts, and one that is cut short cannot be read.
-/

namespace FeedIntake.Decimal

theorem digit?_digitChar_mod (n : Nat) : digit? (digitChar (n % 10)) = some (n % 10) :=
  digit?_digitChar (Nat.mod_lt _ (by decide))

theorem digitChar_eq {d : Nat} (h : d < 10) : Nat.digitChar d = digitChar d := by
  match d, h with
  | 0, _ | 1, _ | 2, _ | 3, _ | 4, _ | 5, _ | 6, _ | 7, _ | 8, _ | 9, _ => decide

/-- The digits of a field are those of its upper part and those of its lower part. -/
theorem field_add (width more n : Nat) :
    field (width + more) n = field width (n / tenTo more) ++ field more n := by
  induction width with
  | zero => simp [field]
  | succ width ih =>
      have hten : tenTo (width + more) = tenTo more * tenTo width := by
        rw [Nat.add_comm]; exact Nat.pow_add 10 more width
      rw [Nat.add_right_comm, field, field, ih, hten, ← Nat.div_div_eq_div_mul]
      rfl

theorem field_one (n : Nat) : field 1 n = [digitChar (n % 10)] := by
  simp [field, tenTo]

theorem natural_eq_field {width n : Nat} (hle : width = 0 ∨ tenTo width ≤ n)
    (hlt : n < tenTo (width + 1)) : natural n = field (width + 1) n := by
  induction width generalizing n with
  | zero =>
      have hn : n < 10 := hlt
      rw [natural, Nat.toDigits_of_lt_base hn, field_one, Nat.mod_eq_of_lt hn, digitChar_eq hn]
  | succ width ih =>
      have hle : tenTo width * 10 ≤ n := hle.resolve_left (Nat.succ_ne_zero width)
      rw [tenTo_succ] at hlt
      have hten : 1 ≤ tenTo width := Nat.one_le_pow _ _ (by decide)
      have hrest : natural (n / 10) = field (width + 1) (n / 10) :=
        ih (.inr (by omega)) (by omega)
      rw [natural, Nat.toDigits_of_base_le (by decide) (by omega), ← natural, hrest,
        field_add (width + 1) 1, field_one, digitChar_eq (Nat.mod_lt _ (by decide))]
      rfl

theorem exists_width (n : Nat) :
    ∃ width, (width = 0 ∨ tenTo width ≤ n) ∧ n < tenTo (width + 1) := by
  refine ⟨Nat.log 10 n, ?_, Nat.lt_pow_succ_log_self (by decide) n⟩
  rcases Nat.eq_zero_or_pos n with rfl | hn
  · exact .inl (Nat.log_zero_right 10)
  · exact .inr (Nat.pow_log_le_self 10 hn.ne')

theorem readField_of_short {width more : Nat} (hmore : 0 < more) (n : Nat) {c : Char}
    (hc : digit? c = none) (rest : List Char) (read : Nat) :
    readField (width + more) (field width n ++ c :: rest) read = none := by
  induction width generalizing read with
  | zero =>
      obtain ⟨more, rfl⟩ : ∃ k, more = k + 1 := ⟨more - 1, by omega⟩
      simp [field, readField, hc]
  | succ width ih =>
      rw [Nat.add_right_comm, field, List.cons_append, readField, digit?_digitChar_mod]
      exact ih _

theorem readField_two {n : Nat} (h : n < 100) (rest : List Char) :
    readField 2 (field 2 n ++ rest) 0 = some (n, rest) := by
  rw [readField_field, Nat.mod_eq_of_lt (show n < tenTo 2 from h), Nat.zero_mul, Nat.zero_add]

theorem valueOf_of_readField {width : Nat} {cs : List Char} {read n : Nat}
    (h : readField width cs read = some (n, [])) : valueOf cs read = n := by
  induction width generalizing cs read with
  | zero =>
      simp only [readField, Option.some.injEq, Prod.mk.injEq] at h
      obtain ⟨rfl, rfl⟩ := h
      rfl
  | succ width ih =>
      cases cs with
      | nil => cases h
      | cons c cs =>
          simp only [readField] at h
          split at h
          · rename_i d hd
            rw [valueOf, List.foldl_cons, hd]
            exact ih h
          · cases h

theorem valueOf_field (width n read : Nat) :
    valueOf (field width n) read = read * tenTo width + n % tenTo width :=
  valueOf_of_readField (by simpa using readField_field width n read [])

theorem exists_digitChar_of_mem_field {width n : Nat} {c : Char} (h : c ∈ field width n) :
    ∃ d, d < 10 ∧ c = digitChar d := by
  induction width with
  | zero => cases h
  | succ width ih =>
      rcases List.mem_cons.mp h with rfl | h
      · exact ⟨_, Nat.mod_lt _ (by decide), rfl⟩
      · exact ih h

end FeedIntake.Decimal
