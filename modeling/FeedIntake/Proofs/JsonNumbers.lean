import FeedIntake.Proofs.DecimalDoubles
import FeedIntake.Proofs.Fields
import FeedIntake.Proofs.ShortestDigits
import FeedIntake.Value.JsonReader

/-! # Numbers in JSON texts

A number is read from its text to the end of its digits. A whole number is read as it is, and a
finite double as itself: the digits that are written for it read as the double, wherever the point
stands among them.
-/

namespace FeedIntake

open Decimal

/-! ## Digits -/

namespace Decimal

variable {n : Nat} {cs ds : List Char}

theorem isDigit_natural (n : Nat) : ∀ c ∈ natural n, isDigit c = true := by
  intro c hc
  have hdigit := Nat.isDigit_of_mem_toDigits (by decide) (by decide) hc
  simp only [Char.isDigit, Bool.and_eq_true, decide_eq_true_eq] at hdigit
  rw [isDigit, digit?, if_pos ⟨hdigit.1, hdigit.2⟩]
  rfl

theorem valueOf_append (cs ds : List Char) (read : Nat) :
    valueOf (cs ++ ds) read = valueOf ds (valueOf cs read) :=
  List.foldl_append ..

theorem valueOf_cons {c : Char} {d : Nat} (hd : digit? c = some d) (read : Nat) :
    valueOf (c :: cs) read = valueOf cs (read * 10 + d) := by
  rw [valueOf, List.foldl_cons, hd]
  rfl

theorem valueOf_replicate_zero (count read : Nat) :
    valueOf (List.replicate count '0') read = read * 10 ^ count := by
  induction count generalizing read with
  | zero => simp [valueOf]
  | succ count ih =>
      rw [List.replicate_succ, valueOf_cons (d := 0) (by decide), ih]
      ring

theorem valueOf_natural (n : Nat) : valueOf (natural n) 0 = n := by
  obtain ⟨width, hle, hlt⟩ := exists_width n
  rw [natural_eq_field hle hlt, valueOf_field, Nat.mod_eq_of_lt hlt, Nat.zero_mul, Nat.zero_add]

theorem head?_natural (hn : 0 < n) : (natural n).head? ≠ some '0' := by
  have hchar : ∀ d < 10, 0 < d → digitChar d ≠ '0' := by decide
  obtain ⟨width, hle, hlt⟩ := exists_width n
  have hpow : 0 < tenTo width := Nat.pow_pos (by decide)
  have hfirst : 0 < n / tenTo width ∧ n / tenTo width < 10 := by
    refine ⟨Nat.div_pos ?_ hpow, (Nat.div_lt_iff_lt_mul hpow).mpr ?_⟩
    · rcases hle with rfl | hle
      · exact hn
      · exact hle
    · rwa [tenTo_succ, Nat.mul_comm] at hlt
  rw [natural_eq_field hle hlt, field, Nat.mod_eq_of_lt hfirst.2]
  simpa using hchar _ hfirst.2 hfirst.1

theorem exists_append_zeros (cs : List Char) :
    ∃ count, cs = dropZerosAtEnd cs ++ List.replicate count '0' := by
  refine ⟨(cs.reverse.takeWhile (· == '0')).length, ?_⟩
  have hzeros : cs.reverse.takeWhile (· == '0') =
      List.replicate (cs.reverse.takeWhile (· == '0')).length '0' := by
    refine List.eq_replicate_iff.mpr ⟨rfl, fun c hc => ?_⟩
    exact eq_of_beq (List.all_eq_true.mp List.all_takeWhile c hc)
  have hsplit := List.takeWhile_append_dropWhile (p := (· == '0')) (l := cs.reverse)
  rw [hzeros] at hsplit
  have := congrArg List.reverse hsplit
  rw [List.reverse_append, List.reverse_replicate, List.reverse_reverse] at this
  exact this.symm

end Decimal

/-! ## Doubles -/

namespace Json

variable {m n : Nat} {e exponent : Int}

theorem two_zpow_le {a b : Int} (hb : 0 ≤ b) (h : a ≤ 3 * b) : (2 : ℚ) ^ a ≤ 10 ^ b := by
  calc
    (2 : ℚ) ^ a ≤ 2 ^ (3 * b) := zpow_le_zpow_right₀ one_le_two h
    _ = (2 ^ (3 : Int)) ^ b := zpow_mul 2 3 b
    _ ≤ 10 ^ b := zpow_le_zpow_left₀ hb (by norm_num) (by norm_num)

theorem ten_zpow_le {a b : Int} (hb : b ≤ 0) (h : 3 * b ≤ a) : (10 : ℚ) ^ b ≤ 2 ^ a := by
  have hinverse := inv_anti₀ (by positivity) (two_zpow_le (a := -a) (b := -b) (by omega) (by omega))
  rwa [← zpow_neg, ← zpow_neg, neg_neg, neg_neg] at hinverse

/-- A number that reads as a double is of moderate size. -/
theorem size_of_readsAs (double : IsDouble m e) (reads : ReadsAs m e (n * 10 ^ exponent)) :
    -400 < exponent + (natural n).length ∧ exponent + (natural n).length < 400 := by
  have hten {a b : Int} : (10 : ℚ) ^ a < 10 ^ b ↔ a < b :=
    zpow_lt_zpow_iff_right₀ (by norm_num)
  have hunit : (0 : ℚ) < 10 ^ exponent := by positivity
  have hn := reads.digits_pos double.pos
  have hleast := double.least
  have hmost := double.most
  constructor
  · have hlow : (10 : ℚ) ^ (-360 : Int) ≤ n * 10 ^ exponent := by
      have hm : (1 : ℚ) ≤ m := by exact_mod_cast double.pos
      have hreach := reachBelow_le m e
      calc
        (10 : ℚ) ^ (-360 : Int) ≤ 2 ^ (e - 1) := ten_zpow_le (by decide) (by omega)
        _ = 1 / 2 * 2 ^ e := by
          rw [zpow_sub_one₀ two_ne_zero]
          ring
        _ ≤ (m - reachBelow m e) * 2 ^ e :=
          mul_le_mul_of_nonneg_right (by linarith) (by positivity)
        _ ≤ n * 10 ^ exponent := reads.low
    have hhigh : n * (10 : ℚ) ^ exponent < 10 ^ (exponent + (natural n).length) := by
      rw [zpow_add₀ (by norm_num), mul_comm, zpow_natCast]
      exact mul_lt_mul_of_pos_left (by exact_mod_cast lt_pow_length n) hunit
    have := hten.mp (hlow.trans_lt hhigh)
    omega
  · have hhigh : n * (10 : ℚ) ^ exponent < 10 ^ (342 : Int) :=
      (reads.lt double).trans_le (two_zpow_le (by decide) (by omega))
    have hlength := length_natural_pos n
    have hlow : (10 : ℚ) ^ (exponent + (natural n).length - 1) ≤ n * 10 ^ exponent := by
      rw [show exponent + ((natural n).length : Int) - 1 =
        exponent + ((natural n).length - 1 : Nat) by omega, zpow_add₀ (by norm_num), mul_comm,
        zpow_natCast]
      exact mul_le_mul_of_nonneg_right (by exact_mod_cast pow_length_le hn) hunit.le
    have := hten.mp (hlow.trans_lt hhigh)
    omega

theorem length_le_log2 (hn : 0 < n) : (natural n).length ≤ n.log2 + 1 := by
  have h₁ : 2 ^ ((natural n).length - 1) ≤ n :=
    (Nat.pow_le_pow_left (by decide) _).trans (pow_length_le hn)
  have h₂ := (Nat.le_log2 hn.ne').mpr h₁
  omega

/-- **A decimal that reads as a double is read as it.** -/
theorem floatOf_of_readsAs (double : IsDouble m e) (reads : ReadsAs m e (n * 10 ^ exponent))
    (negative : Bool) : floatOf negative n exponent = double.float negative := by
  obtain ⟨hsmall, hlarge⟩ := size_of_readsAs double reads
  have hn := reads.digits_pos double.pos
  have hlog := length_le_log2 hn
  have hread (after : Bool) (hshift : shiftOf after exponent.natAbs = exponent) :
      Float.ofScientific n after exponent.natAbs = double.float false :=
    ReadsAs.float_ofScientific (by rwa [hshift]) double (by rw [hshift]; omega)
      (by rw [hshift]; omega)
  unfold floatOf
  dsimp only
  rw [if_neg hn.ne', if_neg (show ¬ 400 < exponent + ((natural n).length : Int) by omega),
    if_neg (show ¬ exponent + ((natural n).length : Int) < -400 by omega)]
  have hfloat : (if exponent < 0 then Float.ofScientific n true exponent.natAbs
      else Float.ofScientific n false exponent.natAbs) = double.float false := by
    split
    · exact hread true (by rw [shiftOf, if_pos rfl]; omega)
    · exact hread false (by rw [shiftOf, if_neg Bool.false_ne_true]; omega)
  rw [hfloat]
  cases negative with
  | false => rfl
  | true => exact double.neg_float

/-! ## Texts of numbers -/

/-- A number ends before the text: neither a digit nor a point nor an exponent goes on. -/
def Stops (rest : List Char) : Prop :=
  ∀ c, rest.head? = some c → isDigit c = false ∧ c ≠ '.' ∧ c ≠ 'e' ∧ c ≠ 'E'

/-- The whole part of a number: a nought, or digits that do not begin with one. -/
structure IsWholePart (whole : List Char) : Prop where
  digits : ∀ c ∈ whole, isDigit c = true
  nonempty : whole ≠ []
  head : whole.head? = some '0' → whole = ['0']

variable {run rest whole places : List Char}

theorem takeWhile_digits (hrun : ∀ c ∈ run, isDigit c = true)
    (hrest : ∀ c, rest.head? = some c → isDigit c = false) :
    (run ++ rest).takeWhile isDigit = run ∧ (run ++ rest).dropWhile isDigit = rest := by
  rw [List.takeWhile_append_of_pos hrun, List.dropWhile_append_of_pos hrun]
  cases rest with
  | nil => simp
  | cons c tail => simp [hrest c rfl]

theorem fraction?_of_places (hplaces : ∀ c ∈ places, isDigit c = true) (hne : places ≠ [])
    (hrest : ∀ c, rest.head? = some c → isDigit c = false) :
    fraction? ('.' :: places ++ rest) = some (places, rest) := by
  obtain ⟨htake, hdrop⟩ := takeWhile_digits hplaces hrest
  rw [List.cons_append, fraction?, htake, hdrop, if_neg (by simpa using hne)]

theorem fraction?_of_ne (hrest : ∀ c, rest.head? = some c → c ≠ '.') : fraction? rest = none := by
  unfold fraction?
  split
  · exact absurd rfl (hrest '.' rfl)
  · rfl

theorem exponent?_of_ne (hrest : ∀ c, rest.head? = some c → c ≠ 'e' ∧ c ≠ 'E') :
    exponent? rest = none := by
  cases rest with
  | nil => rfl
  | cons c tail =>
      obtain ⟨h₁, h₂⟩ := hrest c rfl
      simp [exponent?, h₁, h₂]

/-- An exponent is read as it is written, with its sign and with as many noughts as may be. -/
theorem exponent?_exponent (l : Layout) (k : Int)
    (hrest : ∀ c, rest.head? = some c → isDigit c = false) :
    exponent? (l.exponent k ++ rest) = some (k, rest) := by
  have hdigits : ∀ c ∈ padLeft l.exponentWidth '0' (natural k.natAbs), isDigit c = true := by
    intro c hc
    rcases List.mem_append.mp hc with hc | hc
    · rw [List.eq_of_mem_replicate hc]
      decide
    · exact isDigit_natural _ c hc
  have hvalue : valueOf (padLeft l.exponentWidth '0' (natural k.natAbs)) 0 = k.natAbs := by
    rw [padLeft, valueOf_append, valueOf_replicate_zero, Nat.zero_mul, valueOf_natural]
  have hne : padLeft l.exponentWidth '0' (natural k.natAbs) ≠ [] := by
    simp [padLeft, natural, Nat.toDigits_ne_nil]
  obtain ⟨htake, hdrop⟩ := takeWhile_digits hdigits hrest
  unfold Layout.exponent
  generalize padLeft l.exponentWidth '0' (natural k.natAbs) = digits at *
  have hread (negative : Bool) : (if ((digits ++ rest).takeWhile isDigit).isEmpty then none
      else some ((if negative then -(valueOf ((digits ++ rest).takeWhile isDigit) 0 : Int)
        else valueOf ((digits ++ rest).takeWhile isDigit) 0), (digits ++ rest).dropWhile isDigit)) =
      some ((if negative then -(k.natAbs : Int) else k.natAbs), rest) := by
    rw [htake, hdrop, hvalue, if_neg (by simpa using hne)]
  by_cases hk : k < 0
  · rw [if_pos hk]
    refine (hread true).trans ?_
    rw [if_pos rfl, show -(k.natAbs : Int) = k by omega]
  · rw [if_neg hk]
    refine (hread false).trans ?_
    rw [if_neg Bool.false_ne_true, show (k.natAbs : Int) = k by omega]

def wholePart : List Char → List Char
  | '0' :: _ => ['0']
  | digits => digits.takeWhile isDigit

/-- The number that is read once its whole part is known. -/
def numberFrom (negative : Bool) (whole after : List Char) : Option (Value × List Char) :=
  let (places, rest, plain) := match fraction? after with
    | some (run, rest) => (run, rest, false)
    | none => ([], after, true)
  let (shift, rest, plain) := match exponent? rest with
    | some (e, rest) => (e, rest, false)
    | none => (0, rest, plain)
  let n := valueOf (whole ++ places) 0
  if !plain then some (.float (floatOf negative n (shift - places.length)), rest)
  else if mostDigits < whole.length then none
  else some (.int (if negative then -(n : Int) else n), rest)

/-- The number that is read once its sign is known. -/
def unsigned? (negative : Bool) (digits : List Char) : Option (Value × List Char) :=
  let whole := wholePart digits
  if whole.isEmpty then none else numberFrom negative whole (digits.drop whole.length)

theorem number?_of_ne {c : Char} (hc : c ≠ '-') (tail : List Char) :
    number? (c :: tail) = unsigned? false (c :: tail) := by
  unfold number?
  split
  rename_i heq
  split at heq
  · rename_i hsame
    cases hsame
    exact absurd rfl hc
  · cases heq
    rfl

theorem wholePart_append (part : IsWholePart whole)
    (hrest : ∀ c, rest.head? = some c → isDigit c = false) : wholePart (whole ++ rest) = whole := by
  unfold wholePart
  split
  · rename_i tail heq
    have hhead : whole.head? = some '0' := by
      rw [← List.head?_append_of_ne_nil whole part.nonempty, heq]
      rfl
    exact (part.head hhead).symm
  · exact (takeWhile_digits part.digits hrest).1

theorem number?_of_whole (part : IsWholePart whole) (rest : List Char)
    (hrest : ∀ c, rest.head? = some c → isDigit c = false) (negative : Bool) :
    number? ((if negative then ['-'] else []) ++ (whole ++ rest)) =
      numberFrom negative whole rest := by
  have hunsigned : unsigned? negative (whole ++ rest) = numberFrom negative whole rest := by
    unfold unsigned?
    rw [wholePart_append part hrest]
    dsimp only
    rw [List.drop_left, if_neg (by simpa using part.nonempty)]
  cases negative with
  | true => exact hunsigned
  | false =>
      obtain ⟨c, tail, rfl⟩ := List.exists_cons_of_ne_nil part.nonempty
      have hc := part.digits c List.mem_cons_self
      have hne : c ≠ '-' := by
        rintro rfl
        cases hc
      exact (number?_of_ne hne _).trans hunsigned

section

variable (negative : Bool) (whole : List Char)

theorem numberFrom_whole (hlength : whole.length ≤ mostDigits) (stops : Stops rest) :
    numberFrom negative whole rest =
      some (.int (if negative then -(valueOf whole 0 : Int) else valueOf whole 0), rest) := by
  unfold numberFrom
  rw [fraction?_of_ne fun c hc => (stops c hc).2.1]
  dsimp only
  rw [exponent?_of_ne fun c hc => (stops c hc).2.2]
  dsimp only
  rw [List.append_nil, if_neg (by decide), if_neg (Nat.not_lt.mpr hlength)]

theorem numberFrom_point (hplaces : ∀ c ∈ places, isDigit c = true) (hne : places ≠ [])
    (stops : Stops rest) : numberFrom negative whole ('.' :: places ++ rest) =
      some (.float (floatOf negative (valueOf (whole ++ places) 0) (-places.length)), rest) := by
  unfold numberFrom
  rw [fraction?_of_places hplaces hne fun c hc => (stops c hc).1]
  dsimp only
  rw [exponent?_of_ne fun c hc => (stops c hc).2.2]
  dsimp only
  rw [if_pos Bool.not_false, Int.zero_sub]

theorem head?_exponent (l : Layout) (k : Int) {c : Char}
    (hc : (l.exponent k ++ rest).head? = some c) : isDigit c = false ∧ c ≠ '.' := by
  cases hc
  decide

theorem numberFrom_exponent (l : Layout) (k : Int) (stops : Stops rest) :
    numberFrom negative whole (l.exponent k ++ rest) =
      some (.float (floatOf negative (valueOf whole 0) k), rest) := by
  unfold numberFrom
  rw [fraction?_of_ne fun c hc => (head?_exponent l k hc).2]
  dsimp only
  rw [exponent?_exponent l k fun c hc => (stops c hc).1]
  dsimp only
  rw [if_pos Bool.not_false, List.append_nil, List.length_nil, Nat.cast_zero, Int.sub_zero]

theorem numberFrom_point_exponent (l : Layout) (k : Int)
    (hplaces : ∀ c ∈ places, isDigit c = true) (hne : places ≠ []) (stops : Stops rest) :
    numberFrom negative whole ('.' :: places ++ (l.exponent k ++ rest)) =
      some (.float (floatOf negative (valueOf (whole ++ places) 0) (k - places.length)), rest) := by
  unfold numberFrom
  rw [fraction?_of_places hplaces hne fun c hc => (head?_exponent l k hc).1]
  dsimp only
  rw [exponent?_exponent l k fun c hc => (stops c hc).1]
  dsimp only
  rw [if_pos Bool.not_false]

end

/-- The digits that are written for a significand: no noughts around them, and the same number. -/
theorem digits_written {s : Significand} (hs : 0 < s.digits) :
    IsWholePart (dropZerosAtEnd (natural s.digits)) ∧
      (dropZerosAtEnd (natural s.digits)).head? ≠ some '0' ∧
      (valueOf (dropZerosAtEnd (natural s.digits)) 0 : ℚ) *
        10 ^ (s.point - (dropZerosAtEnd (natural s.digits)).length) =
          s.digits * 10 ^ (s.point - (natural s.digits).length) := by
  obtain ⟨count, hsplit⟩ := exists_append_zeros (natural s.digits)
  have hall := isDigit_natural s.digits
  have hhead := head?_natural hs
  have hvalue := valueOf_natural s.digits
  generalize natural s.digits = cs at *
  generalize dropZerosAtEnd cs = ds at *
  subst hsplit
  have hdigits : ∀ c ∈ ds, isDigit c = true := fun c hc => hall c (List.mem_append_left _ hc)
  have hne : ds ≠ [] := by
    rintro rfl
    cases count with
    | zero => exact hs.ne hvalue
    | succ count => exact hhead rfl
  rw [List.head?_append_of_ne_nil ds hne] at hhead
  refine ⟨⟨hdigits, hne, fun h => absurd h hhead⟩, hhead, ?_⟩
  rw [valueOf_append, valueOf_replicate_zero] at hvalue
  rw [← hvalue, List.length_append, List.length_replicate]
  push_cast
  rw [mul_assoc, ← zpow_natCast, ← zpow_add₀ (by norm_num)]
  congr 2
  ring

/-- A text is read as a double, up to what follows. -/
def ReadsNumber (text rest : List Char) (v : ℚ) : Prop :=
  ∀ negative, ∃ (n : Nat) (exponent : Int),
    number? ((if negative then ['-'] else []) ++ (text ++ rest)) =
      some (.float (floatOf negative n exponent), rest) ∧ (n : ℚ) * 10 ^ exponent = v

theorem isDigit_of_mem_zero : ∀ c ∈ ['0'], isDigit c = true := List.forall_mem_singleton.mpr rfl

theorem isWholePart_zero : IsWholePart ['0'] := ⟨isDigit_of_mem_zero, by decide, fun _ => rfl⟩

theorem readsNumber_point {v : ℚ} (part : IsWholePart whole)
    (hplaces : ∀ c ∈ places, isDigit c = true) (hne : places ≠ []) (stops : Stops rest)
    (hv : (valueOf (whole ++ places) 0 : ℚ) * 10 ^ (-(places.length : Int)) = v) :
    ReadsNumber (whole ++ '.' :: places) rest v := by
  intro negative
  refine ⟨_, _, ?_, hv⟩
  rw [List.append_assoc, number?_of_whole part _ (fun c hc => by cases hc; decide)]
  exact numberFrom_point negative whole hplaces hne stops

/-- A number below one, with noughts after the point. -/
theorem readsNumber_small {ds : List Char} (hdigits : ∀ c ∈ ds, isDigit c = true) (hne : ds ≠ [])
    (stops : Stops rest) (zeros : Nat) :
    ReadsNumber ('0' :: '.' :: List.replicate zeros '0' ++ ds) rest
      (valueOf ds 0 * 10 ^ (-(zeros : Int) - ds.length)) := by
  show ReadsNumber (['0'] ++ '.' :: (List.replicate zeros '0' ++ ds)) rest _
  refine readsNumber_point isWholePart_zero (fun c hc => ?_) (by simp [hne]) stops ?_
  · rcases List.mem_append.mp hc with hc | hc
    · rw [List.eq_of_mem_replicate hc]
      decide
    · exact hdigits c hc
  · rw [valueOf_append, valueOf_append, valueOf_replicate_zero, List.length_append,
      List.length_replicate]
    push_cast
    rw [show valueOf ['0'] 0 = 0 by decide, Nat.zero_mul, neg_add']

/-- A number with its point among its digits, or after noughts that follow them. -/
theorem readsNumber_positional {ds : List Char} (part : IsWholePart ds)
    (hhead : ds.head? ≠ some '0') (stops : Stops rest) {count : Nat} (hcount : 0 < count) :
    ReadsNumber (ds.take count ++ List.replicate (count - ds.length) '0' ++
      '.' :: (if (ds.drop count).isEmpty then ['0'] else ds.drop count)) rest
      (valueOf ds 0 * 10 ^ ((count : Int) - ds.length)) := by
  have hwhole : IsWholePart (ds.take count ++ List.replicate (count - ds.length) '0') := by
    obtain ⟨c, tail, rfl⟩ := List.exists_cons_of_ne_nil part.nonempty
    obtain ⟨count, rfl⟩ := Nat.exists_eq_add_of_le' hcount
    refine ⟨fun d hd => ?_, by simp, fun h => absurd (by simpa using h) hhead⟩
    rcases List.mem_append.mp hd with hd | hd
    · exact part.digits d (List.mem_of_mem_take hd)
    · rw [List.eq_of_mem_replicate hd]
      decide
  by_cases hshort : ds.length ≤ count
  · rw [List.drop_eq_nil_of_le hshort, if_pos List.isEmpty_nil]
    refine readsNumber_point hwhole isDigit_of_mem_zero (by decide) stops ?_
    rw [List.take_of_length_le hshort, valueOf_append, valueOf_append, valueOf_replicate_zero,
      valueOf_cons (d := 0) (by decide)]
    show ((valueOf ds 0 * 10 ^ (count - ds.length) * 10 : Nat) : ℚ) * 10 ^ (-1 : Int) = _
    push_cast
    rw [mul_assoc, mul_assoc, show (10 : ℚ) * 10 ^ (-1 : Int) = 1 by norm_num, mul_one,
      ← zpow_natCast, Nat.cast_sub hshort]
  · have hdrop : ds.drop count ≠ [] := by
      rw [ne_eq, List.drop_eq_nil_iff]
      exact hshort
    rw [if_neg (by simpa using hdrop)]
    refine readsNumber_point hwhole (fun c hc => part.digits c (List.mem_of_mem_drop hc)) hdrop
      stops ?_
    rw [Nat.sub_eq_zero_of_le (by omega), List.replicate_zero, List.append_nil,
      List.take_append_drop, List.length_drop, Nat.cast_sub (by omega), neg_sub]

/-- A number with one digit before the point, or no point at all, and an exponent. -/
theorem readsNumber_scientific {d : Char} {ds : List Char} (part : IsWholePart (d :: ds))
    (hhead : d ≠ '0') (l : Layout) (point : Int) (stops : Stops rest) :
    ReadsNumber (d :: (if ds = [] then [] else '.' :: ds) ++ l.exponent (point - 1)) rest
      (valueOf (d :: ds) 0 * 10 ^ (point - (d :: ds).length)) := by
  obtain ⟨hd, hds⟩ := List.forall_mem_cons.mp part.digits
  have hwhole : IsWholePart [d] := by
    refine ⟨fun c hc => ?_, by simp, fun h => absurd (by simpa using h) hhead⟩
    rw [List.mem_singleton.mp hc]
    exact hd
  intro negative
  by_cases hne : ds = []
  · rw [hne, if_pos rfl]
    refine ⟨valueOf [d] 0, point - 1, ?_, rfl⟩
    have hnumber := number?_of_whole hwhole (l.exponent (point - 1) ++ rest)
      (fun c hc => (head?_exponent l _ hc).1) negative
    exact hnumber.trans (numberFrom_exponent negative [d] l _ stops)
  · rw [if_neg hne]
    refine ⟨valueOf (d :: ds) 0, point - 1 - ds.length, ?_, ?_⟩
    · have hnumber := number?_of_whole hwhole ('.' :: ds ++ (l.exponent (point - 1) ++ rest))
        (fun c hc => by cases hc; decide) negative
      have hboth := numberFrom_point_exponent negative [d] l (point - 1) hds hne stops
      rw [List.append_assoc]
      exact hnumber.trans hboth
    · rw [List.length_cons]
      push_cast
      congr 2
      ring

/-- **What is written for a significand is read as its number.** -/
theorem readsNumber_write {s : Significand} (hs : 0 < s.digits) (l : Layout) (stops : Stops rest) :
    ReadsNumber (l.write s) rest (s.digits * 10 ^ (s.point - (natural s.digits).length)) := by
  obtain ⟨part, hhead, hvalue⟩ := digits_written hs
  rw [← hvalue]
  unfold Layout.write
  dsimp only
  generalize dropZerosAtEnd (natural s.digits) = ds at *
  split
  · split
    · rename_i hpoint
      have hsmall := readsNumber_small part.digits part.nonempty stops (-s.point).toNat
      rwa [show (-((-s.point).toNat : Int) - ds.length) = s.point - ds.length by omega] at hsmall
    · rename_i hpoint
      have hcount : 0 < s.point.toNat := by omega
      have hpositional := readsNumber_positional part hhead stops hcount
      rwa [show (s.point.toNat : Int) = s.point by omega] at hpositional
  · obtain ⟨d, tail, rfl⟩ := List.exists_cons_of_ne_nil part.nonempty
    have hscientific := readsNumber_scientific part (by simpa using hhead) l s.point stops
    cases tail with
    | nil => exact hscientific
    | cons next tail => exact hscientific

theorem floatOf_zero {x : Float} {negative : Bool} {e : Int}
    (hx : Binary64.ofFloat x = .finite negative 0 e) (exponent : Int) :
    floatOf negative 0 exponent = x := by
  have hzero :
      (floatOf negative 0 exponent).toBits.toNat = (if negative then 1 else 0) * 2 ^ 63 := by
    unfold floatOf
    dsimp only
    rw [if_pos rfl]
    cases negative with
    | true => decide
    | false => decide
  obtain ⟨biased, fraction, hbits, -, -, ⟨rfl, rfl, -⟩ | ⟨-, hfull, -⟩⟩ := bits_of_finite hx
  · exact Float.toBits_inj.mp (UInt64.toNat_inj.mp (by rw [hzero, hbits]; omega))
  · omega

/-- **A finite double is read as itself.** -/
theorem number?_float {x : Float} {negative : Bool} {m : Nat} {e : Int}
    (hx : Binary64.ofFloat x = .finite negative m e) (stops : Stops rest) :
    number? ((Layout.json.text x).toList ++ rest) = some (.float x, rest) := by
  rw [Layout.text, String.toList_ofList, Layout.chars, hx]
  dsimp only
  rw [List.append_assoc]
  by_cases hm : m = 0
  · subst hm
    have hnumber := number?_of_whole isWholePart_zero ('.' :: ['0'] ++ rest)
      (fun c hc => by cases hc; decide) negative
    have hpoint := numberFrom_point negative ['0'] isDigit_of_mem_zero (by decide) stops
    rw [if_pos rfl]
    refine (hnumber.trans hpoint).trans ?_
    rw [show valueOf (['0'] ++ ['0']) 0 = 0 by decide, floatOf_zero hx]
  · rw [if_neg hm]
    have double := isDouble_of_ofFloat hx (Nat.pos_of_ne_zero hm)
    obtain ⟨hdigits, reads⟩ := shortest_spec double
    obtain ⟨n, exponent, hnumber, hvalue⟩ :=
      readsNumber_write hdigits Layout.json stops negative
    rw [← hvalue] at reads
    rw [hnumber, floatOf_of_readsAs double reads, ← eq_float_of_ofFloat hx (Nat.pos_of_ne_zero hm)]

theorem isWholePart_natural (n : Nat) : IsWholePart (natural n) := by
  refine ⟨isDigit_natural n, Nat.toDigits_ne_nil, fun h => ?_⟩
  rcases Nat.eq_zero_or_pos n with rfl | hn
  · rfl
  · exact absurd h (head?_natural hn)

/-- **A whole number that can be written is read as itself.** -/
theorem number?_integer {n : Int} (writable : Decimal.isWritable n = true) (stops : Stops rest) :
    number? (integer n ++ rest) = some (.int n, rest) := by
  have hlength : (natural n.natAbs).length ≤ mostDigits := of_decide_eq_true writable
  have hnumber (negative : Bool) (k : Nat) (hk : (natural k).length ≤ mostDigits) :=
    (number?_of_whole (isWholePart_natural k) rest (fun c hc => (stops c hc).1) negative).trans
      (numberFrom_whole negative (natural k) hk stops)
  cases n with
  | ofNat k =>
      refine (hnumber false k hlength).trans ?_
      rw [valueOf_natural]
      rfl
  | negSucc k =>
      refine (hnumber true (k + 1) hlength).trans ?_
      rw [valueOf_natural]
      rfl

end Json

end FeedIntake
