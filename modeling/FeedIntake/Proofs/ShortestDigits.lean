import FeedIntake.Proofs.Rounding

/-! # Shortest digits

The digits that are written for a double are found by trial. Whichever number of digits the trial
stops at, they read as the double again; where it does not stop, seventeen digits are near enough to
any double to do so.
-/

namespace FeedIntake.Decimal

variable {m : Nat} {e : Int} {v : ℚ}

theorem tenTo_eq (n : Nat) : tenTo n = 10 ^ n := rfl

theorem twoTo_eq (n : Nat) : twoTo n = 2 ^ n := rfl

/-! ## Quotients -/

namespace Ratio

variable {r : Ratio}

theorem den_ofBinary_pos (m : Nat) (e : Int) : 0 < (ofBinary m e).den := by
  unfold ofBinary
  split
  · exact Nat.one_pos
  · exact Nat.two_pow_pos _

theorem value_ofBinary (m : Nat) (e : Int) : (ofBinary m e).value = m * 2 ^ e := by
  unfold ofBinary value
  split
  · rename_i he
    rw [twoTo_eq]
    push_cast
    rw [← zpow_natCast, Int.toNat_of_nonneg he, div_one]
  · rename_i he
    rw [twoTo_eq]
    push_cast
    rw [← zpow_natCast, Int.toNat_of_nonneg (by omega), zpow_neg, div_inv_eq_mul]

theorem den_shift_pos (hden : 0 < r.den) (places : Int) : 0 < (r.shift places).den := by
  unfold shift
  split
  · exact hden
  · exact Nat.mul_pos hden (Nat.pow_pos (by decide))

theorem value_shift (r : Ratio) (places : Int) :
    (r.shift places).value = r.value * 10 ^ places := by
  unfold shift value
  split
  · rename_i hplaces
    rw [tenTo_eq]
    push_cast
    rw [← zpow_natCast, Int.toNat_of_nonneg hplaces, mul_div_right_comm]
  · rename_i hplaces
    rw [tenTo_eq]
    push_cast
    rw [← zpow_natCast, Int.toNat_of_nonneg (by omega), zpow_neg, ← div_div, div_inv_eq_mul]

theorem value_le_value_iff {a b : Ratio} (ha : 0 < a.den) (hb : 0 < b.den) :
    a.value ≤ b.value ↔ a.num * b.den ≤ b.num * a.den := by
  unfold value
  rw [div_le_div_iff₀ (by exact_mod_cast ha) (by exact_mod_cast hb)]
  norm_cast

theorem value_lt_value_iff {a b : Ratio} (ha : 0 < a.den) (hb : 0 < b.den) :
    a.value < b.value ↔ a.num * b.den < b.num * a.den := by
  unfold value
  rw [div_lt_div_iff₀ (by exact_mod_cast ha) (by exact_mod_cast hb)]
  norm_cast

theorem abs_round_sub_le (hden : 0 < r.den) : |(r.round : ℚ) - r.value| ≤ 1 / 2 := by
  have hden' : (0 : ℚ) < r.den := by exact_mod_cast hden
  have hone : ((r.num % r.den : Nat) : ℚ) / r.den < 1 := by
    rw [div_lt_one hden']
    exact_mod_cast Nat.mod_lt _ hden
  have hrest : 0 ≤ ((r.num % r.den : Nat) : ℚ) / r.den := by positivity
  rw [value_eq hden, abs_le]
  unfold round
  dsimp only
  split
  · rename_i hless
    have hhalf : ((r.num % r.den : Nat) : ℚ) / r.den ≤ 1 / 2 := by
      rw [div_le_div_iff₀ hden' two_pos]
      exact_mod_cast (by omega : r.num % r.den * 2 ≤ 1 * r.den)
    constructor <;> linarith
  · rename_i hless
    have hhalf : 1 / 2 ≤ ((r.num % r.den : Nat) : ℚ) / r.den := by
      rw [div_le_div_iff₀ two_pos hden']
      exact_mod_cast (by omega : 1 * r.den ≤ r.num % r.den * 2)
    split
    · push_cast
      constructor <;> linarith
    · rename_i hmore
      have hhalf' : ((r.num % r.den : Nat) : ℚ) / r.den ≤ 1 / 2 := by
        rw [div_le_div_iff₀ hden' two_pos]
        exact_mod_cast (by omega : r.num % r.den * 2 ≤ 1 * r.den)
      split
      · constructor <;> linarith
      · push_cast
        constructor <;> linarith

end Ratio

/-! ## Reading back -/

theorem readsBack_iff (hm : 0 < m) {candidate : Nat} {unit : Int} :
    readsBack m e candidate unit = true ↔ ReadsAs m e (candidate * 10 ^ unit) := by
  have hc : 0 < ((Ratio.mk candidate 1).shift unit).den := Ratio.den_shift_pos Nat.one_pos unit
  have hcvalue : ((Ratio.mk candidate 1).shift unit).value = candidate * 10 ^ unit := by
    rw [Ratio.value_shift, Ratio.value, Nat.cast_one, div_one]
  have hquarter : (2 : ℚ) ^ (e - 2) = 2 ^ e / 4 := by
    rw [zpow_sub₀ two_ne_zero]
    norm_num
  have hhigh : (Ratio.ofBinary (4 * m + 2) (e - 2)).value = (m + 1 / 2) * 2 ^ e := by
    rw [Ratio.value_ofBinary, hquarter]
    push_cast
    ring
  have hlow : (Ratio.ofBinary (4 * m - if m = twoTo 52 ∧ e ≠ -1074 then 1 else 2)
      (e - 2)).value = (m - reachBelow m e) * 2 ^ e := by
    rw [Ratio.value_ofBinary, hquarter, reachBelow, Nat.cast_sub (by split <;> omega), twoTo_eq]
    split <;> push_cast <;> ring
  have hlowden := Ratio.den_ofBinary_pos (4 * m - if m = twoTo 52 ∧ e ≠ -1074 then 1 else 2) (e - 2)
  have hhighden := Ratio.den_ofBinary_pos (4 * m + 2) (e - 2)
  have hiff : ReadsAs m e (candidate * 10 ^ unit) ↔
      (m - reachBelow m e) * 2 ^ e ≤ candidate * 10 ^ unit ∧
      (candidate * 10 ^ unit : ℚ) ≤ (m + 1 / 2) * 2 ^ e ∧
      (m % 2 = 1 → (m - reachBelow m e) * 2 ^ e < candidate * 10 ^ unit ∧
        (candidate * 10 ^ unit : ℚ) < (m + 1 / 2) * 2 ^ e) :=
    ⟨fun h => ⟨h.low, h.high, h.odd⟩, fun h => ⟨h.1, h.2.1, h.2.2⟩⟩
  rw [hiff, ← hlow, ← hhigh, ← hcvalue, Ratio.value_le_value_iff hlowden hc,
    Ratio.value_le_value_iff hc hhighden, Ratio.value_lt_value_iff hlowden hc,
    Ratio.value_lt_value_iff hc hhighden]
  unfold readsBack
  dsimp only
  rcases Nat.mod_two_eq_zero_or_one m with h | h
  · simp [h]
  · simp only [h, one_ne_zero, if_false, Bool.and_eq_true, decide_eq_true_eq, forall_const]
    exact ⟨fun h => ⟨h.1.le, h.2.le, h⟩, fun h => h.2.2⟩

theorem onGrid_spec (hm : 0 < m) {unit : Int} {digits : Nat} (h : onGrid m e unit = some digits) :
    0 < digits ∧ ReadsAs m e (digits * 10 ^ unit) := by
  have hfound {candidate : Nat}
      (hcandidate : (decide (candidate ≠ 0) && readsBack m e candidate unit) = true) :
      0 < candidate ∧ ReadsAs m e (candidate * 10 ^ unit) := by
    rw [Bool.and_eq_true, decide_eq_true_eq, readsBack_iff hm] at hcandidate
    exact ⟨Nat.pos_of_ne_zero hcandidate.1, hcandidate.2⟩
  unfold onGrid at h
  dsimp only at h
  split_ifs at h with hnearest hsame hother hother
  · cases h
    exact hfound hnearest
  · cases h
    exact hfound hother
  · cases h
    exact hfound hother

/-- The trial stops where the nearest candidate reads back. -/
theorem onGrid_isSome (hm : 0 < m) {unit : Int} {digits : Nat} (hdigits : 0 < digits)
    (hround : ((Ratio.ofBinary m e).shift (-unit)).round = digits)
    (reads : ReadsAs m e (digits * 10 ^ unit)) : (onGrid m e unit).isSome := by
  unfold onGrid
  dsimp only
  rw [hround, if_pos]
  · rfl
  · rw [Bool.and_eq_true, decide_eq_true_eq, readsBack_iff hm]
    exact ⟨hdigits.ne', reads⟩

/-! ## Magnitudes -/

theorem length_natural_pos (n : Nat) : 0 < (natural n).length := Nat.length_toDigits_pos

theorem lt_pow_length (n : Nat) : n < 10 ^ (natural n).length :=
  (Nat.length_toDigits_le_iff (by decide) (length_natural_pos n)).mp le_rfl

theorem pow_length_le {n : Nat} (hn : 0 < n) : 10 ^ ((natural n).length - 1) ≤ n := by
  by_cases hone : (natural n).length = 1
  · rw [hone]
    exact hn
  · have hpos := length_natural_pos n
    refine not_lt.mp fun hlt => ?_
    have := (Nat.length_toDigits_le_iff (b := 10) (by decide) (by omega)).mpr hlt
    change (natural n).length ≤ _ at this
    omega

theorem length_natural_eq {n k : Nat} (hlow : 10 ^ k ≤ n) (hhigh : n < 10 ^ (k + 1)) :
    (natural n).length = k + 1 := by
  have h₁ : (natural n).length ≤ k + 1 :=
    (Nat.length_toDigits_le_iff (by decide) (Nat.succ_pos k)).mpr hhigh
  have h₂ : k < (natural n).length :=
    (Nat.pow_lt_pow_iff_right (by decide : 1 < 10)).mp (hlow.trans_lt (lt_pow_length n))
  omega

/-- The search ends at the first number of places that is enough, provided that it gets there. -/
theorem search_spec {r : Ratio} {enough : Nat} (fuel places : Nat) (hplaces : places ≤ enough)
    (hfuel : enough < places + fuel) (henough : r.den ≤ r.num * 10 ^ enough) :
    r.den ≤ r.num * 10 ^ Ratio.magnitude.search r fuel places ∧
      places ≤ Ratio.magnitude.search r fuel places ∧
      ∀ k, places ≤ k → k < Ratio.magnitude.search r fuel places → r.num * 10 ^ k < r.den := by
  induction fuel generalizing places with
  | zero => omega
  | succ fuel ih =>
      unfold Ratio.magnitude.search
      rw [tenTo_eq]
      split
      · rename_i hreached
        exact ⟨hreached, le_rfl, fun k h₁ h₂ => by omega⟩
      · rename_i hshort
        have hnext : places + 1 ≤ enough := by
          refine Nat.succ_le_of_lt (lt_of_le_of_ne hplaces ?_)
          rintro rfl
          exact hshort henough
        obtain ⟨hreached, hlater, hbefore⟩ := ih _ hnext (by omega)
        refine ⟨hreached, by omega, fun k h₁ h₂ => ?_⟩
        rcases h₁.eq_or_lt with rfl | h₁
        · exact not_le.mp hshort
        · exact hbefore k h₁ h₂

/-- The magnitude of a number that is not all too small. -/
theorem Ratio.magnitude_spec {r : Ratio} (hden : 0 < r.den)
    (hsmall : r.den ≤ r.num * 10 ^ 400) :
    (10 : ℚ) ^ (r.magnitude - 1) ≤ r.value ∧ r.value < 10 ^ r.magnitude := by
  have hden' : (0 : ℚ) < r.den := by exact_mod_cast hden
  unfold magnitude value
  split
  · rename_i hlarge
    have hquotient : 0 < r.num / r.den := Nat.div_pos hlarge hden
    have hlength := length_natural_pos (r.num / r.den)
    have hlow := (Nat.le_div_iff_mul_le hden).mp (pow_length_le hquotient)
    have hhigh := (Nat.div_lt_iff_lt_mul hden).mp (lt_pow_length (r.num / r.den))
    generalize (natural (r.num / r.den)).length = length at *
    rw [le_div_iff₀ hden', div_lt_iff₀ hden', zpow_natCast,
      show (length : Int) - 1 = (length - 1 : Nat) by omega, zpow_natCast]
    exact ⟨by exact_mod_cast hlow, by exact_mod_cast hhigh⟩
  · rename_i hless
    obtain ⟨hreached, hfirst, hbefore⟩ :=
      search_spec 400 1 (by decide) (by decide) hsmall
    generalize magnitude.search r 400 1 = places at *
    have hpower : (0 : ℚ) < 10 ^ places := by positivity
    constructor
    · rw [show (1 : Int) - places - 1 = -(places : Int) by ring, zpow_neg, zpow_natCast,
        inv_eq_one_div, div_le_div_iff₀ hpower hden', one_mul]
      exact_mod_cast hreached
    · have hbelow : r.num * 10 ^ (places - 1) < r.den := by
        by_cases hone : places = 1
        · rw [hone]
          omega
        · exact hbefore _ (by omega) (by omega)
      have hpower' : (0 : ℚ) < 10 ^ (places - 1) := by positivity
      rw [show (1 : Int) - places = -((places - 1 : Nat) : Int) by omega, zpow_neg, zpow_natCast,
        inv_eq_one_div, div_lt_div_iff₀ hden' hpower', one_mul]
      exact_mod_cast hbelow

theorem two_pow_le_ten_pow {k n : Nat} (h : k ≤ 3 * n) : 2 ^ k ≤ 10 ^ n := by
  calc
    2 ^ k ≤ 2 ^ (3 * n) := Nat.pow_le_pow_right (by decide) h
    _ = (2 ^ 3) ^ n := pow_mul 2 3 n
    _ ≤ 10 ^ n := Nat.pow_le_pow_left (by decide) n

theorem magnitude_ofBinary (double : IsDouble m e) :
    (10 : ℚ) ^ ((Ratio.ofBinary m e).magnitude - 1) ≤ m * 2 ^ e ∧
      m * 2 ^ e < (10 : ℚ) ^ (Ratio.ofBinary m e).magnitude := by
  rw [← Ratio.value_ofBinary]
  refine Ratio.magnitude_spec (Ratio.den_ofBinary_pos m e) ?_
  have hpos := double.pos
  have hleast := double.least
  unfold Ratio.ofBinary
  split
  · exact Nat.mul_pos (Nat.mul_pos hpos (Nat.two_pow_pos _)) (by positivity)
  · exact (two_pow_le_ten_pow (by omega)).trans (Nat.le_mul_of_pos_left _ hpos)

/-! ## Shortest digits -/

theorem ten_zpow_eq {p q : Int} (k : Nat) (h : p = q + k) : (10 : ℚ) ^ p = 10 ^ k * 10 ^ q := by
  rw [h, zpow_add₀ (by norm_num), zpow_natCast, mul_comm]

/-- **Seventeen digits are enough**: what is as near to a double as they are reads as it. -/
theorem readsAs_of_near (double : IsDouble m e) {magnitude : Int}
    (hmagnitude : (10 : ℚ) ^ (magnitude - 1) ≤ m * 2 ^ e)
    (hnear : |v - m * 2 ^ e| ≤ 10 ^ (magnitude - 17) / 2) : ReadsAs m e v := by
  have hunit : (0 : ℚ) < 2 ^ e := by positivity
  have hm : (m : ℚ) < 2 ^ 53 := by exact_mod_cast double.lt
  rw [ten_zpow_eq (q := magnitude - 17) 16 (by omega)] at hmagnitude
  have hreach : (10 : ℚ) ^ (magnitude - 17) / 2 < reachBelow m e * 2 ^ e := by
    unfold reachBelow
    split
    · rename_i hpower
      rw [hpower.1] at hmagnitude
      push_cast at hmagnitude
      norm_num at hmagnitude ⊢
      linarith
    · have : (m : ℚ) * 2 ^ e < 2 ^ 53 * 2 ^ e := mul_lt_mul_of_pos_right hm hunit
      norm_num at this ⊢
      linarith
  have hreach' := mul_le_mul_of_nonneg_right (reachBelow_le m e) hunit.le
  obtain ⟨hlow, hhigh⟩ := abs_le.mp hnear
  have h₁ : (m - reachBelow m e) * 2 ^ e < v := by linarith
  have h₂ : v < (m + 1 / 2) * 2 ^ e := by linarith
  exact ⟨h₁.le, h₂.le, fun _ => ⟨h₁, h₂⟩⟩

/-- The trial ends with a number of digits at which it found some, or having found none with the
numbers of digits that it tried. -/
theorem shortestFrom_spec (m : Nat) (e magnitude : Int) (fuel count : Nat) :
    (∃ (unit : Int) (digits : Nat), onGrid m e unit = some digits ∧
      shortestFrom m e magnitude fuel count = ⟨digits, unit + (natural digits).length⟩) ∨
    ((∀ tried, count ≤ tried → tried < count + fuel → onGrid m e (magnitude - tried) = none) ∧
      shortestFrom m e magnitude fuel count =
        ⟨((Ratio.ofBinary m e).shift ((count + fuel : Nat) - magnitude)).round, magnitude⟩) := by
  induction fuel generalizing count with
  | zero => exact .inr ⟨fun tried h₁ h₂ => by omega, rfl⟩
  | succ fuel ih =>
      unfold shortestFrom
      dsimp only
      cases hgrid : onGrid m e (magnitude - count) with
      | some digits => exact .inl ⟨_, digits, hgrid, rfl⟩
      | none =>
          rcases ih (count + 1) with hfound | ⟨hnone, hlast⟩
          · exact .inl hfound
          · refine .inr ⟨fun tried h₁ h₂ => ?_, ?_⟩
            · rcases h₁.eq_or_lt with rfl | h₁
              · exact hgrid
              · exact hnone tried h₁ (by omega)
            · dsimp only
              rw [hlast, Nat.add_right_comm, Nat.add_assoc]

/-- If seventeen digits round up to a power of ten, one digit is enough. -/
theorem onGrid_of_carry (double : IsDouble m e) {magnitude : Int}
    (hlow : (10 : ℚ) ^ (magnitude - 1) ≤ m * 2 ^ e) (hhigh : m * 2 ^ e < (10 : ℚ) ^ magnitude)
    (hcarry : (10 : ℚ) ^ magnitude - 10 ^ (magnitude - 17) / 2 ≤ m * 2 ^ e) :
    (onGrid m e (magnitude - 1)).isSome := by
  have hten : (10 : ℚ) ^ magnitude = 10 ^ 1 * 10 ^ (magnitude - 1) := ten_zpow_eq 1 (by omega)
  have hstep : (10 : ℚ) ^ (magnitude - 1) = 10 ^ 16 * 10 ^ (magnitude - 17) :=
    ten_zpow_eq 16 (by omega)
  rw [pow_one] at hten
  have hunit : (0 : ℚ) < 10 ^ (magnitude - 1) := by positivity
  have hlast : (0 : ℚ) < 10 ^ (magnitude - 17) := by positivity
  refine onGrid_isSome double.pos (show 0 < 10 by decide) ?_ ?_
  · have hden := Ratio.den_shift_pos (Ratio.den_ofBinary_pos m e) (-(magnitude - 1))
    have hvalue : ((Ratio.ofBinary m e).shift (-(magnitude - 1))).value * 10 ^ (magnitude - 1) =
        m * 2 ^ e := by
      rw [Ratio.value_shift, Ratio.value_ofBinary, zpow_neg, inv_mul_cancel_right₀ hunit.ne']
    rw [← hvalue, hten] at hcarry hhigh
    have h₁ : 10 - 1 / 2 ≤ ((Ratio.ofBinary m e).shift (-(magnitude - 1))).value := by
      refine le_of_mul_le_mul_right ?_ hunit
      linarith
    have h₂ := lt_of_mul_lt_mul_right hhigh hunit.le
    exact Ratio.round_eq_of_near hden (by exact_mod_cast h₁) (by push_cast; linarith)
      fun h => absurd h (by decide)
  · refine readsAs_of_near double hlow ?_
    push_cast
    rw [← hten, abs_of_pos (by linarith)]
    linarith

/-- Where one digit is not enough, a double rounded to seventeen digits has no more than these. -/
theorem seventeen_digits (double : IsDouble m e) {magnitude : Int} {digits : Nat} {scaled : ℚ}
    (hlow : (10 : ℚ) ^ (magnitude - 1) ≤ m * 2 ^ e) (hhigh : m * 2 ^ e < (10 : ℚ) ^ magnitude)
    (hscaled : scaled * 10 ^ (magnitude - 17) = m * 2 ^ e) (hnear : |(digits : ℚ) - scaled| ≤ 1 / 2)
    (hone : onGrid m e (magnitude - 1) = none) : 10 ^ 16 ≤ digits ∧ digits < 10 ^ 17 := by
  have hunit : (0 : ℚ) < 10 ^ (magnitude - 17) := by positivity
  have hstep : (10 : ℚ) ^ (magnitude - 1) = 10 ^ 16 * 10 ^ (magnitude - 17) :=
    ten_zpow_eq 16 (by omega)
  have hten : (10 : ℚ) ^ magnitude = 10 ^ 17 * 10 ^ (magnitude - 17) := ten_zpow_eq 17 (by omega)
  obtain ⟨hbelow, habove⟩ := abs_le.mp hnear
  have h₁ : 10 ^ 16 ≤ scaled := by
    rw [hstep, ← hscaled] at hlow
    exact le_of_mul_le_mul_right hlow hunit
  have h₂ : scaled < 10 ^ 17 := by
    rw [hten, ← hscaled] at hhigh
    exact lt_of_mul_lt_mul_right hhigh hunit.le
  have hleast : 10 ^ 16 ≤ digits := by
    have : ((10 ^ 16 : Nat) : ℚ) < digits + 1 := by push_cast; linarith
    exact Nat.lt_succ_iff.mp (by exact_mod_cast this)
  have hmost : digits ≤ 10 ^ 17 := by
    have : (digits : ℚ) < (10 ^ 17 : Nat) + 1 := by push_cast; linarith
    exact Nat.lt_succ_iff.mp (by exact_mod_cast this)
  -- With eighteen digits the number would be a power of ten, and found with one digit.
  have hcarry : digits ≠ 10 ^ 17 := by
    rintro rfl
    have hsome := onGrid_of_carry double hlow hhigh (by
      rw [hten, ← hscaled]
      push_cast at habove
      have := mul_le_mul_of_nonneg_right habove hunit.le
      linarith)
    rw [hone] at hsome
    cases hsome
  exact ⟨hleast, by omega⟩

/-- **The digits that are written for a double read as the double.** -/
theorem shortest_spec (double : IsDouble m e) : 0 < (shortest m e).digits ∧
    ReadsAs m e ((shortest m e).digits *
      10 ^ ((shortest m e).point - (natural (shortest m e).digits).length)) := by
  obtain ⟨hlow, hhigh⟩ := magnitude_ofBinary double
  unfold shortest
  generalize (Ratio.ofBinary m e).magnitude = magnitude at *
  rcases shortestFrom_spec m e magnitude 16 1 with ⟨unit, digits, hgrid, hfound⟩ | ⟨hnone, hlast⟩
  · rw [hfound]
    dsimp only
    rw [add_sub_cancel_right]
    exact onGrid_spec double.pos hgrid
  · have hden := Ratio.den_shift_pos (Ratio.den_ofBinary_pos m e) ((1 + 16 : Nat) - magnitude)
    have hnear := Ratio.abs_round_sub_le hden
    have hscaled : ((Ratio.ofBinary m e).shift ((1 + 16 : Nat) - magnitude)).value *
        10 ^ (magnitude - 17) = m * 2 ^ e := by
      rw [Ratio.value_shift, Ratio.value_ofBinary, mul_assoc, ← zpow_add₀ (by norm_num)]
      norm_num
    rw [hlast]
    dsimp only
    generalize ((Ratio.ofBinary m e).shift ((1 + 16 : Nat) - magnitude)).value = scaled at *
    generalize ((Ratio.ofBinary m e).shift ((1 + 16 : Nat) - magnitude)).round = digits at *
    have hone : onGrid m e (magnitude - 1) = none := hnone 1 le_rfl (by decide)
    obtain ⟨hleast, hmost⟩ := seventeen_digits double hlow hhigh hscaled hnear hone
    have hlength : (natural digits).length = 17 := length_natural_eq hleast hmost
    have hunit : (0 : ℚ) < 10 ^ (magnitude - 17) := by positivity
    rw [hlength]
    refine ⟨by omega, readsAs_of_near double hlow ?_⟩
    push_cast
    rw [← hscaled, ← sub_mul, abs_mul, abs_of_pos hunit]
    linarith [mul_le_mul_of_nonneg_right hnear hunit.le]

end FeedIntake.Decimal
