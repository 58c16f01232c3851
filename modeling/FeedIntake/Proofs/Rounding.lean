import FeedIntake.Decimal.Shortest
import Mathlib

/-! # Rounding to doubles

A quotient is cut to a mantissa, and two bits tell what is left of it. Both are enough to round it
as the whole quotient is rounded. So a number in the interval of a double, between the midpoints to
its neighbours, is rounded to that double, from whatever quotient and unit the rounding starts.
-/

namespace FeedIntake.Decimal

open Float.Model (UnpackedFloat Format totalExponent)
open Float.Model.UnpackedFloat

/-! ## Rounding -/

namespace Ratio

def value (r : Ratio) : ℚ := r.num / r.den

theorem value_eq {r : Ratio} (hden : 0 < r.den) :
    r.value = (r.num / r.den : Nat) + ((r.num % r.den : Nat) : ℚ) / r.den := by
  have hsplit : (r.num : ℚ) = r.den * (r.num / r.den : Nat) + (r.num % r.den : Nat) := by
    exact_mod_cast (Nat.div_add_mod r.num r.den).symm
  have hden' : (r.den : ℚ) ≠ 0 := by exact_mod_cast hden.ne'
  rw [value, hsplit]
  field_simp

theorem round_eq_of_near {r : Ratio} {n : Nat} (hden : 0 < r.den) (hlow : (n : ℚ) - 1 / 2 ≤ r.value)
    (hhigh : r.value ≤ n + 1 / 2)
    (hodd : n % 2 = 1 → (n : ℚ) - 1 / 2 < r.value ∧ r.value < n + 1 / 2) : r.round = n := by
  have hden' : (0 : ℚ) < r.den := by exact_mod_cast hden
  have hrest : 0 ≤ ((r.num % r.den : Nat) : ℚ) / r.den := by positivity
  rw [value_eq hden] at hlow hhigh hodd
  unfold round
  dsimp only
  generalize r.num / r.den = whole at *
  split
  · rename_i hless
    have hhalf : ((r.num % r.den : Nat) : ℚ) / r.den < 1 / 2 := by
      rw [div_lt_div_iff₀ hden' two_pos]
      exact_mod_cast (by omega : r.num % r.den * 2 < 1 * r.den)
    have h₁ : (n : ℚ) < whole + 1 := by linarith
    have h₂ : (whole : ℚ) < n + 1 := by linarith
    norm_cast at h₁ h₂
    omega
  · split
    · rename_i hmore
      have hhalf : 1 / 2 < ((r.num % r.den : Nat) : ℚ) / r.den := by
        rw [div_lt_div_iff₀ two_pos hden']
        exact_mod_cast (by omega : 1 * r.den < r.num % r.den * 2)
      have hone : ((r.num % r.den : Nat) : ℚ) / r.den < 1 := by
        rw [div_lt_one hden']
        exact_mod_cast Nat.mod_lt _ hden
      have h₁ : (n : ℚ) < whole + 2 := by linarith
      have h₂ : (whole : ℚ) < n := by linarith
      norm_cast at h₁ h₂
      omega
    · rename_i hless hmore
      have hhalf : ((r.num % r.den : Nat) : ℚ) / r.den = 1 / 2 := by
        rw [div_eq_div_iff hden'.ne' two_ne_zero]
        exact_mod_cast (by omega : r.num % r.den * 2 = 1 * r.den)
      have heven : n % 2 = 0 := by
        by_contra hne
        obtain ⟨h₁, h₂⟩ := hodd (by omega)
        have h₁' : (n : ℚ) < whole + 1 := by linarith
        have h₂' : (whole : ℚ) < n := by linarith
        norm_cast at h₁' h₂'
        omega
      have h₁ : (n : ℚ) ≤ whole + 1 := by linarith
      have h₂ : (whole : ℚ) ≤ n := by linarith
      norm_cast at h₁ h₂
      split <;> omega

end Ratio

/-- A quotient cut to a whole number, with what two bits tell of the rest: whether it is at least a
half, and whether it is neither nothing nor a half. -/
def cut (num den : Nat) : ExtendedMantissa where
  mantissa := num / den
  roundBit := den ≤ 2 * (num % den)
  stickyBit := num % den ≠ 0 ∧ 2 * (num % den) ≠ den

section

variable {num den : Nat}

theorem ofMantissa_exact (m : Nat) :
    ExtendedMantissa.ofMantissaAndAccuracy m .exact = cut m 1 := by
  simp [ExtendedMantissa.ofMantissaAndAccuracy, cut, Nat.mod_one]

theorem ofMantissa_fraction (hden : 0 < den) :
    ExtendedMantissa.ofMantissaAndAccuracy (num / den) (accuracyOfFraction (num % den) den) =
      cut num den := by
  unfold accuracyOfFraction cut
  generalize num % den = rest
  split
  · rename_i hzero
    simp [ExtendedMantissa.ofMantissaAndAccuracy, hzero, hden.ne']
  · rename_i hne
    rcases hcompare : compare (2 * rest) den with _ | _ | _
    · have hless := Nat.compare_eq_lt.mp hcompare
      simp only [ExtendedMantissa.ofMantissaAndAccuracy]
      congr 1 <;> simp <;> omega
    · have hsame := Nat.compare_eq_eq.mp hcompare
      simp [ExtendedMantissa.ofMantissaAndAccuracy, hsame]
    · have hmore := Nat.compare_eq_gt.mp hcompare
      simp only [ExtendedMantissa.ofMantissaAndAccuracy]
      congr 1 <;> simp <;> omega

theorem shiftRightOne_cut (hden : 0 < den) : (cut num den).shiftRightOne = cut num (den * 2) := by
  have hlt := Nat.mod_lt num hden
  have hmod : num % (den * 2) = num % den + den * (num / den % 2) := Nat.mod_mul
  have hdiv : num / (den * 2) = num / den / 2 := (Nat.div_div_eq_div_mul ..).symm
  unfold cut ExtendedMantissa.shiftRightOne
  rw [hmod, hdiv]
  dsimp only
  rcases Nat.mod_two_eq_zero_or_one (num / den) with h | h <;> rw [h] <;> congr 1 <;>
    rw [Bool.eq_iff_iff] <;> simp <;> omega

theorem shiftRight_cut (hden : 0 < den) (n : Nat) : cut num den >>> n = cut num (den * 2 ^ n) := by
  show n.repeat ExtendedMantissa.shiftRightOne (cut num den) = _
  induction n with
  | zero => simp [Nat.repeat]
  | succ n ih =>
      rw [Nat.repeat, ih, shiftRightOne_cut (Nat.mul_pos hden (Nat.two_pow_pos n)), pow_succ,
        Nat.mul_assoc]

theorem roundedMantissa_cut (hden : 0 < den) :
    (cut num den).roundedMantissa = (Ratio.mk num den).round := by
  unfold ExtendedMantissa.roundedMantissa cut Ratio.round
  dsimp only
  generalize num % den = rest
  generalize num / den = whole
  rcases Nat.lt_trichotomy (2 * rest) den with hless | hsame | hmore
  · rw [if_pos hless, decide_eq_false (by omega)]
    cases decide (rest ≠ 0 ∧ 2 * rest ≠ den) <;> rfl
  · rw [if_neg (by omega), if_neg (by omega), decide_eq_true (by omega),
      decide_eq_false (by omega)]
    show whole + whole % 2 = _
    split <;> omega
  · rw [if_neg (by omega), if_pos hmore, decide_eq_true (by omega), decide_eq_true (by omega)]
    rfl

end

/-! ## Doubles and what reads as them -/

/-- A positive finite double: its mantissa has all its bits, save with the least exponent. -/
structure IsDouble (m : Nat) (e : Int) : Prop where
  pos : 0 < m
  lt : m < 2 ^ 53
  least : -1074 ≤ e
  most : e ≤ 971
  full : e = -1074 ∨ 2 ^ 52 ≤ m

/-- How far a double reaches down, as a share of its unit; below a power of two the next double is
only half as far. -/
def reachBelow (m : Nat) (e : Int) : ℚ := if m = 2 ^ 52 ∧ e ≠ -1074 then 1 / 4 else 1 / 2

/-- The number is one of those that read as a double. -/
structure ReadsAs (m : Nat) (e : Int) (v : ℚ) : Prop where
  low : (m - reachBelow m e) * 2 ^ e ≤ v
  high : v ≤ (m + 1 / 2) * 2 ^ e
  odd : m % 2 = 1 → (m - reachBelow m e) * 2 ^ e < v ∧ v < (m + 1 / 2) * 2 ^ e

theorem reachBelow_le (m : Nat) (e : Int) : reachBelow m e ≤ 1 / 2 := by
  unfold reachBelow
  split <;> norm_num

theorem reachBelow_pos (m : Nat) (e : Int) : 0 < reachBelow m e := by
  unfold reachBelow
  split <;> norm_num

variable {m : Nat} {e : Int} {v : ℚ}

theorem ReadsAs.pos (reads : ReadsAs m e v) (hm : 0 < m) : 0 < v := by
  have hunit : (0 : ℚ) < 2 ^ e := by positivity
  have hm' : (1 : ℚ) ≤ m := by exact_mod_cast hm
  have hreach := reachBelow_le m e
  have hlow : 0 < (m - reachBelow m e) * 2 ^ e := mul_pos (by linarith) hunit
  exact hlow.trans_le reads.low

theorem ReadsAs.digits_pos {n : Nat} {places : Int} (reads : ReadsAs m e (n * 10 ^ places))
    (hm : 0 < m) : 0 < n := by
  refine Nat.pos_of_ne_zero ?_
  rintro rfl
  simpa using reads.pos hm

theorem targetExponent_binary64 (size : Int) :
    Format.binary64.targetExponent size = max (size - 53) (-1074) := rfl

/-- The powers of two that a positive number lies between, from its cut quotient. -/
theorem binade_of_cut {num den : Nat} {e : Int} (hden : 0 < den) (hcut : num / den ≠ 0)
    (hv : v = num / den * 2 ^ e) :
    (2 : ℚ) ^ ((num / den).log2 + e) ≤ v ∧ v < 2 ^ ((num / den).log2 + e + 1) := by
  have hunit : (0 : ℚ) < 2 ^ e := by positivity
  have hden' : (0 : ℚ) < den := by exact_mod_cast hden
  have hlow : (2 : ℚ) ^ (num / den).log2 ≤ num / den := by
    rw [le_div_iff₀ hden']
    exact_mod_cast (Nat.mul_le_mul_right den (Nat.log2_self_le hcut)).trans
      (Nat.div_mul_le_self num den)
  have hhigh : (num / den : ℚ) < 2 ^ ((num / den).log2 + 1) := by
    rw [div_lt_iff₀ hden']
    exact_mod_cast (Nat.div_lt_iff_lt_mul hden).mp Nat.lt_log2_self
  rw [hv]
  constructor
  · rw [zpow_add₀ two_ne_zero, zpow_natCast]
    exact mul_le_mul_of_nonneg_right hlow hunit.le
  · rw [show ((num / den).log2 : Int) + e + 1 = ((num / den).log2 + 1 : Nat) + e by push_cast; ring,
      zpow_add₀ two_ne_zero, zpow_natCast]
    exact mul_lt_mul_of_pos_right hhigh hunit

theorem ReadsAs.lt (reads : ReadsAs m e v) (double : IsDouble m e) : v < 2 ^ (53 + e) := by
  have hm : (m : ℚ) ≤ 2 ^ 53 - 1 := by
    have := double.lt
    have : m + 1 ≤ 2 ^ 53 := by omega
    have : (m : ℚ) + 1 ≤ 2 ^ 53 := by exact_mod_cast this
    linarith
  calc
    v ≤ (m + 1 / 2) * 2 ^ e := reads.high
    _ < 2 ^ 53 * 2 ^ e := mul_lt_mul_of_pos_right (by linarith) (by positivity)
    _ = 2 ^ (53 + e) := by rw [zpow_add₀ two_ne_zero]; norm_num

/-- What reads as a double from below its binade reads as a power of two. -/
theorem ReadsAs.below (reads : ReadsAs m e v) (double : IsDouble m e) (he : e ≠ -1074)
    (hv : v < 2 ^ (52 + e)) : m = 2 ^ 52 ∧ (2 ^ 52 - 1 / 4) * 2 ^ e ≤ v := by
  have hunit : (0 : ℚ) < 2 ^ e := by positivity
  have hfull := double.full.resolve_left he
  have hm : m = 2 ^ 52 := by
    by_contra hne
    have hmore : (2 : ℚ) ^ 52 + 1 ≤ m := by exact_mod_cast (by omega : 2 ^ 52 + 1 ≤ m)
    have hreach := reachBelow_le m e
    have hlow : (2 : ℚ) ^ 52 * 2 ^ e ≤ (m - reachBelow m e) * 2 ^ e :=
      mul_le_mul_of_nonneg_right (by linarith) hunit.le
    rw [zpow_add₀ two_ne_zero] at hv
    norm_num at hv hlow
    linarith [reads.low]
  refine ⟨hm, ?_⟩
  have hlow := reads.low
  rw [reachBelow, if_pos ⟨hm, he⟩, hm] at hlow
  exact_mod_cast hlow

/-- A number that reads as a double is cut to its unit, or to the unit below where the double is a
power of two. -/
theorem ReadsAs.binade (reads : ReadsAs m e v) (double : IsDouble m e) {k : Int}
    (hlow : 2 ^ k ≤ v) (hhigh : v < 2 ^ (k + 1)) :
    max (k - 52) (-1074) = e ∨
      (max (k - 52) (-1074) = e - 1 ∧ e ≠ -1074 ∧ v < 2 ^ (52 + e)) := by
  have hpow {a b : Int} : (2 : ℚ) ^ a < 2 ^ b ↔ a < b := zpow_lt_zpow_iff_right₀ one_lt_two
  have hleast := double.least
  have hmost : k < 53 + e := hpow.mp (hlow.trans_lt (reads.lt double))
  by_cases he : e = -1074
  · left
    omega
  · by_cases hv : v < 2 ^ (52 + e)
    · right
      obtain ⟨-, hquarter⟩ := reads.below double he hv
      have hhalf : (2 : ℚ) ^ (51 + e) ≤ v := by
        rw [zpow_add₀ two_ne_zero]
        have hunit : (0 : ℚ) < 2 ^ e := by positivity
        norm_num at hquarter ⊢
        linarith
      have h₁ := hpow.mp (hhalf.trans_lt hhigh)
      have h₂ := hpow.mp (hlow.trans_lt hv)
      exact ⟨by omega, he, hv⟩
    · left
      have h₁ := hpow.mp ((not_lt.mp hv).trans_lt hhigh)
      omega

/-- Rounded to the unit of a double, what reads as the double is its mantissa. -/
theorem ReadsAs.round (reads : ReadsAs m e v) {r : Ratio} (hden : 0 < r.den)
    (hr : r.value * 2 ^ e = v) : r.round = m := by
  have hunit : (0 : ℚ) < 2 ^ e := by positivity
  have hreach := reachBelow_le m e
  obtain ⟨hlow, hhigh, hodd⟩ := reads
  rw [← hr, mul_le_mul_iff_left₀ hunit] at hlow hhigh
  rw [← hr, mul_lt_mul_iff_left₀ hunit, mul_lt_mul_iff_left₀ hunit] at hodd
  refine Ratio.round_eq_of_near hden (by linarith) hhigh fun h => ?_
  obtain ⟨h₁, h₂⟩ := hodd h
  exact ⟨by linarith, h₂⟩

theorem ReadsAs.round_below (reads : ReadsAs m e v) (double : IsDouble m e) (he : e ≠ -1074)
    (hv : v < 2 ^ (52 + e)) {r : Ratio} (hden : 0 < r.den) (hr : r.value * 2 ^ (e - 1) = v) :
    r.round = 2 ^ 53 := by
  obtain ⟨-, hquarter⟩ := reads.below double he hv
  have hunit : (0 : ℚ) < 2 ^ e := by positivity
  have hhalf : (2 : ℚ) ^ (e - 1) = 2 ^ e / 2 := zpow_sub_one₀ two_ne_zero e
  have hlow : (2 : ℚ) ^ 53 - 1 / 2 ≤ r.value := by
    rw [← hr, hhalf] at hquarter
    have : (2 ^ 53 - 1 / 2) * (2 : ℚ) ^ e ≤ r.value * 2 ^ e := by linarith
    exact le_of_mul_le_mul_right this hunit
  have hhigh : r.value < 2 ^ 53 := by
    rw [← hr, hhalf, zpow_add₀ two_ne_zero] at hv
    norm_num at hv
    have : r.value * (2 : ℚ) ^ e < 2 ^ 53 * 2 ^ e := by linarith
    exact lt_of_mul_lt_mul_right this hunit.le
  refine Ratio.round_eq_of_near hden ?_ ?_ fun h => absurd h (by decide)
  · push_cast
    exact hlow
  · push_cast
    linarith

/-! ## Rounding to a double -/

theorem IsDouble.targetExponent (double : IsDouble m e) :
    Format.binary64.targetExponent (totalExponent m e) = e := by
  have hpos := double.pos
  have hleast := double.least
  have hlog : m.log2 < 53 := (Nat.log2_lt hpos.ne').mpr double.lt
  rw [targetExponent_binary64, totalExponent]
  rcases double.full with rfl | hfull
  · omega
  · have hlog' : 52 ≤ m.log2 := (Nat.le_log2 hpos.ne').mpr hfull
    omega

theorem shiftToExponent_cut {num den : Nat} {start target : Int} (hden : 0 < den)
    (hstart : start ≤ target) :
    shiftToExponent (num / den) start (accuracyOfFraction (num % den) den) target =
      (cut num (den * 2 ^ (target - start).toNat), target) := by
  unfold shiftToExponent
  dsimp only
  rw [ofMantissa_fraction hden, shiftRight_cut hden]
  congr 1
  omega

theorem shiftToExponent_exact {start target : Int} (hstart : start ≤ target) :
    shiftToExponent m start .exact target = (cut m (2 ^ (target - start).toNat), target) := by
  unfold shiftToExponent
  dsimp only
  rw [ofMantissa_exact, shiftRight_cut Nat.one_pos, Nat.one_mul]
  congr 1
  omega

/-- A mantissa with all its bits stays as it is, and one that rounding has carried too far is
halved. -/
theorem IsDouble.settle (double : IsDouble m e) :
    shiftToTargetExponent Format.binary64 m e .exact = (cut m 1, e) := by
  unfold shiftToTargetExponent
  rw [double.targetExponent]
  dsimp only
  rw [shiftToExponent_exact le_rfl, Int.sub_self]
  rfl

theorem settle_carried (he : -1074 < e) :
    shiftToTargetExponent Format.binary64 (2 ^ 53) (e - 1) .exact = (cut (2 ^ 53) 2, e) := by
  have htarget : Format.binary64.targetExponent (totalExponent (2 ^ 53) (e - 1)) = e := by
    rw [targetExponent_binary64, totalExponent, Nat.log2_two_pow]
    omega
  unfold shiftToTargetExponent
  rw [htarget]
  dsimp only
  rw [shiftToExponent_exact (by omega), show (e - (e - 1)).toNat = 1 by omega]
  rfl

/-- A number that is cut to nothing is too small for all but the least exponent. -/
theorem ReadsAs.least_of_lt (reads : ReadsAs m e v) (double : IsDouble m e)
    (hv : v < 2 ^ (-1074 : Int)) : e = -1074 := by
  by_contra he
  have hfull : (2 : ℚ) ^ 52 ≤ m := by exact_mod_cast double.full.resolve_left he
  have hreach := reachBelow_le m e
  have hleast := double.least
  have hunit : (2 : ℚ) ^ (-1074 : Int) ≤ 2 ^ e := zpow_le_zpow_right₀ one_le_two hleast
  have hone : 1 * (2 : ℚ) ^ e ≤ (m - reachBelow m e) * 2 ^ e :=
    mul_le_mul_of_nonneg_right (by linarith) (by positivity)
  linarith [reads.low]

theorem ReadsAs.target (reads : ReadsAs m e v) (double : IsDouble m e) {num den : Nat}
    {start : Int} (hden : 0 < den) (hv : v = num / den * 2 ^ start)
    (hstart : start ≤ Format.binary64.targetExponent (totalExponent (num / den) start)) :
    Format.binary64.targetExponent (totalExponent (num / den) start) = e ∨
      (Format.binary64.targetExponent (totalExponent (num / den) start) = e - 1 ∧ e ≠ -1074 ∧
        v < 2 ^ (52 + e)) := by
  by_cases hcut : num / den = 0
  · rw [hcut, targetExponent_binary64, totalExponent, Nat.log2_zero] at hstart ⊢
    have hless : (num / den : ℚ) < 1 := by
      rw [div_lt_one (by exact_mod_cast hden)]
      exact_mod_cast (Nat.div_eq_zero_iff_lt hden).mp hcut
    have hunit : (2 : ℚ) ^ start ≤ 2 ^ (-1074 : Int) :=
      zpow_le_zpow_right₀ one_le_two (by omega)
    have hsmall : v < 2 ^ start := by
      rw [hv]
      exact mul_lt_of_lt_one_left (by positivity) hless
    have he := reads.least_of_lt double (hsmall.trans_le hunit)
    left
    omega
  · obtain ⟨hlow, hhigh⟩ := binade_of_cut hden hcut hv
    rw [targetExponent_binary64, totalExponent,
      show ((num / den).log2 : Int) + 1 + start - 53 = (num / den).log2 + start - 52 by ring]
    exact reads.binade double hlow hhigh

/-- **What reads as a double is rounded to it**, from a quotient that has bits enough. -/
theorem ReadsAs.roundWithAccuracy (reads : ReadsAs m e v) (double : IsDouble m e) {num den : Nat}
    {start : Int} (hden : 0 < den) (hv : v = num / den * 2 ^ start)
    (hstart : start ≤ Format.binary64.targetExponent (totalExponent (num / den) start))
    (sign : Sign) :
    roundWithAccuracy Format.binary64 sign (num / den) start
      (accuracyOfFraction (num % den) den) = .finite sign m e double.pos := by
  have htarget := reads.target double hden hv hstart
  have hfirst : shiftToTargetExponent Format.binary64 (num / den) start
      (accuracyOfFraction (num % den) den) = _ := shiftToExponent_cut hden hstart
  generalize Format.binary64.targetExponent (totalExponent (num / den) start) = target at *
  set scaled := den * 2 ^ (target - start).toNat with hscaled
  have hpos : 0 < scaled := Nat.mul_pos hden (Nat.two_pow_pos _)
  have hvalue : (Ratio.mk num scaled).value * 2 ^ target = v := by
    have hsplit : (2 : ℚ) ^ target = 2 ^ (target - start).toNat * 2 ^ start := by
      rw [← zpow_natCast, ← zpow_add₀ two_ne_zero]
      congr 1
      omega
    have hden' : (den : ℚ) ≠ 0 := by exact_mod_cast hden.ne'
    rw [hv, Ratio.value, hscaled, hsplit]
    push_cast
    field_simp
  unfold UnpackedFloat.roundWithAccuracy
  rw [hfirst]
  dsimp only
  rw [roundedMantissa_cut hpos]
  rcases htarget with rfl | ⟨rfl, he, hbelow⟩
  · rw [reads.round hpos hvalue, double.settle]
    simp [cut, double.pos.ne']
  · have hleast := double.least
    rw [reads.round_below double he hbelow hpos hvalue, settle_carried (by omega)]
    simp [cut, (reads.below double he hbelow).1]

end FeedIntake.Decimal
