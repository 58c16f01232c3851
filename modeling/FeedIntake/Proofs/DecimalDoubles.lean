import FeedIntake.Proofs.Rounding

/-! # Decimals read as doubles

The bits of a finite double tell its sign, its mantissa and its exponent, and nothing else. A
decimal in the interval of a double is read as that double, be it by one division or multiplication
of whole numbers or by way of a longer quotient.
-/

namespace FeedIntake.Decimal

open Float.Model (UnpackedFloat Format totalExponent)
open Float.Model.UnpackedFloat

variable {m : Nat} {e : Int} {v : ℚ}

/-! ## Bits -/

theorem toNat_packComponents (sign : Sign) (exponent : BitVec 11) (fraction : BitVec 52) :
    (packComponents Format.binary64 sign exponent fraction).toNat =
      sign.toBitVec.toNat * 2 ^ 63 + exponent.toNat * 2 ^ 52 + fraction.toNat := by
  unfold packComponents
  rw [BitVec.toNat_append, BitVec.toNat_append, ← Nat.shiftLeft_add_eq_or_of_lt exponent.isLt,
    ← Nat.shiftLeft_add_eq_or_of_lt fraction.isLt]
  simp only [Nat.shiftLeft_eq]
  ring

theorem pack_finite (double : IsDouble m e) (sign : Sign) :
    UnpackedFloat.pack Format.binary64 (.finite sign m e double.pos) =
      packComponents Format.binary64 sign
        (if 2 ^ 52 ≤ m then BitVec.ofNat 11 (e + 1075).toNat else 0#11) (BitVec.ofNat 52 m) := by
  have hleast := double.least
  have hmost := double.most
  unfold UnpackedFloat.pack
  dsimp only
  have hbiased : (e + (Format.binary64.exponentBias : Int) +
      (Format.binary64.mantissaBitsWithoutImplicit : Int)).toNat = (e + 1075).toNat := by
    show (e + 1023 + 52).toNat = _
    omega
  rw [hbiased, if_neg (by show ¬ 2 ^ 11 ≤ _; omega)]
  by_cases hfull : 2 ^ 52 ≤ m
  · have hlog : m.log2 + 1 = Format.binary64.mantissaBits := by
      have h₁ := (Nat.le_log2 double.pos.ne').mpr hfull
      have h₂ := (Nat.log2_lt double.pos.ne').mpr double.lt
      show _ = 53
      omega
    rw [if_pos hlog, if_pos hfull]
  · have hlog : ¬ m.log2 + 1 = Format.binary64.mantissaBits := by
      have := (Nat.log2_lt double.pos.ne').mpr (not_le.mp hfull)
      show ¬ _ = 53
      omega
    rw [if_neg hlog, if_neg hfull]

theorem toNat_implicit (fraction : BitVec 52) :
    (1#1 ++ fraction).toNat = 2 ^ 52 + fraction.toNat := by
  rw [BitVec.toNat_append, ← Nat.shiftLeft_add_eq_or_of_lt fraction.isLt]
  rfl

/-- A double is what its bits say. -/
theorem IsDouble.unpack_pack (double : IsDouble m e) (sign : Sign) :
    UnpackedFloat.unpack Format.binary64
      (UnpackedFloat.pack Format.binary64 (.finite sign m e double.pos)) =
        .finite sign m e double.pos := by
  have hleast := double.least
  have hmost := double.most
  have hlt := double.lt
  rw [pack_finite double, UnpackedFloat.unpack]
  simp only [unpackMantissa_packComponents, unpackExponent_packComponents,
    unpackSign_packComponents, Sign.ofBitVec_toBitVec]
  by_cases hfull : 2 ^ 52 ≤ m
  · have hbiased : (BitVec.ofNat 11 (e + 1075).toNat).toNat = (e + 1075).toNat := by
      rw [BitVec.toNat_ofNat, Nat.mod_eq_of_lt (by omega)]
    have hones : BitVec.ofNat 11 (e + 1075).toNat ≠ -1#_ := by
      rw [ne_eq, ← BitVec.toNat_inj, hbiased]
      show ¬ _ = 2047
      omega
    have hzero : BitVec.ofNat 11 (e + 1075).toNat ≠ 0#_ := by
      rw [ne_eq, ← BitVec.toNat_inj, hbiased]
      show ¬ _ = 0
      omega
    rw [if_pos hfull, if_neg hones, if_neg hzero]
    congr 1
    · rw [toNat_implicit, BitVec.toNat_ofNat]
      omega
    · rw [hbiased]
      show ((e + 1075).toNat : Int) - (1023 + 52) = e
      omega
  · have hfraction : (BitVec.ofNat 52 m).toNat = m := by
      rw [BitVec.toNat_ofNat, Nat.mod_eq_of_lt (by omega)]
    have hpos := double.pos
    have hzero : BitVec.ofNat 52 m ≠ 0#_ := by
      rw [ne_eq, ← BitVec.toNat_inj, hfraction]
      show ¬ _ = 0
      omega
    have he := double.full.resolve_right hfull
    rw [if_neg hfull, if_neg (by decide), if_pos rfl, dif_neg hzero]
    congr 1
    rw [he]
    rfl

def signOf (negative : Bool) : Sign := if negative then .negative else .positive

def IsDouble.float (double : IsDouble m e) (negative : Bool) : Float :=
  .ofModel (.pack (.finite (signOf negative) m e double.pos))

/-- The bits of a finite double: its sign, its exponent, and its mantissa without the first bit. -/
theorem bits_of_finite {x : Float} {negative : Bool}
    (h : Binary64.ofFloat x = .finite negative m e) : ∃ biased fraction : Nat,
      x.toBits.toNat = (if negative then 1 else 0) * 2 ^ 63 + biased * 2 ^ 52 + fraction ∧
      biased < 2047 ∧ fraction < 2 ^ 52 ∧
      (biased = 0 ∧ m = fraction ∧ e = -1074 ∨
        0 < biased ∧ m = fraction + 2 ^ 52 ∧ e = biased - 1075) := by
  have hbits := x.toBits.toNat_lt
  unfold Binary64.ofFloat at h
  dsimp only at h
  generalize hsign : x.toBits.toNat / twoTo 63 = sign at h
  generalize hbiased : x.toBits.toNat / twoTo 52 % twoTo 11 = biased at h
  generalize hfraction : x.toBits.toNat % twoTo 52 = fraction at h
  simp only [twoTo, Nat.pow_eq] at hsign hbiased hfraction
  have hnegative : sign = if (sign == 1) = true then 1 else 0 := by
    rcases (by omega : sign = 0 ∨ sign = 1) with rfl | rfl <;> rfl
  have hsplit : x.toBits.toNat = sign * 2 ^ 63 + biased * 2 ^ 52 + fraction := by omega
  split at h
  · split at h <;> cases h
  · split at h
    · rename_i hless hzero
      cases h
      exact ⟨biased, _, hnegative ▸ hsplit, by omega, by omega, .inl ⟨hzero, rfl, rfl⟩⟩
    · rename_i hless hzero
      cases h
      exact ⟨biased, fraction, hnegative ▸ hsplit, by omega, by omega,
        .inr ⟨by omega, rfl, rfl⟩⟩

theorem isDouble_of_ofFloat {x : Float} {negative : Bool}
    (h : Binary64.ofFloat x = .finite negative m e) (hm : 0 < m) : IsDouble m e := by
  obtain ⟨biased, fraction, -, hbiased, hfraction, ⟨-, rfl, rfl⟩ | ⟨hpos, rfl, rfl⟩⟩ :=
    bits_of_finite h
  · exact ⟨hm, by omega, by omega, by omega, .inl rfl⟩
  · exact ⟨hm, by omega, by omega, by omega, .inr (by omega)⟩

theorem toNat_signOf (negative : Bool) :
    (signOf negative).toBitVec.toNat = if negative then 1 else 0 := by
  cases negative <;> rfl

/-- **A double is known by its sign, mantissa and exponent.** -/
theorem eq_float_of_ofFloat {x : Float} {negative : Bool}
    (h : Binary64.ofFloat x = .finite negative m e) (hm : 0 < m) :
    x = (isDouble_of_ofFloat h hm).float negative := by
  have double := isDouble_of_ofFloat h hm
  obtain ⟨biased, fraction, hbits, hbiased, hfraction, hparts⟩ := bits_of_finite h
  have hpacked : (UnpackedFloat.pack Format.binary64
      (.finite (signOf negative) m e double.pos)).toNat = x.toBits.toNat := by
    rw [pack_finite double, toNat_packComponents, toNat_signOf, hbits]
    rcases hparts with ⟨rfl, rfl, rfl⟩ | ⟨hpos, rfl, rfl⟩
    · rw [if_neg (show ¬ 2 ^ 52 ≤ m by omega), BitVec.toNat_ofNat, BitVec.toNat_ofNat,
        Nat.mod_eq_of_lt hfraction, Nat.zero_mod]
    · rw [if_pos (show 2 ^ 52 ≤ fraction + 2 ^ 52 by omega), BitVec.toNat_ofNat,
        BitVec.toNat_ofNat]
      omega
  exact Float.toBits_inj.mp (UInt64.toNat_inj.mp hpacked.symm)

theorem IsDouble.unpack_float (double : IsDouble m e) (negative : Bool) :
    (double.float negative).toModel.unpack = .finite (signOf negative) m e double.pos :=
  double.unpack_pack _

theorem IsDouble.neg_float (double : IsDouble m e) :
    -double.float false = double.float true := by
  show Float.ofModel (.pack (double.float false).toModel.unpack.neg) = _
  rw [double.unpack_float]
  rfl

/-! ## Reading decimals -/

theorem readsAs_self (m : Nat) (e : Int) : ReadsAs m e (m * 2 ^ e) := by
  have hunit : (0 : ℚ) < 2 ^ e := by positivity
  have hreach := reachBelow_pos m e
  exact ⟨mul_le_mul_of_nonneg_right (by linarith) hunit.le,
    mul_le_mul_of_nonneg_right (by linarith) hunit.le,
    fun _ => ⟨mul_lt_mul_of_pos_right (by linarith) hunit,
      mul_lt_mul_of_pos_right (by linarith) hunit⟩⟩

theorem ReadsAs.roundWithAccuracy_exact (reads : ReadsAs m e v) (double : IsDouble m e)
    {whole : Nat} {start : Int} (hv : v = whole * 2 ^ start)
    (hstart : start ≤ Format.binary64.targetExponent (totalExponent whole start)) (sign : Sign) :
    UnpackedFloat.roundWithAccuracy Format.binary64 sign whole start .exact =
      .finite sign m e double.pos := by
  have hv' : v = (whole : ℚ) / (1 : Nat) * 2 ^ start := by simpa using hv
  have hround := reads.roundWithAccuracy double Nat.one_pos hv' (by simpa using hstart) sign
  simpa [Nat.mod_one, accuracyOfFraction] using hround

theorem le_targetExponent {size least : Int} (hsize : least ≤ size - 53) :
    least ≤ Format.binary64.targetExponent size := by
  rw [targetExponent_binary64]
  omega

theorem ReadsAs.mul {m₁ m₂ : Nat} {e₁ e₂ : Int} (reads : ReadsAs m e v) (double : IsDouble m e)
    (h₁ : 0 < m₁) (h₂ : 0 < m₂) (hv : v = m₁ * m₂ * 2 ^ (e₁ + e₂)) (hlarge : 2 ^ 53 ≤ m₁ * m₂) :
    UnpackedFloat.mul Format.binary64 (.finite .positive m₁ e₁ h₁) (.finite .positive m₂ e₂ h₂) =
      .finite .positive m e double.pos := by
  refine reads.roundWithAccuracy_exact double (by exact_mod_cast hv) (le_targetExponent ?_) _
  have hlog : 53 ≤ (m₁ * m₂).log2 := (Nat.le_log2 (Nat.mul_pos h₁ h₂).ne').mpr hlarge
  rw [totalExponent]
  omega

/-- The logarithm of a quotient is that of the dividend less that of the divisor, or one less. -/
theorem log2_div_ge {m₁ m₂ : Nat} (h₁ : 0 < m₁) (h₂ : 0 < m₂) (shift : Nat) :
    (m₁.log2 : Int) + shift - m₂.log2 - 1 ≤ (m₁ * 2 ^ shift / m₂).log2 := by
  by_cases hless : m₁.log2 + shift ≤ m₂.log2
  · omega
  · have hquotient : 2 ^ (m₁.log2 + shift - m₂.log2 - 1) ≤ m₁ * 2 ^ shift / m₂ := by
      rw [Nat.le_div_iff_mul_le h₂]
      calc
        2 ^ (m₁.log2 + shift - m₂.log2 - 1) * m₂
          ≤ 2 ^ (m₁.log2 + shift - m₂.log2 - 1) * 2 ^ (m₂.log2 + 1) :=
            Nat.mul_le_mul_left _ Nat.lt_log2_self.le
        _ = 2 ^ m₁.log2 * 2 ^ shift := by
            rw [← pow_add, ← pow_add]
            congr 1
            omega
        _ ≤ m₁ * 2 ^ shift := Nat.mul_le_mul_right _ (Nat.log2_self_le h₁.ne')
    have hpos : m₁ * 2 ^ shift / m₂ ≠ 0 := by
      have := Nat.two_pow_pos (m₁.log2 + shift - m₂.log2 - 1)
      omega
    have := (Nat.le_log2 hpos).mpr hquotient
    omega

/-- A quotient is read to bits enough. -/
theorem ReadsAs.div {m₁ m₂ : Nat} {e₁ e₂ : Int} (reads : ReadsAs m e v) (double : IsDouble m e)
    (h₁ : 0 < m₁) (h₂ : 0 < m₂) (hv : v = m₁ / m₂ * 2 ^ (e₁ - e₂)) :
    UnpackedFloat.div Format.binary64 (.finite .positive m₁ e₁ h₁) (.finite .positive m₂ e₂ h₂) =
      .finite .positive m e double.pos := by
  unfold UnpackedFloat.div divCore
  dsimp only
  rw [Nat.shiftLeft_eq]
  generalize hstart : min (e₁ - e₂) (Format.binary64.targetExponent
    (totalExponent m₁ e₁ - totalExponent m₂ e₂)) = start
  have hlog := log2_div_ge h₁ h₂ (e₁ - e₂ - start).toNat
  rw [targetExponent_binary64, totalExponent, totalExponent] at hstart
  refine reads.roundWithAccuracy double h₂ ?_ ?_ _
  · have hsplit : (2 : ℚ) ^ (e₁ - e₂) = 2 ^ (e₁ - e₂ - start).toNat * 2 ^ start := by
      rw [← zpow_natCast, ← zpow_add₀ two_ne_zero]
      congr 1
      omega
    rw [hv, hsplit]
    push_cast
    ring
  · rw [targetExponent_binary64, totalExponent]
    omega

theorem isDouble_of_whole {n : Nat} (hn : 0 < n) (hbits : n * 2 ^ 52 % 2 ^ n.log2 = 0)
    (hmost : n.log2 ≤ 1023) :
    IsDouble (n * 2 ^ 52 / 2 ^ n.log2) (n.log2 - 52) ∧
      ((n * 2 ^ 52 / 2 ^ n.log2 : Nat) : ℚ) * 2 ^ ((n.log2 : Int) - 52) = n := by
  have hpow := Nat.two_pow_pos n.log2
  have hlow : 2 ^ 52 ≤ n * 2 ^ 52 / 2 ^ n.log2 := by
    rw [Nat.le_div_iff_mul_le hpow, Nat.mul_comm]
    exact Nat.mul_le_mul_right _ (Nat.log2_self_le hn.ne')
  have hhigh : n * 2 ^ 52 / 2 ^ n.log2 < 2 ^ 53 := by
    rw [Nat.div_lt_iff_lt_mul hpow]
    calc
      n * 2 ^ 52 < 2 ^ (n.log2 + 1) * 2 ^ 52 :=
        Nat.mul_lt_mul_of_pos_right Nat.lt_log2_self (by decide)
      _ = 2 ^ 53 * 2 ^ n.log2 := by rw [pow_succ]; ring
  refine ⟨⟨by omega, hhigh, by omega, by omega, .inr hlow⟩, ?_⟩
  have hexact : n * 2 ^ 52 / 2 ^ n.log2 * 2 ^ n.log2 = n * 2 ^ 52 :=
    Nat.div_mul_cancel (Nat.dvd_of_mod_eq_zero hbits)
  have hexact' : ((n * 2 ^ 52 / 2 ^ n.log2 : Nat) : ℚ) * 2 ^ n.log2 = n * 2 ^ 52 := by
    exact_mod_cast hexact
  rw [zpow_sub₀ two_ne_zero, zpow_natCast, ← mul_div_assoc, hexact']
  norm_num

theorem mod_log2_of_lt {n : Nat} (hn : n < 2 ^ 53) : n * 2 ^ 52 % 2 ^ n.log2 = 0 := by
  by_cases hzero : n = 0
  · rw [hzero]
    rfl
  · have hlog : n.log2 < 53 := (Nat.log2_lt hzero).mpr hn
    exact Nat.mod_eq_zero_of_dvd (Nat.dvd_mul_left_of_dvd (pow_dvd_pow 2 (by omega)) n)

theorem ofNat_eq {n : Nat} (hpos : 0 < n) (hn : n < 2 ^ 53)
    (double : IsDouble (n * 2 ^ 52 / 2 ^ n.log2) (n.log2 - 52)) :
    UnpackedFloat.ofNat Format.binary64 n =
      .finite .positive (n * 2 ^ 52 / 2 ^ n.log2) (n.log2 - 52) double.pos := by
  have hlog : n.log2 < 53 := (Nat.log2_lt hpos.ne').mpr hn
  have htarget : Format.binary64.targetExponent (totalExponent n 0) = (n.log2 : Int) - 52 := by
    rw [targetExponent_binary64, totalExponent]
    omega
  have hshift : n <<< (0 - ((n.log2 : Int) - 52)).toNat = n * 2 ^ 52 / 2 ^ n.log2 := by
    rw [show (0 - ((n.log2 : Int) - 52)).toNat = 52 - n.log2 by omega, Nat.shiftLeft_eq]
    refine (Nat.div_eq_of_eq_mul_left (Nat.two_pow_pos _) ?_).symm
    rw [Nat.mul_assoc, ← pow_add]
    congr 2
    omega
  unfold UnpackedFloat.ofNat UnpackedFloat.ofInt UnpackedFloat.normalize
  rw [show compare (n : Int) 0 = .gt from Int.compare_eq_gt.mpr (by omega)]
  dsimp only
  unfold UnpackedFloat.round decreaseExponent
  dsimp only
  rw [Int.toNat_natCast, htarget, hshift,
    show (0 : Int) - (0 - ((n.log2 : Int) - 52)).toNat = n.log2 - 52 by omega]
  exact (readsAs_self _ _).roundWithAccuracy_exact double rfl double.targetExponent.ge _

def IsWhole (x : Float) (n : Nat) : Prop :=
  ∃ (m : Nat) (e : Int) (double : IsDouble m e),
    x.toModel.unpack = .finite .positive m e double.pos ∧ 2 ^ 52 ≤ m ∧ (m : ℚ) * 2 ^ e = n

theorem isWhole_toFloat {n : Nat} (hpos : 0 < n) (hn : n < 2 ^ 53) :
    IsWhole n.toUInt64.toFloat n := by
  have hlog : n.log2 < 53 := (Nat.log2_lt hpos.ne').mpr hn
  obtain ⟨double, hvalue⟩ := isDouble_of_whole hpos (mod_log2_of_lt hn) (by omega)
  refine ⟨_, _, double, ?_, double.full.resolve_left (by omega), hvalue⟩
  have hnumber : n.toUInt64.toNat = n := by
    rw [Nat.toUInt64, UInt64.toNat_ofNat', Nat.mod_eq_of_lt (by omega)]
  show UnpackedFloat.unpack Format.binary64 (UnpackedFloat.pack Format.binary64
    (UnpackedFloat.ofNat Format.binary64 n.toUInt64.toNat)) = _
  rw [hnumber, ofNat_eq hpos hn double]
  exact double.unpack_pack .positive

theorem powersOfTen_bits : ∀ k : Fin Float.exactlyRepresentablePowersOfTen.size,
    Binary64.ofFloat Float.exactlyRepresentablePowersOfTen[k] =
      .finite false (10 ^ k.val * 2 ^ 52 / 2 ^ (10 ^ k.val).log2) ((10 ^ k.val).log2 - 52) ∧
    10 ^ k.val * 2 ^ 52 % 2 ^ (10 ^ k.val).log2 = 0 ∧ (10 ^ k.val).log2 ≤ 1023 := by
  decide

/-- The table holds the powers of ten as they stand. -/
theorem isWhole_powerOfTen {k : Nat} (hk : k < Float.exactlyRepresentablePowersOfTen.size) :
    IsWhole Float.exactlyRepresentablePowersOfTen[k] (10 ^ k) := by
  obtain ⟨hbits, hexact, hmost⟩ := powersOfTen_bits ⟨k, hk⟩
  obtain ⟨double, hvalue⟩ := isDouble_of_whole (Nat.pow_pos (by decide)) hexact hmost
  refine ⟨_, _, double, ?_, double.full.resolve_left (by omega), hvalue⟩
  have hpower : Float.exactlyRepresentablePowersOfTen[k] = double.float false :=
    eq_float_of_ofFloat hbits double.pos
  rw [hpower]
  exact double.unpack_float false

theorem ReadsAs.div_whole {x y : Float} {n k : Nat} (hx : IsWhole x n) (hy : IsWhole y k)
    (reads : ReadsAs m e (n / k)) (double : IsDouble m e) : x / y = double.float false := by
  obtain ⟨m₁, e₁, first, hfirst, -, hvalue₁⟩ := hx
  obtain ⟨m₂, e₂, second, hsecond, -, hvalue₂⟩ := hy
  show Float.ofModel (.pack (UnpackedFloat.div Format.binary64 _ _)) = _
  rw [hfirst, hsecond, reads.div double first.pos second.pos ?_]
  · rfl
  · rw [← hvalue₁, ← hvalue₂, zpow_sub₀ two_ne_zero]
    field_simp

theorem ReadsAs.mul_whole {x y : Float} {n k : Nat} (hx : IsWhole x n) (hy : IsWhole y k)
    (reads : ReadsAs m e (n * k)) (double : IsDouble m e) : x * y = double.float false := by
  obtain ⟨m₁, e₁, first, hfirst, hfull₁, hvalue₁⟩ := hx
  obtain ⟨m₂, e₂, second, hsecond, hfull₂, hvalue₂⟩ := hy
  show Float.ofModel (.pack (UnpackedFloat.mul Format.binary64 _ _)) = _
  rw [hfirst, hsecond, reads.mul double first.pos second.pos ?_ ?_]
  · rfl
  · rw [← hvalue₁, ← hvalue₂, zpow_add₀ two_ne_zero]
    ring
  · exact (show 2 ^ 53 ≤ 2 ^ 52 * 2 ^ 52 by decide).trans (Nat.mul_le_mul hfull₁ hfull₂)

/-- The model rounds a decimal that reads as a double to it. -/
theorem ReadsAs.ofScientific {n : Nat} {places : Int} (reads : ReadsAs m e (n * 10 ^ places))
    (double : IsDouble m e) (hlarge : places ≤ 2048) (hsmall : -2048 - (n.log2 : Int) ≤ places) :
    UnpackedFloat.ofScientific Format.binary64 n places = .finite .positive m e double.pos := by
  have hn := (reads.digits_pos double.pos).ne'
  unfold UnpackedFloat.ofScientific
  rw [dif_neg hn, if_neg (by show ¬ (2 : Int) ^ 11 < _; omega),
    if_neg (by show ¬ _ < -((2 : Int) ^ 11 + _); omega)]
  split
  · rename_i hplaces
    refine reads.mul double _ _ ?_ ?_
    · show (n : ℚ) * 10 ^ places =
        (n <<< 53 : Nat) * (10 ^ places.toNat : Nat) * 2 ^ (-53 + 0 : Int)
      rw [Nat.shiftLeft_eq]
      push_cast
      rw [← zpow_natCast, Int.toNat_of_nonneg hplaces]
      norm_num
      ring
    · show 2 ^ 53 ≤ n <<< 53 * 10 ^ places.toNat
      rw [Nat.shiftLeft_eq]
      have := Nat.pow_pos (n := places.toNat) (show 0 < 10 by decide)
      calc
        2 ^ 53 ≤ n * 2 ^ 53 := Nat.le_mul_of_pos_left _ (by omega)
        _ ≤ n * 2 ^ 53 * 10 ^ places.toNat := Nat.le_mul_of_pos_right _ this
  · rename_i hplaces
    refine reads.div double _ _ ?_
    have hpower : (10 : ℚ) ^ places = (((10 : Nat) ^ (-places).toNat : Nat) : ℚ)⁻¹ := by
      push_cast
      rw [← zpow_natCast, ← zpow_neg]
      congr 1
      omega
    rw [hpower, ← div_eq_mul_inv, sub_zero, zpow_zero, mul_one]

def shiftOf (after : Bool) (places : Nat) : Int := if after then -places else places

/-- **A decimal that reads as a double is read as it**, in the fast way and in the thorough one. -/
theorem ReadsAs.float_ofScientific {n places : Nat} {after : Bool}
    (reads : ReadsAs m e (n * 10 ^ shiftOf after places)) (double : IsDouble m e)
    (hlarge : shiftOf after places ≤ 2048)
    (hsmall : -2048 - (n.log2 : Int) ≤ shiftOf after places) :
    Float.ofScientific n after places = double.float false := by
  have hn := reads.digits_pos double.pos
  unfold Float.ofScientific
  split
  · rename_i hfast
    have hn' := isWhole_toFloat hn hfast.1
    have hpower := isWhole_powerOfTen (k := places) (by
      simp [Float.exactlyRepresentablePowersOfTen]; omega)
    cases after with
    | true =>
        rw [shiftOf, if_pos rfl, zpow_neg, zpow_natCast, ← div_eq_mul_inv] at reads
        exact ReadsAs.div_whole hn' hpower (by exact_mod_cast reads) double
    | false =>
        rw [shiftOf, if_neg Bool.false_ne_true, zpow_natCast] at reads
        exact ReadsAs.mul_whole hn' hpower (by exact_mod_cast reads) double
  · have hshift : (if after = true then Int.negOfNat places else Int.ofNat places) =
        shiftOf after places := by
      cases after with
      | true => exact Int.negOfNat_eq
      | false => rfl
    dsimp only
    rw [hshift]
    show Float.ofModel (.pack (UnpackedFloat.ofScientific Format.binary64 n _)) = _
    rw [reads.ofScientific double hlarge hsmall]
    rfl

end FeedIntake.Decimal
