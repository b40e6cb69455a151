/-
  PlotLisp.Proofs.Number.HalfEven
  ──────────────────────────────────────
  **ROUNDING A MANTISSA IS ROUNDING TO THE NEAREST NUMBER.**

  A mantissa is rounded by two bits, the one behind its last place and whether
  there is any other behind that:

    • `Represents em t` — the number that a mantissa and these bits stand for;
      a shift halves it (`Represents.shiftRight`), and the bits decide as the
      number does (`Represents.roundedMantissa`);
    • `Fits t e` — counted in units of `2 ^ e` the number has 53 bits, so a
      number of 53 bits next to it is a whole number of units;
    • `isRounded_roundWithAccuracy` — what is rounded there is the nearest
      number, if no bit was missing before.
-/
import PlotLisp.Proofs.Number.Decimals
import PlotLisp.Proofs.Number.Rounding

namespace PlotLisp.Binary64

open Float.Model Float.Model.UnpackedFloat Binary

/-! ## §1. What residual bits say. -/

/-- The number that a mantissa with its two residual bits stands for: exactly that and a half or
none, or less than half a unit more. -/
def Represents (em : ExtendedMantissa) (t : Rat) : Prop :=
  let least := (em.mantissa : Rat) + if em.roundBit then 1 / 2 else 0
  if em.stickyBit then least < t ∧ t < least + 1 / 2 else t = least

theorem represents_exact (m : Nat) :
    Represents (ExtendedMantissa.ofMantissaAndAccuracy m .exact) m := by
  simp [Represents, ExtendedMantissa.ofMantissaAndAccuracy]

/-- A quotient, and what its remainder says of it. -/
theorem represents_fraction (a : Nat) {b : Nat} (hb : 0 < b) :
    Represents (ExtendedMantissa.ofMantissaAndAccuracy (a / b) (accuracyOfFraction (a % b) b))
      ((a : Rat) / b) := by
  have hb' : (0 : Rat) < b := mod_cast hb
  have hsplit : (a : Rat) / b = (a / b : Nat) + ((a % b : Nat) : Rat) / b := by
    rw [eq_comm, ← mul_right_inj' hb'.ne', mul_add, mul_div_cancel₀ _ hb'.ne',
      mul_div_cancel₀ _ hb'.ne']
    exact mod_cast Nat.div_add_mod a b
  rw [hsplit]
  have hlt : ((a % b : Nat) : Rat) / b < 1 := by
    rw [div_lt_one hb']
    exact mod_cast Nat.mod_lt a hb
  unfold accuracyOfFraction
  -- the rest decides both bits, by which side of half the divisor it is on
  split_ifs with hzero
  · rw [hzero]
    simpa using represents_exact (a / b)
  · have hpos : 0 < ((a % b : Nat) : Rat) / b := div_pos (mod_cast Nat.pos_of_ne_zero hzero) hb'
    have hhalf : ((a % b : Nat) : Rat) / b < 1 / 2 ↔ 2 * (a % b) < b := by
      rw [div_lt_div_iff₀ hb' (by norm_num), one_mul, mul_comm]
      exact_mod_cast Iff.rfl
    have hhalf' : ((a % b : Nat) : Rat) / b = 1 / 2 ↔ 2 * (a % b) = b := by
      rw [div_eq_div_iff hb'.ne' (by norm_num), one_mul, mul_comm]
      exact_mod_cast Iff.rfl
    rcases lt_trichotomy (2 * (a % b)) b with hless | heq | hmore
    · rw [Nat.compare_eq_lt.mpr hless]
      have := hhalf.mpr hless
      simp only [Represents, ExtendedMantissa.ofMantissaAndAccuracy]
      constructor <;> norm_num <;> linarith
    · rw [Nat.compare_eq_eq.mpr heq, hhalf'.mpr heq]
      simp [Represents, ExtendedMantissa.ofMantissaAndAccuracy]
    · rw [Nat.compare_eq_gt.mpr hmore]
      have hnot := mt hhalf.mp (by omega)
      have hnot' := mt hhalf'.mp (by omega)
      have : 1 / 2 < ((a % b : Nat) : Rat) / b := lt_of_le_of_ne (not_lt.mp hnot) (Ne.symm hnot')
      simp only [Represents, ExtendedMantissa.ofMantissaAndAccuracy]
      constructor <;> norm_num <;> linarith

variable {em : ExtendedMantissa} {t : Rat}

/-- The residual bits are those of the half. -/
theorem Represents.shiftRightOne (h : Represents em t) : Represents em.shiftRightOne (t / 2) := by
  obtain ⟨m, roundBit, stickyBit⟩ := em
  have hhalf : (m : Rat) / 2 = (m / 2 : Nat) + if m % 2 != 0 then 1 / 2 else 0 := by
    have hdiv : (m : Rat) = 2 * (m / 2 : Nat) + (m % 2 : Nat) := mod_cast (Nat.div_add_mod m 2).symm
    rcases Nat.mod_two_eq_zero_or_one m with hm | hm <;> rw [hm] at hdiv ⊢ <;> norm_num <;>
      linarith
  -- the last bit goes behind the point, and what was there goes behind that
  unfold Represents ExtendedMantissa.shiftRightOne at *
  dsimp only at *
  rw [← hhalf]
  cases roundBit <;> cases stickyBit <;> simp at h ⊢ <;> grind

theorem Represents.shiftRight (h : Represents em t) (n : Nat) :
    Represents (em >>> n) (t / 2 ^ n) := by
  induction n with
  | zero => simpa [HShiftRight.hShiftRight, Nat.repeat] using h
  | succ n ih =>
    rw [pow_succ, ← div_div]
    exact ih.shiftRightOne

theorem Represents.mantissa_le (h : Represents em t) :
    (em.mantissa : Rat) ≤ t ∧ t < em.mantissa + 1 := by
  obtain ⟨m, roundBit, stickyBit⟩ := em
  cases roundBit <;> cases stickyBit <;> simp [Represents] at h ⊢ <;> constructor <;> linarith

/-- The bits decide as the number itself does. -/
theorem Represents.roundedMantissa (h : Represents em t) :
    (em.roundedMantissa : Int) = roundHalfEven t := by
  obtain ⟨hlow, hhigh⟩ := h.mantissa_le
  have hfloor : ⌊t⌋ = (em.mantissa : Int) :=
    Int.floor_eq_iff.mpr ⟨mod_cast hlow, mod_cast hhigh⟩
  obtain ⟨m, roundBit, stickyBit⟩ := em
  unfold roundHalfEven Represents ExtendedMantissa.roundedMantissa ExtendedMantissa.accuracy
    Accuracy.roundToNearestEven at *
  rw [show t.floor = ⌊t⌋ from rfl, hfloor]
  cases roundBit <;> cases stickyBit <;> simp at h ⊢ <;> grind

/-! ## §2. The place of the last bit. -/

/-- Counted in the place of the last bit, a number has 53 bits before the point, and fewer only if
the place is the least one. -/
structure Fits (t : Rat) (e : Int) : Prop where
  least : -1074 ≤ e
  nonneg : 0 ≤ t
  lt : t < 2 ^ 53
  leading : -1074 < e → 2 ^ 52 ≤ t

variable {m : Nat} {e : Int}

/-- A number of 53 bits is counted in the same place, or lies below the leading bit. -/
theorem Fits.units (h : Fits t e) {r : Rat} (hr : HasBits r) :
    (∃ n : Int, r = n * (2 : Rat) ^ e) ∨ ∃ c : Int, (c : Rat) ≤ t ∧ r < c * (2 : Rat) ^ e := by
  obtain ⟨m, e', hm, he', rfl⟩ := hr
  by_cases hplace : e ≤ e'
  · -- its last place is no lower, so it is a whole number of units
    left
    obtain ⟨d, rfl⟩ : ∃ d : Nat, e' = e + d := ⟨(e' - e).toNat, by omega⟩
    refine ⟨m * 2 ^ d, ?_⟩
    rw [magnitude, zpow_add₀ (by norm_num), zpow_natCast]
    push_cast
    ring
  · -- its last place is lower, and 53 bits from there do not reach the leading bit
    right
    refine ⟨2 ^ 52, mod_cast h.leading (by omega), ?_⟩
    have hm' : (m : Rat) < 2 ^ 53 := mod_cast hm
    calc (m : Rat) * 2 ^ e' < 2 ^ 53 * 2 ^ e' := by gcongr
      _ = (2 : Rat) ^ (((53 : Nat) : Int) + e') := two_pow_mul_zpow 53 e'
      _ ≤ (2 : Rat) ^ (((52 : Nat) : Int) + e) := zpow_le_zpow_right₀ (by norm_num) (by omega)
      _ = ((2 ^ 52 : Int) : Rat) * 2 ^ e := by
        rw [← two_pow_mul_zpow]
        push_cast
        rfl

/-- Rounding leaves 53 bits, or carries. -/
theorem Fits.rounded (h : Fits t e) (hm : (m : Int) = roundHalfEven t) :
    m ≤ 2 ^ 53 ∧ (-1074 < e → 2 ^ 52 ≤ m) := by
  have hhigh : t ≤ ((2 ^ 53 : Int) : Rat) := mod_cast h.lt.le
  constructor
  · have hnonneg : ((0 : Int) : Rat) ≤ t := mod_cast h.nonneg
    have := (roundHalfEven_between hnonneg hhigh).2
    omega
  · intro hnormal
    have hleading : ((2 ^ 52 : Int) : Rat) ≤ t := mod_cast h.leading hnormal
    have := (roundHalfEven_between hleading hhigh).1
    omega

/-- What rounding leaves is a mantissa. -/
theorem Fits.exists_rounded (h : Fits t e) : ∃ m : Nat, (m : Int) = roundHalfEven t := by
  have hnonneg : ((0 : Int) : Rat) ≤ t := mod_cast h.nonneg
  have hhigh : t ≤ ((2 ^ 53 : Int) : Rat) := mod_cast h.lt.le
  have := (roundHalfEven_between hnonneg hhigh).1
  exact ⟨(roundHalfEven t).toNat, by omega⟩

/-- What rounding leaves is made a mantissa by a shift by the bit it carried, if it did. -/
theorem canonical_shift {k : Nat} (hleast : -1074 ≤ e) (hm : m ≤ 2 ^ 53)
    (hleading : -1074 < e → 2 ^ 52 ≤ m)
    (hk : (k : Int) = max (max (totalExponent m e - 53) (-1074) - e) 0) :
    Canonical (m / 2 ^ k) (e + k) ∧ magnitude (m / 2 ^ k) (e + k) = magnitude m e := by
  by_cases hcarry : m < 2 ^ 53
  · have hlog : m.log2 ≤ 52 := log2_le_of_lt hcarry
    obtain rfl : k = 0 := by
      unfold totalExponent at hk
      omega
    have hsame : m / 2 ^ 0 = m ∧ e + (0 : Nat) = e := by simp
    rw [hsame.1, hsame.2]
    exact ⟨⟨hleast, hcarry, hleading⟩, rfl⟩
  · -- only a one with zeros behind it is left of a carry
    obtain rfl : m = 2 ^ 53 := by omega
    have hlog : (2 ^ 53 : Nat).log2 = 53 := Nat.log2_two_pow
    obtain rfl : k = 1 := by
      unfold totalExponent at hk
      omega
    refine ⟨⟨by omega, by norm_num, fun _ => by norm_num⟩, ?_⟩
    rw [magnitude, magnitude, Nat.cast_one, zpow_add_one₀ (by norm_num)]
    norm_num
    ring

/-- Rounding in the place of the last bit is to the nearest number. -/
theorem Fits.isNearestBits (h : Fits t e) (hm : (m : Int) = roundHalfEven t) :
    IsNearestBits (t * 2 ^ e) (magnitude m e) := by
  have hpow : (0 : Rat) < 2 ^ e := by positivity
  have hvalue : magnitude m e = roundHalfEven t * 2 ^ e := by
    rw [← hm]
    rfl
  obtain ⟨hlt, hleading⟩ := h.rounded hm
  refine ⟨?_, fun r hr => ?_, fun r hr hne htie => ?_⟩
  · -- after a carry the mantissa has a bit too many, which is zero
    obtain ⟨k, hk⟩ : ∃ k : Nat, (k : Int) = max (max (totalExponent m e - 53) (-1074) - e) 0 :=
      ⟨_, Int.toNat_of_nonneg (le_max_right ..)⟩
    obtain ⟨hcanonical, hsame⟩ := canonical_shift h.least hlt hleading hk
    exact hsame ▸ hcanonical.hasBits
  · rw [hvalue]
    exact (roundHalfEven_units hpow (h.units hr)).1
  · rw [hvalue] at hne htie
    obtain ⟨heven, hgap⟩ := (roundHalfEven_units hpow (h.units hr)).2 hne htie
    exact ⟨m, e, by rw [← hm] at heven; exact_mod_cast heven, rfl, by rw [hvalue, hgap]⟩

/-- Shifted to the place that the magnitude asks for, a number fits. -/
theorem fits_shifted {k : Nat} (hlow : (m : Rat) ≤ t) (hhigh : t < m + 1)
    (hbits : 52 ≤ m.log2 ∨ e ≤ -1074)
    (hk : (k : Int) = max (max (totalExponent m e - 53) (-1074) - e) 0) :
    Fits (t / 2 ^ k) (e + k) := by
  unfold totalExponent at hk
  refine ⟨by omega, div_nonneg ((Nat.cast_nonneg m).trans hlow) (by positivity), ?_,
    fun hnormal => ?_⟩
  · have hlog : m < 2 ^ (m.log2 + 1) := Nat.lt_log2_self
    rw [div_lt_iff₀ (by positivity), ← pow_add]
    calc t < (m : Rat) + 1 := hhigh
      _ ≤ 2 ^ (m.log2 + 1) := mod_cast hlog
      _ ≤ 2 ^ (53 + k) := pow_le_pow_right₀ (by norm_num) (by omega)
  · have hm : m ≠ 0 := by
      rintro rfl
      simp at hk hbits
      omega
    rw [le_div_iff₀ (by positivity), ← pow_add]
    calc (2 : Rat) ^ (52 + k) = 2 ^ m.log2 := by
          congr 1
          omega
      _ ≤ m := mod_cast Nat.log2_self_le hm
      _ ≤ t := hlow

/-! ## §3. Rounding. -/

/-- An unpacked number is what `v` is rounded to, as if exponents had no upper end. -/
def IsRounded (sign : Sign) (v : Rat) (f : UnpackedFloat) : Prop :=
  ∃ m e, f = ofMantissa sign m e ∧ Canonical m e ∧ IsNearestBits v (magnitude m e)

/-- **ROUNDING GIVES THE NEAREST NUMBER**, if the mantissa has 53 bits or its last place is no
higher than the least one of doubles. -/
theorem isRounded_roundWithAccuracy {accuracy : Accuracy}
    (h : Represents (ExtendedMantissa.ofMantissaAndAccuracy m accuracy) t)
    (hbits : 52 ≤ m.log2 ∨ e ≤ -1074) (sign : Sign) :
    IsRounded sign (t * 2 ^ e) (roundWithAccuracy format sign m e accuracy) := by
  -- a shift to the place of the last bit, the rounding, and a shift after a carry
  obtain ⟨em, k₁, k₂, rfl, hk₁, hk₂, heq⟩ := roundWithAccuracy_shifts sign m e accuracy
  obtain ⟨hlow, hhigh⟩ := h.mantissa_le
  rw [mantissa_ofMantissaAndAccuracy] at hlow hhigh
  have hvalue : t * 2 ^ e = t / 2 ^ k₁ * (2 : Rat) ^ (e + k₁) := by
    rw [zpow_add₀ (by norm_num), zpow_natCast]
    field_simp
  have hfits := fits_shifted hlow hhigh hbits hk₁
  have hround := (h.shiftRight k₁).roundedMantissa
  obtain ⟨hlt, hleading⟩ := hfits.rounded hround
  obtain ⟨hcanonical, hsame⟩ := canonical_shift hfits.least hlt hleading hk₂
  exact ⟨_, _, heq, hcanonical, hvalue ▸ hsame ▸ hfits.isNearestBits hround⟩

end PlotLisp.Binary64
