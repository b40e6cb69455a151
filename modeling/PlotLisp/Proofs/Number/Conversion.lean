/-
  PlotLisp.Proofs.Number.Conversion
  ──────────────────────────────────────
  **DECIMALS ARE READ AS THE NEAREST DOUBLE.**

  A decimal is converted by one rounding of an exact product or quotient
  (`isRounded_mul`, `isRounded_div`):

    • small numbers are exact doubles, and so are the small powers of ten
      (`exists_toFloat`, `exists_exactPower`);
    • other numbers are multiplied or divided as they are
      (`isRounded_ofScientific`);
    • decimals beyond every double are not computed, and come out the same
      (`isNearestDouble_zero`, `isNearestDouble_infinity`).

  What was rounded is packed as the nearest double, an infinity included
  (`IsRounded.isNearestDouble`), and a sign in front changes nothing but the
  sign (`isNearestDouble_signed`).
-/
import PlotLisp.Proofs.Number.Finite
import PlotLisp.Proofs.Number.HalfEven

namespace PlotLisp

open Float.Model Float.Model.UnpackedFloat Binary64
open Binary (Canonical magnitude)

/-- The opposite number. -/
def Binary.neg : Binary → Binary
  | .nan => .nan
  | .infinite negative => .infinite (!negative)
  | .finite negative m e => .finite (!negative) m e

namespace Binary64

variable {m m₁ m₂ k : Nat} {e e₁ e₂ : Int} {sign : Sign} {v : Rat} {f : UnpackedFloat} {x : Float}

/-! ## §1. Packing what was rounded. -/

/-- **WHAT IS ROUNDED IS PACKED AS THE NEAREST DOUBLE.** -/
theorem IsRounded.isNearestDouble (h : IsRounded sign v f) (hx : unpacked x = packed f) :
    IsNearestDouble (isNegative sign) v x := by
  obtain ⟨m, e, rfl, hcanonical, hnearest⟩ := h
  by_cases he : e ≤ 971
  · refine .finite ?_ hnearest
    rw [ofFloat_eq, hx, packed_canonical hcanonical he, denoted_ofMantissa hcanonical]
  · -- a number of 53 bits that no double denotes: all bits are lost
    have hm : m ≠ 0 := by
      have := hcanonical.leading
      omega
    refine .overflow ?_ hnearest (not_lt.mp (mt hcanonical.magnitude_lt_iff.mp he))
    rw [ofFloat_eq, hx, packed_overflow sign hm (by omega)]
    rfl

/-- The double that denotes a finite number unpacks to its mantissa and exponent. -/
theorem unpacked_of_ofFloat (h : Binary.ofFloat x = .finite (isNegative sign) m e) :
    unpacked x = ofMantissa sign m e := by
  rw [ofFloat_eq] at h
  have hdouble := isDouble_unpacked x
  generalize unpacked x = f at h hdouble
  cases hdouble with
  | undefined => cases h
  | infinity => cases h
  | finite sign' hm he =>
    rw [denoted_ofMantissa hm] at h
    injection h with hsign hm he
    subst hm he
    cases sign <;> cases sign' <;> first | rfl | cases hsign

/-- Negation changes the sign and nothing else. -/
theorem ofFloat_neg (x : Float) : Binary.ofFloat (-x) = (Binary.ofFloat x).neg := by
  have hneg (sign : Sign) : isNegative (-sign) = !isNegative sign := by cases sign <;> rfl
  rw [ofFloat_eq, ofFloat_eq, unpacked_neg, (isDouble_unpacked x).neg.packed_eq]
  cases unpacked x <;> simp [UnpackedFloat.neg, Binary.neg, denoted, hneg]

/-- The opposite of the nearest double is nearest to the opposite. -/
theorem isNearestDouble_neg {negative : Bool} (h : IsNearestDouble negative v x) :
    IsNearestDouble (!negative) v (-x) := by
  cases h with
  | finite hx hnearest => exact .finite (by rw [ofFloat_neg, hx, Binary.neg]) hnearest
  | overflow hx hnearest hlarge =>
    exact .overflow (by rw [ofFloat_neg, hx, Binary.neg]) hnearest hlarge

/-- A mantissa is moved up by as many places as the exponent is lowered. -/
theorem magnitude_shiftLeft (m k : Nat) (e : Int) :
    magnitude (m <<< k) (e - k) = magnitude m e := by
  unfold magnitude
  rw [Nat.shiftLeft_eq, zpow_sub₀ (by norm_num), zpow_natCast]
  push_cast
  field_simp

/-- The leading bit of a number of 53 bits is moved up as far as doubles have it. -/
theorem exists_canonical {r : Rat} (h : HasBits r) : ∃ m e, Canonical m e ∧ r = magnitude m e := by
  obtain ⟨m, e, hm, he, rfl⟩ := h
  by_cases hzero : m = 0
  · exact ⟨0, -1074, ⟨le_rfl, by norm_num, fun h => absurd h (lt_irrefl _)⟩,
      by simp [hzero, magnitude]⟩
  · obtain ⟨k, hk⟩ : ∃ k, k = min (52 - m.log2) (e + 1074).toNat := ⟨_, rfl⟩
    have hlog : m.log2 ≤ 52 := log2_le_of_lt hm
    have hshift : (m <<< k).log2 = m.log2 + k := log2_shiftLeft hzero k
    have hne : m <<< k ≠ 0 := by
      rw [Nat.shiftLeft_eq]
      positivity
    refine ⟨m <<< k, e - k, ⟨by omega, ?_, fun hnormal => ?_⟩, (magnitude_shiftLeft m k e).symm⟩
    · exact (Nat.log2_lt hne).mp (by omega)
    · exact (Nat.le_log2 hne).mp (by omega)

/-- **BELOW `2 ^ 1024`, THE NUMBERS OF 53 BITS ARE THE DOUBLES.** -/
theorem hasBits_iff {r : Rat} (hr : r < (2 : Rat) ^ (1024 : Int)) :
    HasBits r ↔ ∃ x m e, Binary.ofFloat x = .finite false m e ∧ r = magnitude m e := by
  constructor
  · intro h
    obtain ⟨m, e, hcanonical, rfl⟩ := exists_canonical h
    have he := hcanonical.magnitude_lt_iff.mp hr
    refine ⟨.ofModel (.pack (ofMantissa .positive m e)), m, e, ?_, rfl⟩
    rw [ofFloat_eq]
    exact (congrArg denoted (packed_canonical hcanonical he .positive)).trans
      (denoted_ofMantissa hcanonical .positive)
  · rintro ⟨x, m, e, hx, rfl⟩
    exact (Binary.canonical_of_ofFloat hx).1.hasBits

/-! ## §2. Products and quotients. -/

/-- A product is rounded to the nearest number, if one of the factors has 53 bits. -/
theorem isRounded_mul (h₁ : 2 ^ 52 ≤ m₁) (h₂ : 0 < m₂) (s₁ s₂ : Sign) (e₁ e₂ : Int) :
    IsRounded (s₁ * s₂) (magnitude m₁ e₁ * magnitude m₂ e₂)
      (UnpackedFloat.mul format (ofMantissa s₁ m₁ e₁) (ofMantissa s₂ m₂ e₂)) := by
  have hbits : 52 ≤ (m₁ * m₂).log2 :=
    (Nat.le_log2 (by positivity)).mpr (h₁.trans (Nat.le_mul_of_pos_right m₁ h₂))
  have hvalue : magnitude m₁ e₁ * magnitude m₂ e₂ = (m₁ * m₂ : Nat) * (2 : Rat) ^ (e₁ + e₂) := by
    unfold magnitude
    rw [zpow_add₀ (by norm_num)]
    push_cast
    ring
  rw [mul_ofMantissa_pos s₁ s₂ (by omega) h₂, hvalue]
  exact isRounded_roundWithAccuracy (represents_exact _) (.inl hbits) _

/-- A quotient is computed to 53 bits or to the least place. -/
theorem log2_quotient (h₁ : 0 < m₁) (h₂ : 0 < m₂)
    (hk : (k : Int) = e₁ - e₂ - min (e₁ - e₂)
      (max (totalExponent m₁ e₁ - totalExponent m₂ e₂ - 53) (-1074))) :
    52 ≤ (m₁ <<< k / m₂).log2 ∨ e₁ - e₂ - k ≤ -1074 := by
  by_cases hleast : e₁ - e₂ - k ≤ -1074
  · exact .inr hleast
  · left
    unfold totalExponent at hk
    have hm₁ := Nat.log2_self_le h₁.ne'
    have hm₂ : m₂ < 2 ^ (m₂.log2 + 1) := Nat.lt_log2_self
    have hquotient : 2 ^ 52 ≤ m₁ <<< k / m₂ := by
      rw [Nat.le_div_iff_mul_le h₂, Nat.shiftLeft_eq]
      calc 2 ^ 52 * m₂ ≤ 2 ^ 52 * 2 ^ (m₂.log2 + 1) := Nat.mul_le_mul_left _ hm₂.le
        _ = 2 ^ (52 + (m₂.log2 + 1)) := (Nat.pow_add ..).symm
        _ ≤ 2 ^ (m₁.log2 + k) := Nat.pow_le_pow_right (by norm_num) (by omega)
        _ = 2 ^ m₁.log2 * 2 ^ k := Nat.pow_add ..
        _ ≤ m₁ * 2 ^ k := Nat.mul_le_mul_right _ hm₁
    exact (Nat.le_log2 (by omega)).mpr hquotient

/-- A quotient is rounded to the nearest number. -/
theorem isRounded_div (h₁ : 0 < m₁) (h₂ : 0 < m₂) (s₁ s₂ : Sign) (e₁ e₂ : Int) :
    IsRounded (s₁ / s₂) (magnitude m₁ e₁ / magnitude m₂ e₂)
      (UnpackedFloat.div format (ofMantissa s₁ m₁ e₁) (ofMantissa s₂ m₂ e₂)) := by
  obtain ⟨k, hk, hdiv⟩ := div_ofMantissa_pos s₁ s₂ h₁ h₂ e₁ e₂
  have hvalue : magnitude m₁ e₁ / magnitude m₂ e₂
      = ((m₁ <<< k : Nat) : Rat) / m₂ * 2 ^ (e₁ - e₂ - k) := by
    unfold magnitude
    rw [Nat.shiftLeft_eq, zpow_sub₀ (by norm_num), zpow_sub₀ (by norm_num), zpow_natCast]
    push_cast
    field_simp
  rw [hdiv, hvalue]
  exact isRounded_roundWithAccuracy (represents_fraction _ h₂) (log2_quotient h₁ h₂ hk) _

/-! ## §3. Whole numbers and powers of ten. -/

@[simp] theorem magnitude_zero (m : Nat) : magnitude m 0 = m := by
  simp [magnitude]

/-- The tabulated powers of ten, each with the 53 bits of its power of five. -/
theorem ofFloat_exactPower : ∀ k (hk : k < Float.exactlyRepresentablePowersOfTen.size),
    Binary.ofFloat Float.exactlyRepresentablePowersOfTen[k]
      = .finite false (5 ^ k <<< (52 - (5 ^ k).log2)) (k - (52 - (5 ^ k).log2 : Nat)) := by
  decide +kernel

/-- A tabulated power of ten is exact. -/
theorem exists_exactPower (hk : k < Float.exactlyRepresentablePowersOfTen.size) :
    ∃ m e, unpacked Float.exactlyRepresentablePowersOfTen[k] = ofMantissa .positive m e
      ∧ 0 < m ∧ magnitude m e = (10 : Rat) ^ k := by
  refine ⟨_, _, unpacked_of_ofFloat (ofFloat_exactPower k hk), ?_, ?_⟩
  · rw [Nat.shiftLeft_eq]
    positivity
  · rw [magnitude_shiftLeft, magnitude, zpow_natCast]
    push_cast
    rw [← mul_pow]
    norm_num

/-- A whole number of up to 53 bits is converted exactly. -/
theorem exists_toFloat {n : Nat} (hpos : 0 < n) (hn : n < 2 ^ 53) :
    ∃ m e, unpacked n.toUInt64.toFloat = ofMantissa .positive m e ∧ 2 ^ 52 ≤ m
      ∧ magnitude m e = n := by
  have hlog := log2_aligned hpos hn
  refine ⟨_, _, unpacked_toFloat hpos hn, ?_, ?_⟩
  · exact (Nat.le_log2 (pos_of_log2 hlog).ne').mp hlog.ge
  · rw [← zero_sub, magnitude_shiftLeft, magnitude_zero]

/-! ## §4. Whole numbers times powers of ten. -/

variable {n : Nat} {exponent : Int}

/-- With small numbers, one operation on exact doubles. -/
theorem isNearestDouble_fast (hpos : 0 < n) (hn : n < 2 ^ 53) (hk : k < 23) (negative : Bool) :
    IsNearestDouble false (n * (10 : Rat) ^ (if negative then -(k : Int) else k))
      (Float.ofScientific n negative k) := by
  obtain ⟨m₁, e₁, hx, h₁, hvalue⟩ := exists_toFloat hpos hn
  obtain ⟨m₂, e₂, hy, h₂, hpower⟩ := exists_exactPower hk
  unfold Float.ofScientific
  rw [dif_pos ⟨hn, by omega⟩]
  cases negative with
  | false =>
    have hrounded := isRounded_mul h₁ h₂ .positive .positive e₁ e₂
    rw [hvalue, hpower, ← zpow_natCast] at hrounded
    exact hrounded.isNearestDouble (by rw [← hx, ← hy]; rfl)
  | true =>
    have hrounded := isRounded_div (show 0 < m₁ by omega) h₂ .positive .positive e₁ e₂
    rw [hvalue, hpower, div_eq_mul_inv, ← zpow_natCast, ← zpow_neg] at hrounded
    exact hrounded.isNearestDouble (by rw [← hx, ← hy]; rfl)

/-- A power of ten below one divides. -/
theorem ofScientific_neg (hn : n ≠ 0) (hpos : 0 < k) (hk : k ≤ 2048 + n.log2) :
    UnpackedFloat.ofScientific format n (-k)
      = UnpackedFloat.div format (ofMantissa .positive n 0) (ofMantissa .positive (10 ^ k) 0) := by
  have hsmall : ¬ -(k : Int) > 2 ^ format.exponentBits := by
    show ¬ -(k : Int) > 2048
    omega
  have hbig : ¬ -(k : Int) < -((2 ^ format.exponentBits : Int) + n.log2) := by
    show ¬ -(k : Int) < -((2048 : Int) + n.log2)
    omega
  unfold UnpackedFloat.ofScientific
  rw [dif_neg hn, if_neg hsmall, if_neg hbig, if_neg (by omega),
    ofMantissa_pos .positive (Nat.pos_of_ne_zero hn), ofMantissa_pos .positive (by positivity)]
  simp only [neg_neg, Int.toNat_natCast]

/-- In general, one operation on exact numbers. -/
theorem isRounded_ofScientific (hn : n ≠ 0) (hlow : -(2048 + n.log2 : Int) ≤ exponent)
    (hhigh : exponent ≤ 2048) :
    IsRounded .positive (n * (10 : Rat) ^ exponent)
      (UnpackedFloat.ofScientific format n exponent) := by
  by_cases hfraction : exponent < 0
  · obtain ⟨k, rfl⟩ : ∃ k : Nat, exponent = -k := ⟨exponent.natAbs, by omega⟩
    have hrounded := isRounded_div (Nat.pos_of_ne_zero hn) (show 0 < 10 ^ k by positivity)
      .positive .positive 0 0
    rw [ofScientific_neg hn (by omega) (by omega)]
    rw [magnitude_zero, magnitude_zero] at hrounded
    push_cast at hrounded
    rw [zpow_neg, zpow_natCast, ← div_eq_mul_inv]
    exact hrounded
  · obtain ⟨k, rfl⟩ : ∃ k : Nat, exponent = k := ⟨exponent.natAbs, by omega⟩
    -- the product is taken with 53 more bits, so that none is missing from its mantissa
    have hbits : 2 ^ 52 ≤ n <<< 53 := by
      rw [Nat.shiftLeft_eq]
      omega
    have hrounded := isRounded_mul hbits (show 0 < 10 ^ k by positivity) .positive .positive (-53) 0
    have hvalue : magnitude (n <<< 53) (-53) = n := by
      rw [← magnitude_zero n]
      exact magnitude_shiftLeft n 53 0
    rw [ofScientific_nonneg hn (by omega)]
    rw [hvalue, magnitude_zero] at hrounded
    push_cast at hrounded
    rw [zpow_natCast]
    exact hrounded

/-- **A WHOLE NUMBER TIMES A POWER OF TEN IS READ AS THE NEAREST DOUBLE.** -/
theorem isNearestDouble_ofScientific (hn : n ≠ 0) (hlow : -(2048 + n.log2 : Int) ≤ exponent)
    (hhigh : exponent ≤ 2048) :
    IsNearestDouble false (n * (10 : Rat) ^ exponent)
      (Float.ofScientific n (exponent < 0) exponent.natAbs) := by
  have hexponent : exponent = if decide (exponent < 0) then -(exponent.natAbs : Int)
      else exponent.natAbs := by
    split_ifs with h <;> simp at h <;> omega
  by_cases hfast : n < 2 ^ 53 ∧ exponent.natAbs ≤ 22
  · have hfast := isNearestDouble_fast (Nat.pos_of_ne_zero hn) hfast.1
      (show exponent.natAbs < 23 by omega) (exponent < 0)
    rwa [← hexponent] at hfast
  · have hrounded := isRounded_ofScientific hn hlow hhigh
    refine hrounded.isNearestDouble ?_
    rw [unpacked_ofScientific hfast, ← hexponent]

/-! ## §5. Numbers beyond doubles. -/

/-- Less than half the least place is nearest to nothing. -/
theorem isNearestDouble_zero (hnonneg : 0 ≤ v) (hv : v < (2 : Rat) ^ (-1075 : Int)) :
    IsNearestDouble false v 0.0 := by
  have hzero : Binary.ofFloat 0.0 = .finite false 0 (-1074) := by decide +kernel
  have hhalf : v * (2 : Rat) ^ (1074 : Int) < 1 / 2 := by
    calc v * (2 : Rat) ^ (1074 : Int) < (2 : Rat) ^ (-1075 : Int) * (2 : Rat) ^ (1074 : Int) := by
          gcongr
      _ = 1 / 2 := by
          rw [← zpow_add₀ (by norm_num)]
          norm_num
  have hpos : 0 ≤ v * (2 : Rat) ^ (1074 : Int) := mul_nonneg hnonneg (zpow_nonneg (by norm_num) _)
  have hfits : Fits (v * (2 : Rat) ^ (1074 : Int)) (-1074) :=
    ⟨le_rfl, hpos, hhalf.trans (by norm_num), fun h => absurd h (lt_irrefl _)⟩
  have hround : ((0 : Nat) : Int) = roundHalfEven (v * (2 : Rat) ^ (1074 : Int)) := by
    refine (roundHalfEven_eq ?_).symm
    rwa [Nat.cast_zero, Int.cast_zero, sub_zero, abs_of_nonneg hpos]
  have hnearest := hfits.isNearestBits hround
  rw [mul_assoc, ← zpow_add₀ (by norm_num), Int.add_right_neg, zpow_zero, mul_one] at hnearest
  exact .finite hzero hnearest

/-- Every number has a place of its last bit. -/
theorem exists_fits (hv : 0 < v) : ∃ t e, Fits t e ∧ v = t * (2 : Rat) ^ e := by
  have hlow : (2 : Rat) ^ Int.log 2 v ≤ v := mod_cast Int.zpow_log_le_self (by norm_num) hv
  have hhigh : v < (2 : Rat) ^ (Int.log 2 v + 1) :=
    mod_cast Int.lt_zpow_succ_log_self (by norm_num) v
  obtain ⟨e, he⟩ : ∃ e, e = max (Int.log 2 v - 52) (-1074) := ⟨_, rfl⟩
  have hpow : (0 : Rat) < 2 ^ e := by positivity
  refine ⟨v / 2 ^ e, e, ⟨by omega, by positivity, ?_, fun hnormal => ?_⟩,
    (div_mul_cancel₀ v hpow.ne').symm⟩
  · rw [div_lt_iff₀ hpow, Binary.two_pow_mul_zpow]
    exact hhigh.trans_le (zpow_le_zpow_right₀ (by norm_num) (by omega))
  · rw [le_div_iff₀ hpow, Binary.two_pow_mul_zpow]
    exact le_trans (zpow_le_zpow_right₀ (by norm_num) (by omega)) hlow

/-- What reaches `2 ^ 1024` is nearest to an infinity. -/
theorem isNearestDouble_infinity (hv : (2 : Rat) ^ (1024 : Int) ≤ v) :
    IsNearestDouble false v (1.0 / 0.0) := by
  have hinfinite : Binary.ofFloat (1.0 / 0.0) = .infinite false := by decide +kernel
  obtain ⟨t, e, hfits, rfl⟩ := exists_fits (lt_of_lt_of_le (by positivity) hv)
  obtain ⟨m, hm⟩ := hfits.exists_rounded
  -- the place of its last bit is beyond those of doubles
  have he : 971 < e := by
    have hlt : (2 : Rat) ^ (1024 : Int) < (2 : Rat) ^ (((53 : Nat) : Int) + e) := by
      rw [← Binary.two_pow_mul_zpow]
      exact hv.trans_lt (mul_lt_mul_of_pos_right hfits.lt (by positivity))
    have := (zpow_lt_zpow_iff_right₀ (by norm_num)).mp hlt
    omega
  refine .overflow hinfinite (hfits.isNearestBits hm) ?_
  have hleading : (2 : Rat) ^ 52 ≤ m := mod_cast (hfits.rounded hm).2 (by omega)
  calc (2 : Rat) ^ (1024 : Int) ≤ (2 : Rat) ^ (((52 : Nat) : Int) + e) :=
        zpow_le_zpow_right₀ (by norm_num) (by omega)
    _ = 2 ^ 52 * (2 : Rat) ^ e := (Binary.two_pow_mul_zpow 52 e).symm
    _ ≤ magnitude m e := by
      unfold magnitude
      gcongr

end Binary64

/-! ## §6. Decimals. -/

/-- A whole number has no more digits than bits. -/
theorem digitCount_le_log2 {n : Nat} (hn : 0 < n) : digitCount n ≤ n.log2 + 1 := by
  obtain ⟨hlow, -⟩ := pow_digitCount_le hn
  have hlt : 2 ^ (digitCount n - 1) < 2 ^ (n.log2 + 1) :=
    calc 2 ^ (digitCount n - 1) ≤ 10 ^ (digitCount n - 1) := Nat.pow_le_pow_left (by norm_num) _
      _ ≤ n := hlow
      _ < 2 ^ (n.log2 + 1) := Nat.lt_log2_self
  have := (Nat.pow_lt_pow_iff_right (by norm_num)).mp hlt
  omega

/-- The order of a decimal. -/
theorem decimal_bounds {n : Nat} (hn : 0 < n) (exponent : Int) :
    (10 : Rat) ^ ((digitCount n : Int) - 1 + exponent) ≤ n * (10 : Rat) ^ exponent
      ∧ n * (10 : Rat) ^ exponent < (10 : Rat) ^ ((digitCount n : Int) + exponent) := by
  obtain ⟨hlow, hhigh⟩ := pow_digitCount_le hn
  have hpos := digitCount_pos n
  have hcount : (digitCount n : Int) - 1 = ((digitCount n - 1 : Nat) : Int) := by omega
  rw [hcount, zpow_add₀ (by norm_num), zpow_add₀ (by norm_num), zpow_natCast, zpow_natCast]
  have hlow' : (10 : Rat) ^ (digitCount n - 1) ≤ n := mod_cast hlow
  have hhigh' : (n : Rat) < 10 ^ digitCount n := mod_cast hhigh
  constructor <;> gcongr

theorem two_pow_le_ten_pow {a b : Nat} (h : 2 ^ a ≤ 10 ^ b) :
    (2 : Rat) ^ (a : Int) ≤ (10 : Rat) ^ (b : Int) := by
  rw [zpow_natCast, zpow_natCast]
  exact mod_cast h

/-- **A DECIMAL IS READ AS THE NEAREST DOUBLE**, however large or small it is. -/
theorem isNearestDouble_nearestDouble (n : Nat) (exponent : Int) :
    IsNearestDouble false (n * (10 : Rat) ^ exponent) (nearestDouble n exponent) := by
  rcases Nat.eq_zero_or_pos n with rfl | hn
  · simpa [nearestDouble] using isNearestDouble_zero le_rfl (by positivity)
  · obtain ⟨hlow, hhigh⟩ := decimal_bounds hn exponent
    unfold nearestDouble
    dsimp only
    split_ifs with hsmall hlarge
    · -- from its order alone, the decimal is less than half the least place
      simp only [Bool.or_eq_true, decide_eq_true_eq] at hsmall
      refine isNearestDouble_zero (by positivity) (hhigh.trans_le ?_)
      calc (10 : Rat) ^ ((digitCount n : Int) + exponent) ≤ (10 : Rat) ^ (-331 : Int) :=
            zpow_le_zpow_right₀ (by norm_num) (by omega)
        _ ≤ (2 : Rat) ^ (-1075 : Int) := by
            rw [zpow_neg, zpow_neg]
            exact inv_anti₀ (by positivity) (two_pow_le_ten_pow (by decide +kernel))
    · -- from its order alone, it is beyond `2 ^ 1024`
      refine isNearestDouble_infinity (le_trans ?_ hlow)
      calc (2 : Rat) ^ (1024 : Int) ≤ (10 : Rat) ^ (310 : Int) :=
            two_pow_le_ten_pow (by decide +kernel)
        _ ≤ (10 : Rat) ^ ((digitCount n : Int) - 1 + exponent) :=
            zpow_le_zpow_right₀ (by norm_num) (by omega)
    · -- its exponent is small enough to be computed with
      simp only [Bool.or_eq_true, decide_eq_true_eq] at hsmall
      have := digitCount_le_log2 hn
      exact isNearestDouble_ofScientific hn.ne' (by omega) (by omega)

/-- The sign in front is the sign of the double, also where that is a zero. -/
theorem isNearestDouble_signed (negative : Bool) (n : Nat) (exponent : Int) :
    IsNearestDouble negative (n * (10 : Rat) ^ exponent)
      (signed negative (nearestDouble n exponent)) := by
  have hnearest := isNearestDouble_nearestDouble n exponent
  cases negative with
  | false => exact hnearest
  | true => exact isNearestDouble_neg hnearest

end PlotLisp
