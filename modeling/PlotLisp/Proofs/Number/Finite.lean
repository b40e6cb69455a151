/-
  PlotLisp.Proofs.Number.Finite
  ──────────────────────────────────────
  **FINITE DOUBLES ARE WRITTEN AND READ.**

  A numeral is written for a double exactly if it is finite
  (`Numeral.ofFloat?_eq_none_iff`), and every double that a numeral is read as is
  finite (`Numeral.isFinite_of_toFloat?`).

  For the second, a significand of 64 bits is finite; a product is refused if it
  is infinite, and finite doubles have no NaN for a product; a quotient by a
  power of ten other than one is at most half the dividend, so it stays where
  rounding cannot overflow.
-/
import PlotLisp.Json.Numeral
import PlotLisp.Proofs.Number.Rounding

namespace PlotLisp

open Float.Model Float.Model.UnpackedFloat Binary64

namespace Binary64

/-! ## §1. Doubles by their mantissa and exponent. -/

/-- What the double unpacks to. -/
def unpacked (x : Float) : UnpackedFloat := x.toModel.unpack

theorem isFinite_eq (x : Float) : x.isFinite = (unpacked x).isFinite := rfl

theorem isInf_eq (x : Float) : x.isInf = (unpacked x).isInf := rfl

theorem isDouble_unpacked (x : Float) : IsDouble (unpacked x) := isDouble_unpack _

/-- The mantissa and exponent of a finite double. -/
theorem unpacked_of_isFinite {x : Float} (h : x.isFinite = true) :
    ∃ sign m e, unpacked x = ofMantissa sign m e ∧ m < 2 ^ 53 ∧ e ≤ 971 :=
  unpack_of_isFinite h

theorem unpacked_mul (x y : Float) :
    unpacked (x * y) = packed (UnpackedFloat.mul format (unpacked x) (unpacked y)) := rfl

theorem unpacked_div (x y : Float) :
    unpacked (x / y) = packed (UnpackedFloat.div format (unpacked x) (unpacked y)) := rfl

theorem unpacked_neg (x : Float) : unpacked (-x) = packed (unpacked x).neg := rfl

variable {m : Nat} {e : Int}

/-- Is the sign a minus? -/
def isNegative : Sign → Bool
  | .negative => true
  | .positive => false

/-- What an unpacked double denotes. -/
def denoted : UnpackedFloat → Binary
  | .notANumber => .nan
  | .infinity sign => .infinite (isNegative sign)
  | .zero sign => .finite (isNegative sign) 0 Binary.leastExponent
  | .finite sign m e _ => .finite (isNegative sign) m e

/-- A zero denotes one as well, at the least exponent. -/
theorem denoted_ofMantissa (h : Binary.Canonical m e) (sign : Sign) :
    denoted (ofMantissa sign m e) = .finite (isNegative sign) m e := by
  rcases Nat.eq_zero_or_pos m with rfl | hm
  · obtain rfl : e = -1074 := by
      have := h.least
      have := h.leading
      omega
    rfl
  · rw [ofMantissa_pos sign hm]
    rfl

theorem toNat_unpackExponent (b : BitVec format.numBits) :
    (unpackExponent b).toNat = b.toNat / 2 ^ 52 % 2 ^ 11 := by
  simp [unpackExponent, Nat.shiftRight_eq_div_pow]

theorem toNat_unpackMantissa (b : BitVec format.numBits) :
    (unpackMantissa b).toNat = b.toNat % 2 ^ 52 := by
  simp [unpackMantissa]

/-- The sign is the first of 64 bits. -/
theorem isNegative_unpackSign (b : BitVec format.numBits) :
    isNegative (Sign.ofBitVec (unpackSign b)) = (b.toNat / 2 ^ 63 == 1) := by
  have hlt : b.toNat < 2 ^ 64 := b.isLt
  have hsign : (unpackSign b).toNat = b.toNat / 2 ^ 63 := by
    have hbit : (unpackSign b).toNat = b.toNat / 2 ^ 63 % 2 := by
      simp [unpackSign, Nat.shiftRight_eq_div_pow]
    omega
  rw [← hsign]
  generalize unpackSign b = v
  revert v
  decide

/-- **A DOUBLE DENOTES WHAT IT UNPACKS TO.** -/
theorem ofFloat_eq (x : Float) : Binary.ofFloat x = denoted (unpacked x) := by
  obtain ⟨b, hb⟩ : ∃ b : BitVec format.numBits, b = x.toBits.toBitVec := ⟨_, rfl⟩
  have hofFields : Binary.ofFloat x = Binary.ofFields (isNegative (Sign.ofBitVec (unpackSign b)))
      (unpackExponent b).toNat (unpackMantissa b).toNat := by
    rw [isNegative_unpackSign, toNat_unpackMantissa, toNat_unpackExponent, hb]
    rfl
  have hunpacked : unpacked x = UnpackedFloat.unpack format b := by
    rw [hb]
    rfl
  have hm : (unpackMantissa b).toNat < 2 ^ 52 := (unpackMantissa b).isLt
  rw [hofFields, hunpacked]
  unfold Binary.ofFields
  by_cases hfull : unpackExponent b = -1
  · -- an infinity, or undefined
    have hm0 : (unpackMantissa b).toNat = 0 ↔ unpackMantissa b = 0 :=
      ⟨fun h => BitVec.eq_of_toNat_eq h, fun h => congrArg BitVec.toNat h⟩
    rw [unpack_full hfull, if_pos (by rw [hfull]; rfl)]
    simp only [hm0]
    split_ifs <;> rfl
  · have hne : (unpackExponent b).toNat ≠ 2047 := fun hc => hfull (BitVec.eq_of_toNat_eq hc)
    rw [if_neg hne]
    by_cases hzero : unpackExponent b = 0
    · -- a zero or a subnormal number
      rw [unpack_subnormal hzero, if_pos (by rw [hzero]; rfl),
        denoted_ofMantissa ⟨by omega, by omega, by omega⟩]
      rfl
    · -- a normal number, whose leading bit is not stored
      have hne : (unpackExponent b).toNat ≠ 0 := fun hc => hzero (BitVec.eq_of_toNat_eq hc)
      rw [unpack_normal hfull hzero, if_neg hne, denoted_ofMantissa ⟨by omega, by omega, by omega⟩]
      rfl

/-! ## §2. Negation and products. -/

/-- Negation stays finite. -/
theorem isFinite_neg {x : Float} (h : x.isFinite = true) : (-x).isFinite = true := by
  obtain ⟨sign, m, e, hx, -, he⟩ := unpacked_of_isFinite h
  rw [isFinite_eq, unpacked_neg, hx, neg_ofMantissa]
  exact isFinite_packed_ofMantissa (-sign) m he

/-- The product of two numbers that are not zero, rounded. -/
theorem mul_ofMantissa_pos (s₁ s₂ : Sign) {m₁ m₂ : Nat} (h₁ : 0 < m₁) (h₂ : 0 < m₂) (e₁ e₂ : Int) :
    UnpackedFloat.mul format (ofMantissa s₁ m₁ e₁) (ofMantissa s₂ m₂ e₂)
      = roundWithAccuracy format (s₁ * s₂) (m₁ * m₂) (e₁ + e₂) .exact := by
  rw [ofMantissa_pos s₁ h₁, ofMantissa_pos s₂ h₂]
  rfl

/-- The product of finite numbers is a finite one before it is packed. -/
theorem mul_ofMantissa (s₁ s₂ : Sign) (m₁ m₂ : Nat) (e₁ e₂ : Int) :
    ∃ s m e, UnpackedFloat.mul format (ofMantissa s₁ m₁ e₁) (ofMantissa s₂ m₂ e₂)
      = ofMantissa s m e := by
  rcases Nat.eq_zero_or_pos m₁ with rfl | h₁
  · refine ⟨s₁ * s₂, 0, 0, ?_⟩
    rcases Nat.eq_zero_or_pos m₂ with rfl | h₂
    · rfl
    · rw [ofMantissa_pos s₂ h₂]
      rfl
  · rcases Nat.eq_zero_or_pos m₂ with rfl | h₂
    · refine ⟨s₁ * s₂, 0, 0, ?_⟩
      rw [ofMantissa_pos s₁ h₁]
      rfl
    · obtain ⟨k₁, r, k₂, -, -, -, -, heq⟩ :=
        roundWithAccuracy_eq (s₁ * s₂) (m₁ * m₂) (e₁ + e₂) .exact
      exact ⟨_, _, _, (mul_ofMantissa_pos s₁ s₂ h₁ h₂ e₁ e₂).trans heq⟩

/-- A product is finite unless it is an infinity: none is undefined. -/
theorem isFinite_mul {x y : Float} (hx : x.isFinite = true) (hy : y.isFinite = true)
    (hxy : (x * y).isInf = false) : (x * y).isFinite = true := by
  obtain ⟨s₁, m₁, e₁, hx, -⟩ := unpacked_of_isFinite hx
  obtain ⟨s₂, m₂, e₂, hy, -⟩ := unpacked_of_isFinite hy
  obtain ⟨s, m, e, hmul⟩ := mul_ofMantissa s₁ s₂ m₁ m₂ e₁ e₂
  rw [isInf_eq, unpacked_mul, hx, hy, hmul] at hxy
  rw [isFinite_eq, unpacked_mul, hx, hy, hmul]
  by_cases hm : m = 0
  · subst hm
    exact isFinite_packed_ofMantissa s 0 (e := 0) (by omega)
  · by_cases he : e ≤ 971
    · exact isFinite_packed_ofMantissa s m he
    · rw [packed_overflow s hm (by omega)] at hxy
      cases hxy

/-! ## §3. Quotients. -/

/-- A divisor of two or more, be it an infinity. -/
def isLarge (y : Float) : Bool :=
  match unpacked y with
  | .infinity _ => true
  | .finite _ m e _ => decide (2 ≤ totalExponent m e)
  | _ => false

/-- The magnitude of a quotient. -/
theorem log2_div_le (m₁ k : Nat) {m₂ : Nat} (h₂ : m₂ ≠ 0) :
    (m₁ <<< k / m₂).log2 ≤ m₁.log2 + k - m₂.log2 := by
  have hdividend : m₁ <<< k < 2 ^ (m₁.log2 + k + 1) := by
    have hm₁ : m₁ < 2 ^ (m₁.log2 + 1) := Nat.lt_log2_self
    rw [Nat.shiftLeft_eq, show m₁.log2 + k + 1 = m₁.log2 + 1 + k by omega, Nat.pow_add]
    exact Nat.mul_lt_mul_of_pos_right hm₁ (Nat.two_pow_pos k)
  have hdivisor := Nat.log2_self_le h₂
  refine log2_le_of_lt ?_
  rw [Nat.div_lt_iff_lt_mul (Nat.pos_of_ne_zero h₂)]
  refine Nat.lt_of_lt_of_le hdividend (Nat.le_trans ?_ (Nat.mul_le_mul_left _ hdivisor))
  rw [← Nat.pow_add]
  exact Nat.pow_le_pow_right (by omega) (by omega)

/-- The quotient of two numbers that are not zero, rounded.  The dividend is moved up until the
quotient has 53 bits, or down to the least place. -/
theorem div_ofMantissa_pos (s₁ s₂ : Sign) {m₁ m₂ : Nat} (h₁ : 0 < m₁) (h₂ : 0 < m₂) (e₁ e₂ : Int) :
    ∃ k : Nat, (k : Int) = e₁ - e₂
        - min (e₁ - e₂) (max (totalExponent m₁ e₁ - totalExponent m₂ e₂ - 53) (-1074))
      ∧ UnpackedFloat.div format (ofMantissa s₁ m₁ e₁) (ofMantissa s₂ m₂ e₂)
        = roundWithAccuracy format (s₁ / s₂) (m₁ <<< k / m₂) (e₁ - e₂ - k)
          (accuracyOfFraction (m₁ <<< k % m₂) m₂) := by
  obtain ⟨target, htarget⟩ : ∃ target,
      target = min (e₁ - e₂) (max (totalExponent m₁ e₁ - totalExponent m₂ e₂ - 53) (-1074)) :=
    ⟨_, rfl⟩
  have hk : ((e₁ - e₂ - target).toNat : Int) = e₁ - e₂ - target := by omega
  refine ⟨(e₁ - e₂ - target).toNat, by rw [hk, htarget], ?_⟩
  rw [ofMantissa_pos s₁ h₁, ofMantissa_pos s₂ h₂, hk, sub_sub_cancel, htarget]
  rfl

/-- Below `2 ^ 1023`, what is rounded stays finite. -/
theorem isFinite_packed_roundWithAccuracy {m : Nat} {e : Int}
    (hmagnitude : totalExponent m e ≤ 1023) (he : e ≤ 971) (sign : Sign) (accuracy : Accuracy) :
    (packed (roundWithAccuracy format sign m e accuracy)).isFinite = true := by
  obtain ⟨m', e', heq, he'⟩ := roundWithAccuracy_le hmagnitude he sign accuracy
  rw [heq]
  exact isFinite_packed_ofMantissa sign m' he'

/-- The quotient of a finite number by a large one stays finite. -/
theorem isFinite_div_ofMantissa (s₁ s₂ : Sign) {m₁ m₂ : Nat} {e₁ e₂ : Int} (hm₁ : m₁ < 2 ^ 53)
    (he₁ : e₁ ≤ 971) (hm₂ : m₂ ≠ 0) (hlarge : 2 ≤ totalExponent m₂ e₂) :
    (packed (UnpackedFloat.div format (ofMantissa s₁ m₁ e₁) (ofMantissa s₂ m₂ e₂))).isFinite
      = true := by
  by_cases h₁ : m₁ = 0
  · subst h₁
    rw [ofMantissa_pos s₂ (Nat.pos_of_ne_zero hm₂)]
    exact isFinite_packed_ofMantissa (s₁ / s₂) 0 (e := 0) (by omega)
  · obtain ⟨k, hk, hdiv⟩ :=
      div_ofMantissa_pos s₁ s₂ (Nat.pos_of_ne_zero h₁) (Nat.pos_of_ne_zero hm₂) e₁ e₂
    have hlog := log2_div_le m₁ k hm₂
    have hlog₁ : m₁.log2 ≤ 52 := log2_le_of_lt hm₁
    unfold totalExponent at hk hlarge
    -- the divisor takes one place off the magnitude, which is room enough for a carry
    have hmagnitude : totalExponent (m₁ <<< k / m₂) (e₁ - e₂ - k) ≤ 1023 := by
      unfold totalExponent
      omega
    rw [hdiv]
    exact isFinite_packed_roundWithAccuracy hmagnitude (by omega) _ _

/-- A quotient by two or more is finite. -/
theorem isFinite_div {x y : Float} (hx : x.isFinite = true) (hy : isLarge y = true) :
    (x / y).isFinite = true := by
  obtain ⟨s₁, m₁, e₁, hx, hm₁, he₁⟩ := unpacked_of_isFinite hx
  rw [isFinite_eq, unpacked_div, hx]
  unfold isLarge at hy
  split at hy
  next s₂ hy' =>
    -- nothing is left
    have hzero : UnpackedFloat.div format (ofMantissa s₁ m₁ e₁) (.infinity s₂)
        = ofMantissa (s₁ / s₂) 0 0 := by
      by_cases h₁ : m₁ = 0
      · subst h₁
        rfl
      · rw [ofMantissa_pos s₁ (Nat.pos_of_ne_zero h₁)]
        rfl
    rw [hy', hzero]
    exact isFinite_packed_ofMantissa (s₁ / s₂) 0 (by omega)
  next s₂ m₂ e₂ hm₂ hy' =>
    rw [hy', ← ofMantissa_pos s₂ hm₂]
    exact isFinite_div_ofMantissa s₁ s₂ hm₁ he₁ (Nat.pos_iff_ne_zero.mp hm₂) (of_decide_eq_true hy)
  next => cases hy

/-! ## §4. Whole numbers and powers of ten. -/

/-- A whole number times a power of ten, when the table of small powers is no help. -/
theorem unpacked_ofScientific {m k : Nat} (hlarge : ¬(m < 2 ^ 53 ∧ k ≤ 22)) (negative : Bool) :
    unpacked (Float.ofScientific m negative k)
      = packed (UnpackedFloat.ofScientific format m (if negative then -k else k)) := by
  unfold Float.ofScientific
  rw [dif_neg hlarge]
  cases negative with
  | false => rfl
  | true =>
    rw [if_pos rfl, if_pos rfl, Int.negOfNat_eq]
    rfl

/-- A power of ten that is no fraction is multiplied. -/
theorem ofScientific_nonneg {m k : Nat} (hm : m ≠ 0) (hk : k ≤ 2048) :
    UnpackedFloat.ofScientific format m k
      = UnpackedFloat.mul format (ofMantissa .positive (m <<< 53) (-53))
        (ofMantissa .positive (10 ^ k) 0) := by
  have hsmall : ¬ (k : Int) > 2 ^ format.exponentBits := by
    show ¬ (k : Int) > 2048
    omega
  have hbig : ¬ (k : Int) < -((2 ^ format.exponentBits : Int) + m.log2) := by
    show ¬ (k : Int) < -((2048 : Int) + m.log2)
    omega
  have hpos : 0 < m <<< 53 := by
    rw [Nat.shiftLeft_eq]
    positivity
  unfold UnpackedFloat.ofScientific
  rw [dif_neg hm, if_neg hsmall, if_neg hbig, if_pos (Int.natCast_nonneg k),
    ofMantissa_pos .positive hpos, ofMantissa_pos .positive (by positivity)]
  rfl

theorem unpacked_ofScientific_nonneg {m k : Nat} (hm : m ≠ 0) (hlarge : ¬(m < 2 ^ 53 ∧ k ≤ 22))
    (hk : k ≤ 2048) :
    unpacked (Float.ofScientific m false k)
      = packed (roundWithAccuracy format .positive ((m <<< 53) * 10 ^ k) (-53) .exact) := by
  have hpos : 0 < m <<< 53 := by
    rw [Nat.shiftLeft_eq]
    positivity
  rw [unpacked_ofScientific hlarge, if_neg Bool.false_ne_true, ofScientific_nonneg hm hk,
    mul_ofMantissa_pos .positive .positive hpos (by positivity)]
  rfl

/-- A shift by `k` places adds `k` to the place of the leading bit. -/
theorem log2_shiftLeft {m : Nat} (hm : m ≠ 0) (k : Nat) : (m <<< k).log2 = m.log2 + k := by
  have hpow : 2 ^ k ≠ 0 := Nat.pos_iff_ne_zero.mp (Nat.two_pow_pos k)
  rw [Nat.shiftLeft_eq, Nat.log2_eq_iff (Nat.mul_ne_zero hm hpow)]
  have hlow := Nat.log2_self_le hm
  have hhigh : m < 2 ^ (m.log2 + 1) := Nat.lt_log2_self
  rw [show m.log2 + k + 1 = m.log2 + 1 + k by omega, Nat.pow_add, Nat.pow_add]
  exact ⟨Nat.mul_le_mul_right _ hlow, Nat.mul_lt_mul_of_pos_right hhigh (Nat.two_pow_pos k)⟩

/-- A whole number of up to 53 bits, its leading bit moved to the place of the 53rd. -/
theorem log2_aligned {v : Nat} (hpos : 0 < v) (hv : v < 2 ^ 53) :
    (v <<< (52 - v.log2)).log2 = 52 := by
  have hlog : v.log2 ≤ 52 := log2_le_of_lt hv
  rw [log2_shiftLeft (by omega)]
  omega

/-- A whole number of up to 53 bits is converted exactly. -/
theorem unpacked_toFloat {v : Nat} (hpos : 0 < v) (hv : v < 2 ^ 53) :
    unpacked v.toUInt64.toFloat
      = ofMantissa .positive (v <<< (52 - v.log2)) (-(52 - v.log2 : Nat)) := by
  have hlog : v.log2 ≤ 52 := log2_le_of_lt hv
  have hcanonical : Binary.Canonical (v <<< (52 - v.log2)) (-(52 - v.log2 : Nat)) :=
    canonical_of_log2 (log2_aligned hpos hv) (by omega)
  have htoNat : v.toUInt64.toNat = v := by
    rw [Nat.toUInt64_eq, UInt64.toNat_ofNat_of_lt']
    exact Nat.lt_of_lt_of_le hv (by decide)
  have hshift : (0 - format.targetExponent (totalExponent v 0)).toNat = 52 - v.log2 := by
    rw [targetExponent_eq]
    unfold totalExponent
    omega
  have hsign : compare (v : Int) 0 = .gt := by
    rw [Int.compare_eq_gt]
    omega
  show packed (UnpackedFloat.normalize format (v.toUInt64.toNat : Int) 0 .positive) = _
  rw [htoNat, UnpackedFloat.normalize, hsign]
  show packed (roundWithAccuracy format .positive
    ((v : Int).toNat <<< (0 - format.targetExponent (totalExponent (v : Int).toNat 0)).toNat)
    (0 - (0 - format.targetExponent (totalExponent (v : Int).toNat 0)).toNat) .exact) = _
  rw [Int.toNat_natCast, hshift, Int.zero_sub, roundWithAccuracy_canonical hcanonical,
    packed_canonical hcanonical (by omega)]

end Binary64

namespace Numeral

open Binary64

/-! ## §5. Powers of ten. -/

/-- The powers of ten that are tabulated. -/
theorem powerOfTen_small : ∀ k < 23,
    (0 < k → isLarge (powerOfTen k) = true) ∧ (powerOfTen k).isFinite = true := by
  decide +kernel

/-- The powers of ten that are rounded. -/
theorem unpacked_powerOfTen {k : Nat} (hlarge : 23 ≤ k) (hk : k ≤ greatestPower) :
    unpacked (powerOfTen k)
      = packed (roundWithAccuracy format .positive (10 ^ k <<< 53) (-53) .exact) := by
  unfold greatestPower at hk
  rw [powerOfTen, unpacked_ofScientific_nonneg (by omega) (by omega) (by omega), Nat.shiftLeft_eq,
    Nat.shiftLeft_eq, Nat.one_mul, Nat.mul_comm]

/-- Every power of ten that the reader multiplies with is finite. -/
theorem isFinite_powerOfTen {k : Nat} (hk : k ≤ greatestPower) :
    (powerOfTen k).isFinite = true := by
  by_cases hsmall : k < 23
  · exact (powerOfTen_small k hsmall).2
  · by_cases hgreatest : k = greatestPower
    · -- rounding comes closest to the largest double here
      subst hgreatest
      decide +kernel
    · have hle : k ≤ 307 := by
        unfold greatestPower at *
        omega
      have hbits : (10 ^ k).log2 ≤ 1022 :=
        log2_le_of_lt (Nat.lt_of_le_of_lt (Nat.pow_le_pow_right (by omega) hle) (by decide +kernel))
      rw [isFinite_eq, unpacked_powerOfTen (by omega) hk]
      refine isFinite_packed_roundWithAccuracy ?_ (by omega) .positive .exact
      rw [totalExponent, log2_shiftLeft (Nat.pos_iff_ne_zero.mp (Nat.pow_pos (by omega)))]
      omega

theorem isLarge_powerOfTen {k : Nat} (hpos : 0 < k) (hk : k ≤ greatestPower) :
    isLarge (powerOfTen k) = true := by
  by_cases hsmall : k < 23
  · exact (powerOfTen_small k hsmall).1 hpos
  · have hne : 10 ^ k ≠ 0 := Nat.pos_iff_ne_zero.mp (Nat.pow_pos (by omega))
    have hlog : (10 ^ k <<< 53).log2 = (10 ^ k).log2 + 53 := log2_shiftLeft hne 53
    have hbits : 1 ≤ (10 ^ k).log2 := (Nat.le_log2 hne).mpr (by
      calc 2 ^ 1 ≤ 10 ^ 1 := by decide
        _ ≤ 10 ^ k := Nat.pow_le_pow_right (by omega) hpos)
    obtain ⟨m', e', heq, hm', hlow, -⟩ := roundWithAccuracy_ge (m := 10 ^ k <<< 53) (e := -53)
      (by omega) (by unfold totalExponent; omega) .positive .exact
    unfold totalExponent at hlow
    have hunpacked := unpacked_powerOfTen (by omega) hk
    rw [heq] at hunpacked
    -- above that it would be packed as an infinity
    have hhigh : e' ≤ 971 := Decidable.byContradiction fun hover => by
      have hfinite := isFinite_powerOfTen hk
      rw [isFinite_eq, hunpacked, packed_overflow .positive (pos_of_log2 hm').ne' (by omega)]
        at hfinite
      cases hfinite
    have hcanonical := canonical_of_log2 (e := e') hm' (by omega)
    rw [isLarge, hunpacked, packed_canonical hcanonical hhigh,
      ofMantissa_pos .positive (pos_of_log2 hm')]
    refine decide_eq_true ?_
    unfold totalExponent
    omega

/-! ## §6. Significands. -/

/-- Digits are taken as long as they fit 64 bits. -/
theorem value_takeWhole {s : Significand} (digit : Char) (h : s.value < 2 ^ 64) :
    (s.takeWhole digit).value < 2 ^ 64 := by
  unfold Significand.takeWhole
  dsimp only
  split_ifs with hfull
  · exact h
  · simp only [Bool.or_eq_true, decide_eq_true_eq, not_or, Nat.not_le] at hfull
    exact hfull.2

theorem value_takeDecimal {s : Significand} (digit : Char) (h : s.value < 2 ^ 64) :
    (s.takeDecimal digit).value < 2 ^ 64 := by
  unfold Significand.takeDecimal
  dsimp only
  split_ifs with hfull
  · exact h
  · simp only [Bool.or_eq_true, decide_eq_true_eq, not_or, Nat.not_le] at hfull
    exact hfull.2

theorem value_significand (n : Numeral) : n.significand.value < 2 ^ 64 := by
  have hwhole : (n.whole.foldl Significand.takeWhole ⟨0, 0, false⟩).value < 2 ^ 64 :=
    List.foldlRecOn (motive := fun s : Significand => s.value < 2 ^ 64) n.whole _ (by decide)
      fun _ hs digit _ => value_takeWhole digit hs
  exact List.foldlRecOn (motive := fun s : Significand => s.value < 2 ^ 64) n.fraction _ hwhole
    fun _ hs digit _ => value_takeDecimal digit hs

/-- A whole number of 64 bits is finite. -/
theorem isFinite_ofNat {v : Nat} (hv : v < 2 ^ 64) : (Float.ofNat v).isFinite = true := by
  by_cases hzero : v = 0
  · subst hzero
    decide +kernel
  · by_cases hsmall : v < 2 ^ 53
    · -- converted, and multiplied by one
      have hx := unpacked_toFloat (Nat.pos_of_ne_zero hzero) hsmall
      have hm := log2_aligned (Nat.pos_of_ne_zero hzero) hsmall
      have hone : unpacked (Float.ofBits 0x3FF0000000000000)
          = ofMantissa .positive (2 ^ 52) (-52) := by
        rfl
      have hproduct : Float.ofNat v = v.toUInt64.toFloat * Float.ofBits 0x3FF0000000000000 := by
        show Float.ofScientific v false 0 = _
        unfold Float.ofScientific
        rw [dif_pos ⟨hsmall, by omega⟩]
        rfl
      have hmul := mul_ofMantissa_pos .positive .positive (pos_of_log2 hm)
        (show 0 < 2 ^ 52 by decide) (-(52 - v.log2 : Nat)) (-52)
      rw [← Nat.shiftLeft_eq] at hmul
      rw [isFinite_eq, hproduct, unpacked_mul, hx, hone, hmul]
      refine isFinite_packed_roundWithAccuracy ?_ (by omega) _ .exact
      rw [totalExponent, log2_shiftLeft (Nat.pos_iff_ne_zero.mp (pos_of_log2 hm))]
      omega
    · have hlog : v.log2 ≤ 63 := log2_le_of_lt hv
      rw [isFinite_eq]
      show (unpacked (Float.ofScientific v false 0)).isFinite = true
      rw [unpacked_ofScientific_nonneg hzero (by omega) (by omega), Nat.pow_zero, Nat.mul_one]
      refine isFinite_packed_roundWithAccuracy ?_ (by omega) .positive .exact
      rw [totalExponent, log2_shiftLeft hzero]
      omega

/-! ## §7. Reading. -/

theorem isFinite_applyPower {x y : Float} {power : Int} (hx : x.isFinite = true)
    (h : applyPower x power = some y) : y.isFinite = true := by
  unfold applyPower at h
  dsimp only at h
  split_ifs at h with hpos hgreatest hinf hzero hneg hleft
  · -- a product, which is refused if it is infinite
    obtain rfl := Option.some.inj h
    exact isFinite_mul hx (isFinite_powerOfTen (by omega)) (by simpa using hinf)
  · -- zero
    obtain rfl := Option.some.inj h
    exact hx
  · -- a quotient
    obtain rfl := Option.some.inj h
    exact isFinite_div hx (isLarge_powerOfTen (by omega) (by omega))
  · -- a quotient of a quotient
    obtain rfl := Option.some.inj h
    have hlarge := isLarge_powerOfTen (show 0 < greatestPower by decide) (Nat.le_refl _)
    have hfirst := isFinite_div hx hlarge
    exact isFinite_div hfirst (isLarge_powerOfTen (by omega) (by omega))
  · -- too small for a double other than zero
    obtain rfl := Option.some.inj h
    decide +kernel

/-- Every double that a numeral is read as is finite. -/
theorem isFinite_of_toFloat? {n : Numeral} {x : Float} (h : n.toFloat? = some x) :
    x.isFinite = true := by
  obtain ⟨y, hy, rfl⟩ := Option.map_eq_some_iff.mp h
  have hfinite := isFinite_applyPower (isFinite_ofNat (value_significand n)) hy
  unfold signed
  split_ifs
  · exact isFinite_neg hfinite
  · exact hfinite

/-! ## §8. Writing. -/

/-- A numeral is written for every double that is finite, and for no other. -/
theorem ofFloat?_eq_none_iff (x : Float) : ofFloat? x = none ↔ x.isFinite = false := by
  rw [isFinite_eq, ofFloat?, ofFloat_eq]
  cases unpacked x <;> simp [denoted, UnpackedFloat.isFinite]

end Numeral

end PlotLisp
