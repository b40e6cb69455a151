/-
  PlotLisp.Proofs.Number.Rounding
  ──────────────────────────────────────
  **WHERE ROUNDING TO A DOUBLE ENDS UP.**

  A mantissa and an exponent are rounded by shifting the mantissa to the exponent
  that doubles of that magnitude have, rounding it there, and shifting once more
  if it grew by a bit.  What matters is the magnitude, the place of the first
  bit (`totalExponent`):

    • below `2 ^ 1023`, rounding ends at an exponent that doubles have
      (`roundWithAccuracy_le`), so packing gives no infinity
      (`isFinite_pack`);
    • from 53 bits in the normal range, rounding keeps the first bit or moves it
      up (`roundWithAccuracy_ge`);
    • a number that a double has is packed as it is (`IsDouble.packed_eq`).
-/
import Mathlib
import PlotLisp.Proofs.Number.Nearest

namespace PlotLisp.Binary64

open Float.Model Float.Model.UnpackedFloat Binary

/-- The format of doubles. -/
abbrev format : Format := .binary64

/-! ## §1. Shifts. -/

theorem mantissa_shiftRight (em : ExtendedMantissa) (n : Nat) :
    (em >>> n).mantissa = em.mantissa / 2 ^ n := by
  induction n with
  | zero => simp [HShiftRight.hShiftRight, Nat.repeat]
  | succ n ih =>
    show (em >>> n).mantissa / 2 = _
    rw [ih, Nat.div_div_eq_div_mul, Nat.pow_succ]

theorem mantissa_ofMantissaAndAccuracy (m : Nat) (accuracy : Accuracy) :
    (ExtendedMantissa.ofMantissaAndAccuracy m accuracy).mantissa = m := by
  unfold ExtendedMantissa.ofMantissaAndAccuracy
  split <;> rfl

/-- Rounding goes up by one at most. -/
theorem roundedMantissa_bounds (em : ExtendedMantissa) :
    em.mantissa ≤ em.roundedMantissa ∧ em.roundedMantissa ≤ em.mantissa + 1 := by
  unfold ExtendedMantissa.roundedMantissa Accuracy.roundToNearestEven
  split <;> omega

theorem targetExponent_eq (t : Int) : format.targetExponent t = max (t - 53) (-1074) := rfl

/-! ## §2. Rounding. -/

/-- What a final mantissa stands for. -/
def ofMantissa (sign : Sign) (m : Nat) (e : Int) : UnpackedFloat :=
  if h : m = 0 then .zero sign else .finite sign m e (Nat.pos_of_ne_zero h)

/-- Rounding shifts to the exponent that the magnitude asks for, rounds there, and shifts once
more if the mantissa grew by a bit. -/
theorem roundWithAccuracy_shifts (sign : Sign) (m : Nat) (e : Int) (accuracy : Accuracy) :
    ∃ (em : ExtendedMantissa) (k₁ k₂ : Nat),
      em = ExtendedMantissa.ofMantissaAndAccuracy m accuracy >>> k₁
      ∧ (k₁ : Int) = max (max (totalExponent m e - 53) (-1074) - e) 0
      ∧ (k₂ : Int) = max (max (totalExponent em.roundedMantissa (e + k₁) - 53) (-1074) - (e + k₁)) 0
      ∧ roundWithAccuracy format sign m e accuracy
        = ofMantissa sign (em.roundedMantissa / 2 ^ k₂) (e + k₁ + k₂) := by
  let k₁ := (format.targetExponent (totalExponent m e) - e).toNat
  let em := ExtendedMantissa.ofMantissaAndAccuracy m accuracy >>> k₁
  let k₂ := (format.targetExponent (totalExponent em.roundedMantissa (e + k₁)) - (e + k₁)).toNat
  have hfinal : (ExtendedMantissa.ofMantissaAndAccuracy em.roundedMantissa .exact >>> k₂).mantissa
      = em.roundedMantissa / 2 ^ k₂ := by
    rw [mantissa_shiftRight, mantissa_ofMantissaAndAccuracy]
  refine ⟨em, k₁, k₂, rfl, ?_, ?_, ?_⟩
  · rw [← targetExponent_eq]
    omega
  · rw [← targetExponent_eq]
    omega
  · rw [← hfinal]
    rfl

/-- In between, the mantissa goes up by one at most. -/
theorem roundWithAccuracy_eq (sign : Sign) (m : Nat) (e : Int) (accuracy : Accuracy) :
    ∃ k₁ r k₂ : Nat, (k₁ : Int) = max (max (totalExponent m e - 53) (-1074) - e) 0
      ∧ m / 2 ^ k₁ ≤ r ∧ r ≤ m / 2 ^ k₁ + 1
      ∧ (k₂ : Int) = max (max (totalExponent r (e + k₁) - 53) (-1074) - (e + k₁)) 0
      ∧ roundWithAccuracy format sign m e accuracy
        = ofMantissa sign (r / 2 ^ k₂) (e + k₁ + k₂) := by
  obtain ⟨em, k₁, k₂, hem, hk₁, hk₂, heq⟩ := roundWithAccuracy_shifts sign m e accuracy
  have hmantissa : em.mantissa = m / 2 ^ k₁ := by
    rw [hem, mantissa_shiftRight, mantissa_ofMantissaAndAccuracy]
  obtain ⟨hlow, hhigh⟩ := roundedMantissa_bounds em
  exact ⟨k₁, em.roundedMantissa, k₂, hk₁, hmantissa ▸ hlow, hmantissa ▸ hhigh, hk₂, heq⟩

theorem log2_le_of_lt {m k : Nat} (h : m < 2 ^ (k + 1)) : m.log2 ≤ k := by
  by_cases hm : m = 0
  · rw [hm, Nat.log2_zero]
    exact Nat.zero_le k
  · exact Nat.le_of_lt_succ ((Nat.log2_lt hm).mpr h)

theorem pos_of_log2 {m k : Nat} (h : m.log2 = k + 1) : 0 < m := by
  rcases Nat.eq_zero_or_pos m with rfl | hpos
  · rw [Nat.log2_zero] at h
    omega
  · exact hpos

variable {m : Nat} {e : Int}

/-- A mantissa and an exponent as doubles have them are left alone. -/
theorem roundWithAccuracy_canonical (h : Canonical m e) (sign : Sign) :
    roundWithAccuracy format sign m e .exact = ofMantissa sign m e := by
  obtain ⟨em, k₁, k₂, hem, hk₁, hk₂, heq⟩ := roundWithAccuracy_shifts sign m e .exact
  have hlog : m.log2 ≤ 52 := log2_le_of_lt h.lt
  have hleast := h.least
  unfold totalExponent at hk₁ hk₂
  obtain rfl : k₁ = 0 := by omega
  have hm : em.roundedMantissa = m := by
    rw [hem]
    rfl
  rw [hm] at hk₂ heq
  obtain rfl : k₂ = 0 := by omega
  simpa using heq

/-! ## §3. Bounds. -/

/-- The magnitude of a mantissa that a shift and rounding leave. -/
theorem log2_rounded_le {m r k : Nat} (hr : r ≤ m / 2 ^ k + 1) : r.log2 ≤ m.log2 + 1 - k := by
  have hpow : m / 2 ^ k < 2 ^ (m.log2 + 1 - k) := by
    rw [Nat.div_lt_iff_lt_mul (Nat.two_pow_pos k), ← Nat.pow_add]
    exact Nat.lt_of_lt_of_le Nat.lt_log2_self (Nat.pow_le_pow_right (by omega) (by omega))
  have hpos := Nat.two_pow_pos (m.log2 + 1 - k)
  refine log2_le_of_lt ?_
  rw [Nat.pow_succ]
  omega

/-- Rounding a magnitude below `2 ^ 1023` ends at an exponent that doubles have. -/
theorem roundWithAccuracy_le {m : Nat} {e : Int} (hmagnitude : totalExponent m e ≤ 1023)
    (he : e ≤ 971) (sign : Sign) (accuracy : Accuracy) :
    ∃ m' e', roundWithAccuracy format sign m e accuracy = ofMantissa sign m' e' ∧ e' ≤ 971 := by
  obtain ⟨k₁, r, k₂, hk₁, -, hr, hk₂, heq⟩ := roundWithAccuracy_eq sign m e accuracy
  refine ⟨_, _, heq, ?_⟩
  have hlog := log2_rounded_le hr
  unfold totalExponent at *
  omega

/-- Rounding 53 bits or more in the normal range keeps the first bit or moves it up by
one place, and leaves 53 bits. -/
theorem roundWithAccuracy_ge {m : Nat} {e : Int} (hbits : 52 ≤ m.log2)
    (hnormal : -1021 ≤ totalExponent m e) (sign : Sign) (accuracy : Accuracy) :
    ∃ m' e', roundWithAccuracy format sign m e accuracy = ofMantissa sign m' e' ∧ m'.log2 = 52
      ∧ totalExponent m e ≤ e' + 53 ∧ e' + 53 ≤ totalExponent m e + 1 := by
  obtain ⟨k₁, r, k₂, hk₁, hlow, hhigh, hk₂, heq⟩ := roundWithAccuracy_eq sign m e accuracy
  refine ⟨_, _, heq, ?_⟩
  have hm : m ≠ 0 := by
    rintro rfl
    simp at hbits
  have hshift : k₁ = m.log2 - 52 := by
    unfold totalExponent at hk₁ hnormal
    omega
  -- the first shift leaves 53 bits
  have hfirst : 2 ^ 52 ≤ m / 2 ^ k₁ ∧ m / 2 ^ k₁ < 2 ^ 53 := by
    rw [Nat.le_div_iff_mul_le (Nat.two_pow_pos _), Nat.div_lt_iff_lt_mul (Nat.two_pow_pos _),
      ← Nat.pow_add, ← Nat.pow_add]
    have hself := Nat.log2_self_le hm
    have hlt : m < 2 ^ (m.log2 + 1) := Nat.lt_log2_self
    rw [show 52 + k₁ = m.log2 by omega, show 53 + k₁ = m.log2 + 1 by omega]
    exact ⟨hself, hlt⟩
  have hr : r ≠ 0 := by omega
  by_cases hcarry : r < 2 ^ 53
  · -- and rounding still does
    have hlog : r.log2 = 52 := (Nat.log2_eq_iff hr).mpr ⟨by omega, hcarry⟩
    have hk₂0 : k₂ = 0 := by
      unfold totalExponent at *
      omega
    subst hk₂0
    refine ⟨by simpa using hlog, ?_⟩
    unfold totalExponent at *
    omega
  · -- or makes it one bit more, which the second shift takes off
    obtain rfl : r = 2 ^ 53 := by omega
    have hlog : (2 ^ 53 : Nat).log2 = 53 := Nat.log2_two_pow
    have hk₂1 : k₂ = 1 := by
      unfold totalExponent at *
      omega
    subst hk₂1
    refine ⟨by decide, ?_⟩
    unfold totalExponent at *
    omega

/-! ## §4. Packing. -/

/-- A packed number is finite unless its exponent field is full. -/
theorem isFinite_unpack (b : BitVec format.numBits) :
    (UnpackedFloat.unpack format b).isFinite = true ↔ unpackExponent b ≠ -1 := by
  unfold UnpackedFloat.unpack
  dsimp only
  split_ifs <;> simp_all [UnpackedFloat.isFinite]

/-- The number as it is after packing. -/
def packed (f : UnpackedFloat) : UnpackedFloat :=
  UnpackedFloat.unpack format (UnpackedFloat.pack format f)

/-- The exponent field of a packed number. -/
theorem unpackExponent_pack (sign : Sign) {m : Nat} {e : Int} (hm : 0 < m) :
    unpackExponent (UnpackedFloat.pack format (.finite sign m e hm))
      = if 971 < e then -1 else if m.log2 = 52 then BitVec.ofNat 11 (e + 1075).toNat else 0 := by
  have hbiased : (e + format.exponentBias + format.mantissaBitsWithoutImplicit).toNat
      = (e + 1075).toNat := by
    show (e + 1023 + 52).toNat = _
    omega
  have hfull : (2 ^ format.exponentBits ≤ (e + 1075).toNat + 1) ↔ 971 < e := by
    show 2048 ≤ _ ↔ _
    omega
  have hnormal : (m.log2 + 1 = format.mantissaBits) ↔ m.log2 = 52 := by
    show _ = 53 ↔ _
    omega
  simp only [UnpackedFloat.pack, hbiased, hfull, hnormal]
  split_ifs <;> simp [packedInfinity]

theorem isFinite_packed_ofMantissa (sign : Sign) (m : Nat) {e : Int} (he : e ≤ 971) :
    (packed (ofMantissa sign m e)).isFinite = true := by
  rw [packed, isFinite_unpack]
  unfold ofMantissa
  split_ifs with hm
  · simp [UnpackedFloat.pack, packedZero]
  · rw [unpackExponent_pack, if_neg (by omega)]
    split_ifs
    · intro hfull
      have := congrArg BitVec.toNat hfull
      simp at this
      omega
    · simp

/-- A number with a larger exponent than doubles have is packed as an infinity. -/
theorem packed_overflow (sign : Sign) {m : Nat} {e : Int} (hm : m ≠ 0) (he : 971 < e) :
    packed (ofMantissa sign m e) = .infinity sign := by
  have hpack : UnpackedFloat.pack format (ofMantissa sign m e) = packedInfinity format sign := by
    have hfull : 2 ^ format.exponentBits
        ≤ (e + format.exponentBias + format.mantissaBitsWithoutImplicit).toNat + 1 := by
      show 2048 ≤ (e + 1023 + 52).toNat + 1
      omega
    rw [ofMantissa, dif_neg hm, UnpackedFloat.pack]
    simp only [hfull, if_true]
  rw [packed, hpack]
  cases sign <;> rfl

/-- The leading bit of a normal number is not stored. -/
theorem toNat_withLeadingBit (v : BitVec 52) : (1#1 ++ v).toNat = 2 ^ 52 + v.toNat := by
  have happend : (1#1 ++ v).toNat = 2 ^ 52 * 1 ||| v.toNat := by
    rw [BitVec.toNat_append, Nat.shiftLeft_eq, Nat.mul_comm]
    rfl
  rw [happend, ← Nat.two_pow_add_eq_or_of_lt v.isLt, Nat.mul_one]

theorem ofMantissa_pos (sign : Sign) {m : Nat} {e : Int} (hm : 0 < m) :
    ofMantissa sign m e = .finite sign m e hm := dif_neg (Nat.pos_iff_ne_zero.mp hm)

/-- What a normal number unpacks to. -/
theorem unpack_normal {b : BitVec format.numBits} (hfull : unpackExponent b ≠ -1)
    (hzero : unpackExponent b ≠ 0) :
    UnpackedFloat.unpack format b = ofMantissa (Sign.ofBitVec (unpackSign b))
      (2 ^ 52 + (unpackMantissa b).toNat) ((unpackExponent b).toNat - 1075) := by
  rw [← toNat_withLeadingBit, ofMantissa_pos _ (by rw [toNat_withLeadingBit]; omega)]
  unfold UnpackedFloat.unpack
  exact (if_neg hfull).trans (if_neg hzero)

/-- What a zero or a subnormal number unpacks to. -/
theorem unpack_subnormal {b : BitVec format.numBits} (hzero : unpackExponent b = 0) :
    UnpackedFloat.unpack format b = ofMantissa (Sign.ofBitVec (unpackSign b))
      (unpackMantissa b).toNat (-1074) := by
  have hfull : unpackExponent b ≠ -1 := by
    rw [hzero]
    decide
  unfold UnpackedFloat.unpack
  refine (if_neg hfull).trans ((if_pos hzero).trans ?_)
  unfold ofMantissa
  by_cases hm : (unpackMantissa b) = 0
  · have hnone : (unpackMantissa b).toNat = 0 := congrArg BitVec.toNat hm
    refine (dif_pos hm).trans ?_
    rw [dif_pos hnone]
  · have hne : (unpackMantissa b).toNat ≠ 0 := fun hc => hm (BitVec.eq_of_toNat_eq hc)
    refine (dif_neg hm).trans (Eq.trans ?_ (dif_neg hne).symm)
    simp only [hzero]
    rfl

/-- What an infinity or an undefined number unpacks to. -/
theorem unpack_full {b : BitVec format.numBits} (hfull : unpackExponent b = -1) :
    UnpackedFloat.unpack format b
      = if unpackMantissa b = 0 then .infinity (Sign.ofBitVec (unpackSign b)) else .notANumber := by
  unfold UnpackedFloat.unpack
  exact if_pos hfull

/-- What doubles are: undefined, infinite, or a number of 53 bits that is not too large. -/
inductive IsDouble : UnpackedFloat → Prop where
  | undefined : IsDouble .notANumber
  | infinity (sign : Sign) : IsDouble (.infinity sign)
  | finite (sign : Sign) {m e} : Canonical m e → e ≤ 971 → IsDouble (ofMantissa sign m e)

/-- A bit pattern unpacks to a double. -/
theorem isDouble_unpack (b : BitVec format.numBits) : IsDouble (UnpackedFloat.unpack format b) := by
  have hm : (unpackMantissa b).toNat < 2 ^ 52 := (unpackMantissa b).isLt
  have he : (unpackExponent b).toNat < 2048 := (unpackExponent b).isLt
  by_cases hfull : unpackExponent b = -1
  · rw [unpack_full hfull]
    split_ifs
    · exact .infinity _
    · exact .undefined
  · by_cases hzero : unpackExponent b = 0
    · rw [unpack_subnormal hzero]
      exact .finite _ ⟨by omega, by omega, by omega⟩ (by omega)
    · rw [unpack_normal hfull hzero]
      have hne : (unpackExponent b).toNat ≠ 2047 := fun hc => hfull (BitVec.eq_of_toNat_eq hc)
      have hne' : (unpackExponent b).toNat ≠ 0 := fun hc => hzero (BitVec.eq_of_toNat_eq hc)
      exact .finite _ ⟨by omega, by omega, by omega⟩ (by omega)

/-- A finite number has at most 53 bits, and an exponent that doubles have. -/
theorem unpack_of_isFinite {b : BitVec format.numBits}
    (h : (UnpackedFloat.unpack format b).isFinite = true) :
    ∃ sign m e, UnpackedFloat.unpack format b = ofMantissa sign m e ∧ m < 2 ^ 53 ∧ e ≤ 971 := by
  have hdouble := isDouble_unpack b
  generalize UnpackedFloat.unpack format b = f at h hdouble
  cases hdouble with
  | undefined => cases h
  | infinity => cases h
  | finite sign hm he => exact ⟨sign, _, _, rfl, hm.lt, he⟩

/-! ## §5. Packing and unpacking again. -/

/-- The sign field is the one that was packed. -/
theorem unpackSign_packComponents {spec : Format} {sign : Sign}
    {exponent : BitVec spec.exponentBits} {mantissa : BitVec spec.mantissaBitsWithoutImplicit} :
    unpackSign (packComponents spec sign exponent mantissa) = sign.toBitVec := by
  ext i hi
  obtain rfl : i = 0 := by omega
  simp [unpackSign, packComponents, BitVec.getLsbD_append, BitVec.getElem_append]

@[simp] theorem ofBitVec_toBitVec (sign : Sign) : Sign.ofBitVec sign.toBitVec = sign := by
  cases sign <;> rfl

/-- The three fields that a number of a double is packed into. -/
theorem pack_canonical (h : Canonical m e) (he : e ≤ 971) (sign : Sign) :
    ∃ exponent : BitVec 11,
      UnpackedFloat.pack format (ofMantissa sign m e)
        = packComponents format sign exponent (BitVec.ofNat 52 m)
      ∧ exponent.toNat = if 2 ^ 52 ≤ m then (e + 1075).toNat else 0 := by
  obtain ⟨hleast, hlt, hleading⟩ := h
  rcases Nat.eq_zero_or_pos m with rfl | hm
  · exact ⟨0, rfl, rfl⟩
  · have hbiased : (e + format.exponentBias + format.mantissaBitsWithoutImplicit).toNat
        = (e + 1075).toNat := by
      show (e + 1023 + 52).toNat = _
      omega
    have hfull : ¬ 2 ^ format.exponentBits ≤ (e + 1075).toNat + 1 := by
      show ¬ 2048 ≤ (e + 1075).toNat + 1
      omega
    have hnormal : (m.log2 + 1 = format.mantissaBits) ↔ 2 ^ 52 ≤ m := by
      have hlog : m.log2 ≤ 52 := log2_le_of_lt hlt
      have hiff : 52 ≤ m.log2 ↔ 2 ^ 52 ≤ m := Nat.le_log2 hm.ne'
      show _ = 53 ↔ _
      omega
    rw [ofMantissa_pos sign hm]
    simp only [UnpackedFloat.pack, hbiased, hfull, if_false, hnormal]
    split_ifs with hm52
    · exact ⟨_, rfl, by rw [BitVec.toNat_ofNat, Nat.mod_eq_of_lt (by omega)]⟩
    · exact ⟨_, rfl, rfl⟩

/-- A number that a double has is packed as it is. -/
theorem packed_canonical (h : Canonical m e) (he : e ≤ 971) (sign : Sign) :
    packed (ofMantissa sign m e) = ofMantissa sign m e := by
  obtain ⟨exponent, hpack, hexponent⟩ := pack_canonical h he sign
  obtain ⟨hleast, hlt, hleading⟩ := h
  have hfield : unpackExponent (packComponents format sign exponent (BitVec.ofNat 52 m))
      = exponent := unpackExponent_packComponents
  rw [packed, hpack]
  split_ifs at hexponent with hm
  · -- a normal number, without its leading bit
    have hne (v : BitVec 11) (hv : (e + 1075).toNat ≠ v.toNat) : exponent ≠ v :=
      fun hc => hv (by rw [← hexponent, hc])
    have hfull : exponent ≠ -1 := hne (-1) (by show _ ≠ 2047; omega)
    have hzero : exponent ≠ 0 := hne 0 (by show _ ≠ 0; omega)
    have hmantissa : 2 ^ 52 + (BitVec.ofNat 52 m).toNat = m := by
      rw [BitVec.toNat_ofNat]
      omega
    rw [unpack_normal (by rwa [hfield]) (by rwa [hfield]), unpackSign_packComponents,
      ofBitVec_toBitVec, hfield, unpackMantissa_packComponents, hexponent]
    congr 1
    omega
  · -- a number at the least exponent
    obtain rfl : e = -1074 := by omega
    have hzero : exponent = 0 := BitVec.eq_of_toNat_eq hexponent
    have hmantissa : (BitVec.ofNat 52 m).toNat = m := by
      rw [BitVec.toNat_ofNat, Nat.mod_eq_of_lt (by omega)]
    rw [unpack_subnormal (hfield.trans hzero), unpackSign_packComponents, ofBitVec_toBitVec,
      unpackMantissa_packComponents]
    congr 1

theorem neg_ofMantissa (sign : Sign) (m : Nat) (e : Int) :
    (ofMantissa sign m e).neg = ofMantissa (-sign) m e := by
  unfold ofMantissa
  split_ifs <;> rfl

/-- The opposite of a double is one. -/
theorem IsDouble.neg {f : UnpackedFloat} (h : IsDouble f) : IsDouble f.neg := by
  cases h with
  | undefined => exact .undefined
  | infinity sign => exact .infinity (-sign)
  | finite sign hm he => exact neg_ofMantissa sign _ _ ▸ .finite (-sign) hm he

/-- **A DOUBLE IS PACKED AS IT IS.** -/
theorem IsDouble.packed_eq {f : UnpackedFloat} (h : IsDouble f) : packed f = f := by
  cases h with
  | undefined => rfl
  | infinity sign => cases sign <;> rfl
  | finite sign hm he => exact packed_canonical hm he sign

/-- A mantissa of 53 bits is one that doubles have. -/
theorem canonical_of_log2 (hm : m.log2 = 52) (hleast : -1074 ≤ e) : Canonical m e := by
  have hpos : m ≠ 0 := (pos_of_log2 hm).ne'
  have hlow := Nat.log2_self_le hpos
  have hhigh : m < 2 ^ (m.log2 + 1) := Nat.lt_log2_self
  rw [hm] at hlow hhigh
  exact ⟨hleast, hhigh, fun _ => hlow⟩

end PlotLisp.Binary64
