/-
  PlotLisp.Proofs.Number.Nearest
  ──────────────────────────────────────
  **THE DOUBLE NEAREST TO A NUMBER.**

  Rounding to nearest as IEEE 754 has it, ties to even, said of the rationals
  that bit patterns denote and not of any algorithm:

    • `HasBits r` — what doubles could denote if their exponents had no upper
      end: whole multiples of a power of two, of 53 bits and no place below
      `2 ^ -1074`;
    • `IsNearestBits v r` — none of these is nearer to `v` than `r`, and of two
      equally near ones `r` is the even one;
    • `IsNearestDouble negative v x` — `x` denotes that number, or is an infinity
      if the number is `2 ^ 1024` or more.  The sign is given apart from the
      distance from zero, since a zero has one too.

  One double is nearest to a number (`IsNearestDouble.unique`).
-/
import Mathlib.Algebra.Order.Field.Power
import Mathlib.Algebra.Order.Ring.Abs
import Mathlib.Data.Rat.Cast.Order
import Mathlib.Tactic.Linarith
import Mathlib.Tactic.Positivity
import Mathlib.Tactic.Ring
import PlotLisp.Number.Binary

namespace PlotLisp

/-! ## §1. Numbers of 53 bits. -/

/-- A number of at most 53 bits that has no place below the last one of the subnormals. -/
def HasBits (r : Rat) : Prop :=
  ∃ (m : Nat) (e : Int), m < 2 ^ 53 ∧ -1074 ≤ e ∧ r = Binary.magnitude m e

/-- No number of 53 bits is nearer to `v` than `r`.  Where one is as near, the two differ by one
in some place, and there the last bit of `r` is even. -/
structure IsNearestBits (v r : Rat) : Prop where
  hasBits : HasBits r
  nearest : ∀ r', HasBits r' → |v - r| ≤ |v - r'|
  even : ∀ r', HasBits r' → r' ≠ r → |v - r'| = |v - r| →
    ∃ (m : Nat) (e : Int), Even m ∧ r = Binary.magnitude m e ∧ |r - r'| = (2 : Rat) ^ e

/-- Of two numbers that differ by one in a place, one is odd there. -/
theorem not_even_of_gap {b r r' : Rat} (hb : 1 < b) {n n' j j' : Int} (hr : r = n * b ^ j)
    (hr' : r' = n' * b ^ j') (hgap : |r - r'| = b ^ j) (hgap' : |r' - r| = b ^ j')
    (hn : Even n) : ¬ Even n' := by
  intro hn'
  have hplace : j' = j := by
    rw [abs_sub_comm, hgap] at hgap'
    exact (zpow_right_injective₀ (by linarith) hb.ne' hgap').symm
  subst hplace
  have hpow : (0 : Rat) < b ^ j' := zpow_pos (by linarith) _
  have hone : |((n - n' : Int) : Rat)| = 1 := by
    have hdiff : r - r' = ((n - n' : Int) : Rat) * b ^ j' := by
      rw [hr, hr']
      push_cast
      ring
    rw [hdiff, abs_mul, abs_of_pos hpow] at hgap
    exact mul_right_cancel₀ hpow.ne' (hgap.trans (one_mul _).symm)
  have hone' : |n - n'| = 1 := mod_cast hone
  obtain ⟨a, ha⟩ := hn
  obtain ⟨b, hb⟩ := hn'
  rcases abs_cases (n - n') with ⟨h1, -⟩ | ⟨h1, -⟩ <;> omega

/-- Two numbers of 53 bits cannot both be the even one. -/
theorem IsNearestBits.unique {v r r' : Rat} (h : IsNearestBits v r) (h' : IsNearestBits v r') :
    r' = r := by
  by_contra hne
  have htie : |v - r'| = |v - r| :=
    le_antisymm (h'.nearest r h.hasBits) (h.nearest r' h'.hasBits)
  obtain ⟨m, e, hm, hr, hgap⟩ := h.even r' h'.hasBits hne htie
  obtain ⟨m', e', hm', hr', hgap'⟩ := h'.even r h.hasBits (Ne.symm hne) htie.symm
  have hvalue : r = ((m : Int) : Rat) * 2 ^ e := by exact_mod_cast hr
  have hvalue' : r' = ((m' : Int) : Rat) * 2 ^ e' := by exact_mod_cast hr'
  exact not_even_of_gap (by norm_num) hvalue hvalue' hgap hgap' (by exact_mod_cast hm)
    (by exact_mod_cast hm')

/-! ## §2. The nearest double. -/

/-- The double nearest to the number with this sign and this distance from zero. -/
inductive IsNearestDouble (negative : Bool) (v : Rat) (x : Float) : Prop where
  | finite {m e} : Binary.ofFloat x = .finite negative m e →
      IsNearestBits v (Binary.magnitude m e) → IsNearestDouble negative v x
  /-- Beyond the largest double. -/
  | overflow {r} : Binary.ofFloat x = .infinite negative → IsNearestBits v r →
      (2 : Rat) ^ (1024 : Int) ≤ r → IsNearestDouble negative v x

namespace Binary

/-- A mantissa and an exponent as doubles have them: only at the least exponent may the leading
bit be missing. -/
structure Canonical (m : Nat) (e : Int) : Prop where
  least : -1074 ≤ e
  lt : m < 2 ^ 53
  leading : -1074 < e → 2 ^ 52 ≤ m

variable {m m' : Nat} {e e' : Int}

theorem Canonical.hasBits (h : Canonical m e) : HasBits (magnitude m e) :=
  ⟨m, e, h.lt, h.least, rfl⟩

/-- A larger exponent makes a larger number. -/
theorem Canonical.magnitude_lt (h : Canonical m e) (h' : Canonical m' e') (hlt : e < e') :
    magnitude m e < magnitude m' e' := by
  have hm : (m : Rat) < 2 ^ 53 := mod_cast h.lt
  have hm' : (2 : Rat) ^ 52 ≤ m' := mod_cast h'.leading (by have := h.least; omega)
  calc (m : Rat) * 2 ^ e < 2 ^ 53 * 2 ^ e := by gcongr
    _ = 2 ^ 52 * (2 : Rat) ^ (e + 1) := by
      rw [zpow_add_one₀ (by norm_num)]
      ring
    _ ≤ m' * (2 : Rat) ^ e' := by
      gcongr
      · norm_num
      · omega

/-- A number has one mantissa and one exponent. -/
theorem Canonical.magnitude_inj (h : Canonical m e) (h' : Canonical m' e')
    (heq : magnitude m e = magnitude m' e') : m = m' ∧ e = e' := by
  rcases lt_trichotomy e e' with hlt | rfl | hlt
  · exact absurd heq (h.magnitude_lt h' hlt).ne
  · have hpow : (2 : Rat) ^ e ≠ 0 := by positivity
    exact ⟨by exact_mod_cast mul_right_cancel₀ hpow heq, rfl⟩
  · exact absurd heq (h'.magnitude_lt h hlt).ne'

theorem two_pow_mul_zpow (k : Nat) (e : Int) : (2 : Rat) ^ k * 2 ^ e = 2 ^ ((k : Int) + e) := by
  rw [← zpow_natCast, zpow_add₀ (by norm_num)]

/-- The numbers below `2 ^ 1024` are those with an exponent that doubles have. -/
theorem Canonical.magnitude_lt_iff (h : Canonical m e) :
    magnitude m e < (2 : Rat) ^ (1024 : Int) ↔ e ≤ 971 := by
  constructor
  · intro hlt
    by_contra hmore
    have hm : (2 : Rat) ^ 52 ≤ m := mod_cast h.leading (by omega)
    refine hlt.not_ge ?_
    calc (2 : Rat) ^ (1024 : Int) ≤ (2 : Rat) ^ (((52 : Nat) : Int) + e) :=
          zpow_le_zpow_right₀ (by norm_num) (by omega)
      _ = 2 ^ 52 * (2 : Rat) ^ e := (two_pow_mul_zpow 52 e).symm
      _ ≤ m * (2 : Rat) ^ e := by gcongr
  · intro hle
    have hm : (m : Rat) < 2 ^ 53 := mod_cast h.lt
    calc (m : Rat) * 2 ^ e < 2 ^ 53 * 2 ^ e := by gcongr
      _ = (2 : Rat) ^ (((53 : Nat) : Int) + e) := two_pow_mul_zpow 53 e
      _ ≤ (2 : Rat) ^ (1024 : Int) := zpow_le_zpow_right₀ (by norm_num) (by omega)

/-! ## §3. What doubles denote. -/

variable {negative negative' : Bool} {biased fraction : Nat}

/-- The mantissa and exponent of a finite double. -/
theorem canonical_of_ofFields (hbiased : biased < 2 ^ 11) (hfraction : fraction < 2 ^ 52)
    (h : ofFields negative biased fraction = .finite negative' m e) : Canonical m e ∧ e ≤ 971 := by
  unfold ofFields fractionBits leastExponent at h
  rw [Nat.pow_eq] at h
  split_ifs at h <;> injection h with _ hm he <;> subst hm he <;>
    exact ⟨⟨by omega, by omega, by omega⟩, by omega⟩

/-- The fields of a double that is defined can be told from what it denotes. -/
theorem ofFields_inj {biased' fraction' : Nat} (hfraction : fraction < 2 ^ 52)
    (hfraction' : fraction' < 2 ^ 52)
    (h : ofFields negative biased fraction = ofFields negative' biased' fraction')
    (hdefined : ofFields negative biased fraction ≠ .nan) :
    negative = negative' ∧ biased = biased' ∧ fraction = fraction' := by
  unfold ofFields fractionBits leastExponent at h hdefined
  rw [Nat.pow_eq] at h hdefined
  split_ifs at h hdefined <;> grind

/-- A double is given by its fields. -/
theorem toBits_inj {x y : Float} (h : x.toBits = y.toBits) : x = y := by
  obtain ⟨⟨a, ha⟩⟩ := x
  obtain ⟨⟨b, hb⟩⟩ := y
  obtain rfl : a = b := h
  rfl

/-- Two doubles that denote the same are the same, unless they are undefined. -/
theorem ofFloat_inj {x y : Float} (h : ofFloat x = ofFloat y) (hdefined : ofFloat x ≠ .nan) :
    x = y := by
  simp only [ofFloat, fractionBits, Nat.pow_eq] at h hdefined
  obtain ⟨hnegative, hbiased, hfraction⟩ := ofFields_inj (Nat.mod_lt _ (by norm_num))
    (Nat.mod_lt _ (by norm_num)) h hdefined
  have hx : x.toBits.toNat < 2 ^ 64 := x.toBits.toNat_lt
  have hy : y.toBits.toNat < 2 ^ 64 := y.toBits.toNat_lt
  refine toBits_inj (UInt64.toNat_inj.mp ?_)
  have hsign : x.toBits.toNat / 2 ^ 63 = 1 ↔ y.toBits.toNat / 2 ^ 63 = 1 := by
    simpa using hnegative
  omega

/-- What a finite double denotes has a mantissa and an exponent as doubles have them. -/
theorem canonical_of_ofFloat {x : Float} (h : ofFloat x = .finite negative m e) :
    Canonical m e ∧ e ≤ 971 := by
  simp only [ofFloat, fractionBits, Nat.pow_eq] at h
  exact canonical_of_ofFields (Nat.mod_lt _ (by norm_num)) (Nat.mod_lt _ (by norm_num)) h

end Binary

/-- **ONE DOUBLE IS NEAREST**, its sign included. -/
theorem IsNearestDouble.unique {negative : Bool} {v : Rat} {x y : Float}
    (hx : IsNearestDouble negative v x) (hy : IsNearestDouble negative v y) : x = y := by
  -- below the bound and from it on
  have hclash {x y : Float} {m e r} (hx : Binary.ofFloat x = .finite negative m e)
      (hm : IsNearestBits v (Binary.magnitude m e)) (hr : IsNearestBits v r)
      (hlarge : (2 : Rat) ^ (1024 : Int) ≤ r) : x = y := by
    obtain ⟨hcanonical, hle⟩ := Binary.canonical_of_ofFloat hx
    exact absurd (hm.unique hr ▸ hcanonical.magnitude_lt_iff.mpr hle) hlarge.not_gt
  cases hx with
  | finite hx hm =>
    cases hy with
    | finite hy hm' =>
      obtain ⟨rfl, rfl⟩ := (Binary.canonical_of_ofFloat hx).1.magnitude_inj
        (Binary.canonical_of_ofFloat hy).1 (hm'.unique hm)
      exact Binary.ofFloat_inj (hx.trans hy.symm) (by simp [hx])
    | overflow _ hr hlarge => exact hclash hx hm hr hlarge
  | overflow hx hr hlarge =>
    cases hy with
    | finite hy hm => exact (hclash hy hm hr hlarge).symm
    | overflow hy _ _ => exact Binary.ofFloat_inj (hx.trans hy.symm) (by simp [hx])

end PlotLisp
