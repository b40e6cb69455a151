/-
  PlotLisp.Proofs.Number.Closeness
  ──────────────────────────────────────
  **CLOSENESS OF DOUBLES.**

  Two doubles are close when they are equal or at most one `epsilon` apart:

    • `beq_comm`, `abs_sub_comm` — neither equality nor the distance asks which
      double comes first.  A difference and its opposite are rounded alike, since
      the sign of what is rounded or packed only decides the sign of the result;
    • `beq_self` — a double is equal to itself unless it is undefined.  This
      covers the infinities, whose distance from themselves is undefined;
    • `Atom.close_comm`, `Atom.close_self` — the same of closeness.
-/
import PlotLisp.Expr.Atom
import PlotLisp.Proofs.Number.Finite

namespace PlotLisp

open Float.Model Float.Model.UnpackedFloat

namespace Binary64

/-! ## §1. Comparing doubles. -/

theorem beq_eq (x y : Float) : (x == y) = (unpacked x).beq (unpacked y) := rfl

theorem le_iff (x y : Float) : x ≤ y ↔ (unpacked x).le (unpacked y) = true := decide_eq_true_iff

theorem isNaN_eq (x : Float) : x.isNaN = (unpacked x).isNaN := rfl

/-- All NaNs are unpacked to the same one, whatever their payload. -/
theorem unpacked_of_isNaN {x : Float} (h : x.isNaN = true) : unpacked x = .notANumber := by
  rw [isNaN_eq] at h
  cases hx : unpacked x with
  | notANumber => rfl
  | _ => rw [hx] at h; cases h

/-- Infinities are defined. -/
theorem isNaN_of_isInf {x : Float} (h : x.isInf = true) : x.isNaN = false := by
  rw [isInf_eq] at h
  rw [isNaN_eq]
  cases hx : unpacked x with
  | infinity sign => rfl
  | _ => rw [hx] at h; cases h

/-- Compared the other way round, two numbers compare the other way round. -/
theorem compare_swap (u v : UnpackedFloat) : u.compare v = (v.compare u).map Ordering.swap := by
  have hfinite (e e' : Int) (m m' : Nat) : (compare e e').then (compare m m')
      = ((compare e' e).then (compare m' m)).swap := by
    rw [Ordering.swap_then, ← Std.OrientedCmp.eq_swap, ← Std.OrientedCmp.eq_swap]
  -- what they are decides it, except for two finite numbers of one sign
  rcases u with (_ | _) | _ | (_ | _) | ⟨_ | _, m, e, hm⟩ <;>
    rcases v with (_ | _) | _ | (_ | _) | ⟨_ | _, m', e', hm'⟩ <;> try rfl
  · exact congrArg (some ·.swap) (hfinite e e' m m')
  · exact congrArg some (hfinite e e' m m')

/-- Equality of doubles is symmetric, though it is not reflexive. -/
theorem beq_comm (x y : Float) : (x == y) = (y == x) := by
  rw [beq_eq, beq_eq, UnpackedFloat.beq, UnpackedFloat.beq, compare_swap]
  rcases (unpacked y).compare (unpacked x) with _ | _ | _ | _ <;> rfl

/-- A double is equal to itself unless it is undefined. -/
theorem beq_self (x : Float) : (x == x) = !x.isNaN := by
  have hfinite (e : Int) (m : Nat) : (compare e e).then (compare m m) = .eq := by simp
  rw [beq_eq, isNaN_eq, UnpackedFloat.beq]
  rcases unpacked x with (_ | _) | _ | (_ | _) | ⟨_ | _, m, e, hm⟩ <;> try rfl
  · exact congrArg (some ·.swap == some .eq) (hfinite e m)
  · exact congrArg (some · == some .eq) (hfinite e m)

/-! ## §2. Signs. -/

/-- Subtraction is exact subtraction followed by one rounding. -/
theorem unpacked_sub (x y : Float) :
    unpacked (x - y) = packed (UnpackedFloat.sub format (unpacked x) (unpacked y)) := rfl

theorem unpacked_abs (x : Float) : unpacked x.abs = packed (unpacked x).abs := rfl

/-- Rounding does not look at the sign: half to even goes both ways alike. -/
theorem abs_round (sign : Sign) (m : Nat) (e : Int) :
    (UnpackedFloat.round format sign m e).abs = (UnpackedFloat.round format .positive m e).abs := by
  unfold UnpackedFloat.round roundWithAccuracy
  dsimp only
  split <;> rfl

/-- Nor does the rounding of an exact difference that changes its sign. -/
theorem abs_normalize_neg (m e : Int) :
    (UnpackedFloat.normalize format (-m) e .positive).abs
      = (UnpackedFloat.normalize format m e .positive).abs := by
  unfold UnpackedFloat.normalize
  rcases Int.lt_trichotomy m 0 with h | rfl | h
  · rw [Int.compare_eq_lt.mpr h, Int.compare_eq_gt.mpr (by omega)]
    exact (abs_round .negative _ e).symm
  · rfl
  · rw [Int.compare_eq_gt.mpr h, Int.compare_eq_lt.mpr (by omega), Int.neg_neg]
    exact abs_round .negative _ e

/-- The two differences of two numbers are equally far from zero. -/
theorem abs_sub_swap (u v : UnpackedFloat) :
    (UnpackedFloat.sub format u v).abs = (UnpackedFloat.sub format v u).abs := by
  -- only the difference of two finite numbers is computed
  rcases u with (_ | _) | _ | (_ | _) | ⟨s, m, e, hm⟩ <;>
    rcases v with (_ | _) | _ | (_ | _) | ⟨s', m', e', hm'⟩ <;> try rfl
  unfold UnpackedFloat.sub
  dsimp only
  rw [min_comm e' e, ← abs_normalize_neg, Int.neg_sub]

/-- The sign bit is read apart from the other fields. -/
theorem abs_unpack_packComponents (spec : Format) (sign : Sign) (e : BitVec spec.exponentBits)
    (m : BitVec spec.mantissaBitsWithoutImplicit) :
    (UnpackedFloat.unpack spec (packComponents spec sign e m)).abs
      = (UnpackedFloat.unpack spec (packComponents spec .positive e m)).abs := by
  unfold UnpackedFloat.unpack
  simp only [unpackExponent_packComponents, unpackMantissa_packComponents]
  split_ifs <;> rfl

/-- Packing commutes with the absolute value: overflow and underflow are alike on both sides. -/
theorem abs_unpack_pack (spec : Format) (u : UnpackedFloat) :
    (UnpackedFloat.unpack spec (UnpackedFloat.pack spec u)).abs
      = (UnpackedFloat.unpack spec (UnpackedFloat.pack spec u.abs)).abs := by
  cases u with
  | notANumber => rfl
  | infinity sign => exact abs_unpack_packComponents spec sign _ _
  | zero sign => exact abs_unpack_packComponents spec sign _ _
  | finite sign m e hm =>
    show (UnpackedFloat.unpack spec (UnpackedFloat.pack spec (.finite sign m e hm))).abs
      = (UnpackedFloat.unpack spec (UnpackedFloat.pack spec (.finite .positive m e hm))).abs
    simp only [UnpackedFloat.pack]
    split_ifs
    · -- too large
      exact abs_unpack_packComponents spec sign _ _
    · exact abs_unpack_packComponents spec sign _ _
    · exact abs_unpack_packComponents spec sign _ _

/-! ## §3. Distances. -/

/-- The distance of two doubles is symmetric, infinities and NaN included. -/
theorem abs_sub_comm (x y : Float) : (x - y).abs = (y - x).abs := by
  have hpacked (u v : UnpackedFloat) (h : u.abs = v.abs) : (packed u).abs = (packed v).abs := by
    unfold packed
    rw [abs_unpack_pack, abs_unpack_pack _ v, h]
  have h := hpacked _ _ (abs_sub_swap (unpacked x) (unpacked y))
  exact congrArg (fun u => Float.ofModel (.pack u)) h

theorem packed_notANumber : packed .notANumber = .notANumber := by rfl

/-- An undefined number is at no distance from itself. -/
theorem not_abs_sub_self_le {x : Float} (h : x.isNaN = true) (y : Float) :
    ¬ (x - x).abs ≤ y := by
  have hdistance : unpacked (x - x).abs = .notANumber := by
    rw [unpacked_abs, unpacked_sub, unpacked_of_isNaN h]
    show packed (packed .notANumber).abs = _
    rw [packed_notANumber]
    exact packed_notANumber
  rw [le_iff, hdistance]
  exact Bool.false_ne_true

end Binary64

/-! ## §4. Closeness. -/

namespace Atom

/-- The tolerance that numbers are compared with does not prefer a side. -/
theorem close_comm (x y : Float) : close x y = close y x := by
  unfold close
  rw [Binary64.beq_comm, Binary64.abs_sub_comm]

/-- A double is close to itself unless it is undefined. -/
theorem close_self (x : Float) : close x x = !x.isNaN := by
  unfold close
  rw [Binary64.beq_self]
  cases hx : x.isNaN with
  | false => rfl
  | true => exact decide_eq_false (Binary64.not_abs_sub_self_le hx _)

end Atom

end PlotLisp
