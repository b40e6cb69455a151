/-
  PlotLisp.Number.Scalar
  ──────────────────────────────────────
  **COORDINATE ARITHMETIC.**

  Grids, bounding boxes and scenes are computed by the same definitions
  over two kinds of number:

    • `Float` — what a running program computes with;
    • `Rat`   — the exact arithmetic in which the geometry is reasoned about.

  `Scalar` is what those definitions ask of a number: the four operations,
  a decidable order, and a floor.
-/

namespace PlotLisp

/-! ## §1. The class. -/

/-- A number that coordinates can be made of. -/
class Scalar (K : Type) extends
    Add K, Sub K, Mul K, Div K, Neg K, LE K, LT K, NatCast K where
  /-- The order is decided by evaluation. -/
  decideLe : ∀ a b : K, Decidable (a ≤ b)
  /-- So is the strict order. -/
  decideLt : ∀ a b : K, Decidable (a < b)
  /-- Neither an infinity nor undefined. -/
  isFinite : K → Bool
  /-- The greatest whole number not above the argument. -/
  floor : K → K
  /-- A whole number that is not negative, as a count. -/
  toNat : K → Nat

namespace Scalar

variable {K : Type} [Scalar K]

instance (a b : K) : Decidable (a ≤ b) := decideLe a b

instance (a b : K) : Decidable (a < b) := decideLt a b

/-! ## §2. Extremes. -/

/-- The smaller of two numbers; the first of equal ones, and the other one
when one of them is undefined (an undefined number is not even `≤` itself). -/
def lesser (a b : K) : K :=
  if b < a then b else if a ≤ a then a else b

/-- The greater of two numbers, with the same preferences as `lesser`. -/
def greater (a b : K) : K :=
  if a < b then b else if a ≤ a then a else b

/-- The distance from zero. -/
def magnitude (a : K) : K :=
  if a < ((0 : Nat) : K) then -a else a

/-- The relative spacing of doubles at one, `2⁻⁵²`. -/
def epsilon : K := ((1 : Nat) : K) / ((Nat.pow 2 52 : Nat) : K)

/-- The square root of `epsilon`, `2⁻²⁶`. -/
def rootEpsilon : K := ((1 : Nat) : K) / ((Nat.pow 2 26 : Nat) : K)

end Scalar

/-! ## §3. The two kinds of number. -/

/-- Whole numbers as doubles, rounded to the nearest one. -/
instance natCastFloat : NatCast Float := ⟨Float.ofNat⟩

instance : Scalar Float where
  decideLe := Float.decLe
  decideLt := Float.decLt
  isFinite := Float.isFinite
  floor := Float.floor
  toNat x := x.toUInt64.toNat

instance : Scalar Rat where
  decideLe := fun a b => inferInstanceAs (Decidable (a ≤ b))
  decideLt := fun a b => inferInstanceAs (Decidable (a < b))
  isFinite _ := true
  floor x := (x.floor : Rat)
  toNat x := x.floor.toNat

end PlotLisp
