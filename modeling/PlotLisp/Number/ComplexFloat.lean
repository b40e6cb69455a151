/-
  PlotLisp.Number.ComplexFloat
  ──────────────────────────────────────
  **COMPLEX NUMBERS OF DOUBLES.**

  Rectangular complex arithmetic with every operation spelled out in the
  order in which its roundings happen; nothing is fused or reassociated.

    • `norm` is the length without intermediate overflow or underflow;
    • `exp` decides the infinite and undefined real parts before the general
      formula `e ^ a · (cos b + i sin b)`;
    • `sqrt` keeps the sign of a zero imaginary part on both axes;
    • `pow z w` is `exp (w · ln z)`, except that the power zero gives one.
-/

namespace PlotLisp

/-- `re + im · i`. -/
structure ComplexFloat where
  re : Float
  im : Float
deriving DecidableEq, Repr, Inhabited

namespace ComplexFloat

/-! ## §1. The four operations. -/

/-- A real number on the real axis. -/
def ofReal (x : Float) : ComplexFloat := ⟨x, 0.0⟩

/-- The imaginary unit. -/
def unit : ComplexFloat := ⟨0.0, 1.0⟩

/-- The conjugate. -/
def conj (z : ComplexFloat) : ComplexFloat := ⟨z.re, -z.im⟩

instance : Neg ComplexFloat := ⟨fun z => ⟨-z.re, -z.im⟩⟩

instance : Add ComplexFloat := ⟨fun z w => ⟨z.re + w.re, z.im + w.im⟩⟩

instance : Sub ComplexFloat := ⟨fun z w => ⟨z.re - w.re, z.im - w.im⟩⟩

instance : Mul ComplexFloat :=
  ⟨fun z w => ⟨z.re * w.re - z.im * w.im, z.re * w.im + z.im * w.re⟩⟩

/-- The quotient, through the squared length of the divisor. -/
def quotient (z w : ComplexFloat) : ComplexFloat :=
  let square := w.re * w.re + w.im * w.im
  ⟨(z.re * w.re + z.im * w.im) / square, (z.im * w.re - z.re * w.im) / square⟩

instance : Div ComplexFloat := ⟨quotient⟩

/-! ## §2. Length and angle. -/

/-- The hypotenuse over `long ≥ short ≥ 0` of moderate size: the root of the
sum of squares, then the root's own residue taken off once. -/
def correctedRoot (long short : Float) : Float :=
  let h := Float.sqrt (long * long + short * short)
  let residue :=
    if h ≤ 2.0 * short then
      -- legs of similar length: expand around the shorter one
      let d := h - short
      long * (2.0 * d - long) + (d - 2.0 * (long - short)) * d
    else
      -- otherwise around the longer one
      let d := h - long
      2.0 * d * (long - 2.0 * short) + ((4.0 * d - short) * short + d * d)
  h - residue / (2.0 * h)

/-- The hypotenuse over `long ≥ short ≥ 0`.  A leg below half a place of the
other only nudges it; very long and very short legs are scaled by `2 ^ 600`
so that no square overflows or vanishes. -/
def hypotenuse (long short : Float) : Float :=
  let scale : Float := Float.ofNat (Nat.pow 2 600)
  let place : Float := 1.0 / Float.ofNat (Nat.pow 2 54)
  if short ≤ long * place then long + short
  else if Float.ofNat (Nat.pow 2 511) < long then
    correctedRoot (long / scale) (short / scale) * scale
  else if short < 1.0 / Float.ofNat (Nat.pow 2 459) then
    correctedRoot (long * scale) (short * scale) / scale
  else correctedRoot long short

/-- The distance from zero; infinite as soon as one part is. -/
def norm (z : ComplexFloat) : Float :=
  if z.re.isInf || z.im.isInf then 1.0 / 0.0
  else if z.re.isNaN || z.im.isNaN then z.re + z.im
  else
    let x := z.re.abs
    let y := z.im.abs
    if x < y then hypotenuse y x else hypotenuse x y

/-- The angle from the positive real axis. -/
def arg (z : ComplexFloat) : Float := Float.atan2 z.im z.re

/-- The number with this length and angle. -/
def ofPolar (length angle : Float) : ComplexFloat :=
  ⟨length * Float.cos angle, length * Float.sin angle⟩

/-! ## §3. Powers, roots and logarithms. -/

/-- The principal natural logarithm. -/
def ln (z : ComplexFloat) : ComplexFloat := ⟨Float.log z.norm, z.arg⟩

/-- Is the sign bit set?  This tells `-0` from `0`. -/
def signBit (x : Float) : Bool := x.toBits.toNat / Nat.pow 2 63 == 1

/-- The exponential function. -/
def exp (z : ComplexFloat) : ComplexFloat :=
  -- no length at all, so the undefined angle does not matter
  if z.re.isInf && z.re < 0.0 && !z.im.isFinite then ⟨0.0, 0.0⟩
  -- an infinite length at an angle of zero or at none
  else if z.re.isInf && 0.0 < z.re && (z.im == 0.0 || !z.im.isFinite) then
    ⟨z.re, if z.im.isInf then 0.0 / 0.0 else z.im⟩
  else if z.re.isNaN && z.im == 0.0 then z
  else ofPolar (Float.exp z.re) z.im

/-- `z` to the power `w`. -/
def pow (z w : ComplexFloat) : ComplexFloat :=
  if w.re == 0.0 && w.im == 0.0 then ⟨1.0, 0.0⟩ else exp (w * z.ln)

/-- The principal square root. -/
def sqrt (z : ComplexFloat) : ComplexFloat :=
  if z.im == 0.0 then
    -- on the real axis; the zero keeps its sign
    if !signBit z.re then ⟨Float.sqrt z.re, z.im⟩
    else
      let root := Float.sqrt (-z.re)
      ⟨0.0, if signBit z.im then -root else root⟩
  else if z.re == 0.0 then
    -- on the imaginary axis
    let x := Float.sqrt (z.im.abs / 2.0)
    ⟨x, if signBit z.im then -x else x⟩
  else ofPolar (Float.sqrt z.norm) (z.arg / 2.0)

/-! ## §4. Trigonometry. -/

/-- Sine. -/
def sin (z : ComplexFloat) : ComplexFloat :=
  ⟨Float.sin z.re * Float.cosh z.im, Float.cos z.re * Float.sinh z.im⟩

/-- Cosine. -/
def cos (z : ComplexFloat) : ComplexFloat :=
  ⟨Float.cos z.re * Float.cosh z.im, -Float.sin z.re * Float.sinh z.im⟩

/-- Tangent, through the doubled angle. -/
def tan (z : ComplexFloat) : ComplexFloat :=
  let x := z.re + z.re
  let y := z.im + z.im
  let scale := Float.cos x + Float.cosh y
  ⟨Float.sin x / scale, Float.sinh y / scale⟩

end ComplexFloat

end PlotLisp
