/-
  PlotLisp.Procedure.Arithmetic
  ──────────────────────────────────────
  **ARITHMETIC.**

  Each procedure takes a fixed range of argument counts and works on real
  operands or on complex ones:

    • `+` folds from `-0`, which leaves the sum of a lone `-0` as it is, and
      `*` from one;
    • `-` and `/` of one argument negate and invert, but the inverse of a
      complex number is its conjugate;
    • the root of a negative real is imaginary.
-/
import PlotLisp.Procedure.Basic
import PlotLisp.Procedure.Arguments

namespace PlotLisp

/-! ## §1. Arithmetic procedures. -/

namespace Arithmetic

/-- The counts of arguments that a procedure takes. -/
def arity : Arithmetic → ArgCount
  | .add => .atLeast 1
  | .multiply => .any
  | .subtract | .divide => .between 1 2
  | .power => .exactly 2
  | .root | .logarithm | .sine | .cosine | .tangent => .exactly 1

/-- The root of a real number; that of a negative one is imaginary. -/
def rootOfReal (x : Float) : Atom :=
  if x < 0.0 then .complex ⟨0.0, Float.sqrt (-x)⟩ else .number (Float.sqrt x)

/-- The result on real operands of a count that the procedure takes. -/
def onReals : Arithmetic → List Float → Option Atom
  | .add, xs => some (.number (xs.foldl (· + ·) (-0.0)))
  | .multiply, xs => some (.number (xs.foldl (· * ·) 1.0))
  | .subtract, [x] => some (.number (-x))
  | .subtract, [x, y] => some (.number (x - y))
  | .divide, [x] => some (.number (1.0 / x))
  | .divide, [x, y] => some (.number (x / y))
  | .power, [x, y] => some (.number (Float.pow x y))
  | .root, [x] => some (rootOfReal x)
  | .logarithm, [x] => some (.number (Float.log x))
  | .sine, [x] => some (.number (Float.sin x))
  | .cosine, [x] => some (.number (Float.cos x))
  | .tangent, [x] => some (.number (Float.tan x))
  | _, _ => none

/-- The result on complex operands of a count that the procedure takes. -/
def onComplexes : Arithmetic → List ComplexFloat → Option ComplexFloat
  | .add, zs => some (zs.foldl (· + ·) ⟨0.0, 0.0⟩)
  | .multiply, zs => some (zs.foldl (· * ·) ⟨1.0, 0.0⟩)
  | .subtract, [z] => some (-z)
  | .subtract, [z, w] => some (z - w)
  | .divide, [z] => some z.conj
  | .divide, [z, w] => some (z / w)
  | .power, [z, w] => some (z.pow w)
  | .root, [z] => some z.sqrt
  | .logarithm, [z] => some z.ln
  | .sine, [z] => some z.sin
  | .cosine, [z] => some z.cos
  | .tangent, [z] => some z.tan
  | _, _ => none

/-- The result on operands of one kind. -/
def onOperands (operation : Arithmetic) : Operands → Option Atom
  | .real xs => operation.onReals xs
  | .complex zs => (operation.onComplexes zs).map .complex

/-- Apply the procedure to evaluated arguments. -/
def run (operation : Arithmetic) (args : List Expr) : Except Fault Expr := do
  requireCount operation.name operation.arity args.length
  match operation.onOperands (← Operands.ofArguments operation.name args) with
  | some result => return .atom result
  | none => throw (runtime.fault (.argument operation.name operation.arity args.length))

end Arithmetic

/-! ## §2. Parts of complex numbers. -/

namespace ComplexPart

/-- The part of a number. -/
def ofComplex (which : ComplexPart) (z : ComplexFloat) : Atom :=
  match which with
  | .real => .number z.re
  | .imaginary => .number z.im
  | .magnitude => .number z.norm
  | .angle => .number z.arg
  | .conjugate => .complex z.conj

/-- Apply the procedure to evaluated arguments. -/
def run (which : ComplexPart) (args : List Expr) : Except Fault Expr :=
  match args with
  | [e] => (e.asComplex which.name).map fun z => .atom (which.ofComplex z)
  | _ => .error (runtime.fault (.argument which.name (.exactly 1) args.length))

end ComplexPart

end PlotLisp
