/-
  PlotLisp.Expr.Atom
  ──────────────────────────────────────
  **ATOMS.**

  The indivisible values that head every expression: nothing at all, a real
  or complex number, a symbol, or a string.

    • `Atom.text` prints an atom, numbers with six significant digits;
    • `Atom.same` compares atoms, numbers up to one `epsilon`, so that a
      rounded result such as `tan (π / 4)` still equals `1`.
-/
import PlotLisp.Number.Scalar
import PlotLisp.Number.ComplexFloat
import PlotLisp.Number.Significant

namespace PlotLisp

/-! ## §1. The type. -/

/-- An indivisible value. -/
inductive Atom where
  | none
  | number (value : Float)
  | complex (value : ComplexFloat)
  | symbol (name : String)
  | string (contents : String)
deriving DecidableEq, Repr, Inhabited

namespace Atom

/-- The kind of value, as type errors name it. -/
def typeName : Atom → String
  | .none => "none"
  | .number _ => "number"
  | .complex _ => "complex"
  | .symbol _ => "symbol"
  | .string _ => "string"

/-- Does the atom evaluate to itself wherever it stands as a leaf? -/
def isLiteral : Atom → Bool
  | .number _ | .complex _ | .string _ => true
  | .none | .symbol _ => false

/-- The name of a symbol. -/
def symbol? : Atom → Option String
  | .symbol name => some name
  | _ => Option.none

/-! ## §2. Printing. -/

/-- The significant digits of a printed number. -/
def printedDigits : Nat := 6

/-- A number as programs see it printed. -/
def numberText (x : Float) : String := significantText x printedDigits

/-- The printed atom. -/
def text : Atom → String
  | .none => "NONE"
  | .number x => numberText x
  | .complex z => "(" ++ numberText z.re ++ "," ++ numberText z.im ++ ")"
  | .symbol name => name
  | .string contents => "\"" ++ contents ++ "\""

/-! ## §3. Sameness. -/

/-- Equal, or at most one `epsilon` apart.  Infinities of one sign are equal; an
undefined number is close to nothing. -/
def close (x y : Float) : Bool :=
  x == y || (x - y).abs ≤ Scalar.epsilon

/-- The equality that programs' values are compared by. -/
def same : Atom → Atom → Bool
  | .none, .none => true
  | .number x, .number y => close x y
  | .complex z, .complex w => close z.re w.re && close z.im w.im
  | .symbol a, .symbol b => a == b
  | .string a, .string b => a == b
  | _, _ => false

end Atom

end PlotLisp
