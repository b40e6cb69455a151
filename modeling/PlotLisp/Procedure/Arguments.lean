/-
  PlotLisp.Procedure.Arguments
  ──────────────────────────────────────
  **CHECKED ARGUMENTS.**

  A procedure first checks the count of its arguments.  `Operands.ofArguments`
  is the rule for numbers: all real as long as every argument is real, all
  complex as soon as one is.
-/
import PlotLisp.Expr.Expect

namespace PlotLisp

/-! ## §1. Counts. -/

/-- Refuse a count of arguments that the procedure does not take. -/
def requireCount (place : String) (expected : ArgCount) (actual : Nat) : Except Fault Unit :=
  if expected.admits actual then .ok ()
  else .error (runtime.fault (.argument place expected actual))

/-! ## §2. Numbers of either kind. -/

/-- Numeric arguments, all of one kind. -/
inductive Operands where
  | real (xs : List Float)
  | complex (zs : List ComplexFloat)
deriving DecidableEq, Repr

/-- A number of either kind as a complex number. -/
def promote? (e : Expr) : Option ComplexFloat :=
  match e.complex? with
  | some z => some z
  | none => e.number?.map ComplexFloat.ofReal

/-- A number of either kind as a complex number, or a fault. -/
def asPromoted (place : String) (e : Expr) : Except Fault ComplexFloat :=
  e.expect (promote? e) place "a number or complex"

/-- Real arguments stay real; one complex argument makes all of them complex. -/
def Operands.ofArguments (place : String) (args : List Expr) : Except Fault Operands :=
  match args.mapM Expr.number? with
  | some xs => .ok (.real xs)
  | none => (args.mapM (asPromoted place)).map .complex

end PlotLisp
