/-
  PlotLisp.Expr.Expect
  ──────────────────────────────────────
  **TAKING A VALUE FOR WHAT IT IS.**

  Each function takes from a value what some place needs (a number, the
  elements of a list, a key) or says which kind of value stands there
  instead.  `place` is the name that the fault mentions.
-/
import PlotLisp.Expr.Basic
import PlotLisp.Fault

namespace PlotLisp.Expr

/-- What a view of `e` shows, or a fault that says what was expected. -/
def expect {α : Type} (e : Expr) (view : Option α) (place expected : String) :
    Except Fault α :=
  match view with
  | some a => .ok a
  | .none => .error (runtime.fault (.mismatch place expected e.typeName))

/-- A real number. -/
def asNumber (e : Expr) (place : String) : Except Fault Float :=
  e.expect e.number? place "a number"

/-- A complex number; a real one is not taken for it. -/
def asComplex (e : Expr) (place : String) : Except Fault ComplexFloat :=
  e.expect e.complex? place "a complex number"

/-- The contents of a string. -/
def asString (e : Expr) (place : String) : Except Fault String :=
  e.expect e.string? place "a string"

/-- A string that names a property. -/
def asKey (e : Expr) (place : String) : Except Fault String :=
  e.expect e.string? place "a string property name"

/-- The elements of a list. -/
def asItems (e : Expr) (place : String) : Except Fault (List Expr) :=
  e.expect e.items? place "a list"

/-- The first element of a list that has one, and the others. -/
def asNonempty (e : Expr) (place : String) : Except Fault (Expr × List Expr) := do
  match ← e.asItems place with
  | [] => throw (runtime.fault (.mismatch place "a non-empty list" "an empty list"))
  | first :: rest => return (first, rest)

end PlotLisp.Expr
