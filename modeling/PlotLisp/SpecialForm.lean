/-
  PlotLisp.SpecialForm
  ──────────────────────────────────────
  **SPECIAL FORMS.**

  Heads that evaluation has a rule of its own for, because the form does not
  evaluate all of its parts: a name to define, a lambda's body, the name of
  something to call, a literal key, a function to plot.
-/
import PlotLisp.Plot.Kind

namespace PlotLisp

/-- A head with an evaluation rule of its own. -/
inductive SpecialForm where
  | define
  | begin
  | lambda
  | apply
  | map
  | setProperty
  | getProperty
  | plot (kind : PlotKind)
deriving DecidableEq, Repr

namespace SpecialForm

/-- All special forms. -/
def all : List SpecialForm :=
  [.define, .begin, .lambda, .apply, .map, .setProperty, .getProperty, .plot .discrete,
    .plot .continuous]

/-- The head symbol of a form. -/
def name : SpecialForm → String
  | .define => "define"
  | .begin => "begin"
  | .lambda => "lambda"
  | .apply => "apply"
  | .map => "map"
  | .setProperty => "set-property"
  | .getProperty => "get-property"
  | .plot kind => kind.name

/-- The form that a head symbol stands for. -/
def ofName? (name : String) : Option SpecialForm := all.find? fun form => form.name == name

/-- No two forms share a name. -/
theorem ofName?_name (form : SpecialForm) : ofName? form.name = some form := by
  cases form with
  | plot kind => cases kind <;> decide
  | _ => decide

end SpecialForm

end PlotLisp
