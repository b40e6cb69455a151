/-
  PlotLisp.Plot.Options
  ──────────────────────────────────────
  **PLOT OPTIONS.**

  Options are given as a list of `("key" value)` pairs.  Four keys are
  recognised, the last pair with a key wins, and other keys are ignored
  whatever their value.
-/
import PlotLisp.Expr.Expect

namespace PlotLisp

/-! ## §1. The record. -/

/-- The title, the labels of the axes, and the size of all text. -/
structure PlotOptions (K : Type) where
  title : Option String
  abscissaLabel : Option String
  ordinateLabel : Option String
  textScale : K
deriving DecidableEq, Repr

namespace PlotOptions

/-- No title, no labels, text at its own size. -/
def default {K : Type} [Scalar K] : PlotOptions K := ⟨none, none, none, ((1 : Nat) : K)⟩

/-! ## §2. Reading. -/

/-- How option faults name the list of options. -/
def place : String := "plot options"

/-- A positive value of the option `key`. -/
def positiveValue (key : String) (value : Expr) : Except Fault Float :=
  value.expect (value.number?.filter (0.0 < ·)) key "a positive number"

/-- Set the option `key`. -/
def set (options : PlotOptions Float) (key : String) (value : Expr) :
    Except Fault (PlotOptions Float) :=
  if key = "title" then do
    return { options with title := some (← value.asString key) }
  else if key = "abscissa-label" then do
    return { options with abscissaLabel := some (← value.asString key) }
  else if key = "ordinate-label" then do
    return { options with ordinateLabel := some (← value.asString key) }
  else if key = "text-scale" then do
    return { options with textScale := ← positiveValue key value }
  else .ok options

/-- Take one `("key" value)` pair into account. -/
def setPair (options : PlotOptions Float) (option : Expr) : Except Fault (PlotOptions Float) := do
  match ← option.asItems place with
  | [key, value] =>
      match key.string? with
      | some name => options.set name value
      | none => throw (runtime.fault (.mismatch place "a string key" key.typeName))
  | _ => throw (runtime.fault (.mismatch place "(key value) pairs" option.typeName))

/-- Read a list of options. -/
def ofExpr (e : Expr) : Except Fault (PlotOptions Float) := do
  (← e.asItems place).foldlM setPair default

/-- Read options that may be left out. -/
def ofExpr? : Option Expr → Except Fault (PlotOptions Float)
  | some e => ofExpr e
  | none => .ok default

end PlotOptions

end PlotLisp
