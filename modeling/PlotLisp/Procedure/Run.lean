/-
  PlotLisp.Procedure.Run
  ──────────────────────────────────────
  **APPLYING A PROCEDURE.**

  `Procedure.run` dispatches to the families and holds the procedures on
  properties and plots, which have an evaluated counterpart among the special
  forms: the same work, on arguments that are values already.
-/
import PlotLisp.Plot.Annotated
import PlotLisp.Plot.Samples
import PlotLisp.Procedure.Arithmetic
import PlotLisp.Procedure.Lists

namespace PlotLisp.Procedure

/-! ## §1. Properties. -/

/-- The value of a property, or nothing. -/
def propertyOf (key : String) (target : Expr) : Expr := (target.prop? key).getD .none

/-- A copy of the last argument with a property set. -/
def runSetProperty : List Expr → Except Fault Expr
  | [key, value, target] =>
      (key.asKey "set-property").map fun key => target.setProp key value
  | args => .error (runtime.fault (.argument "set-property" (.exactly 3) args.length))

/-- The value of a property of the last argument. -/
def runGetProperty : List Expr → Except Fault Expr
  | [key, target] => (key.asKey "get-property").map fun key => propertyOf key target
  | args => .error (runtime.fault (.argument "get-property" (.exactly 2) args.length))

/-! ## §2. Plots. -/

/-- The plot of samples given as a value, with options that may be left out. -/
def runPlot (kind : PlotKind) (args : List Expr) : Except Fault Expr :=
  let draw (data : Expr) (options : Option Expr) : Except Fault Expr := do
    let samples ← readSamples kind.name data
    plotOf kind (← PlotOptions.ofExpr? options) samples
  match args with
  | [] => .error (runtime.fault (.argument kind.name (.atLeast 1) 0))
  | [data] => draw data none
  | [data, options] => draw data (some options)
  | _ => .error (runtime.fault (.argument kind.name (.exactly 2) args.length))

/-! ## §3. All procedures. -/

/-- Apply a procedure to evaluated arguments. -/
def run (procedure : Procedure) (args : List Expr) : Except Fault Expr :=
  match procedure with
  | .arithmetic operation => operation.run args
  | .part which => which.run args
  | .list => .ok (.list args)
  | .first => Lists.first args
  | .rest => Lists.rest args
  | .length => Lists.length args
  | .append => Lists.append args
  | .join => Lists.join args
  | .range => Lists.range args
  | .setProperty => runSetProperty args
  | .getProperty => runGetProperty args
  | .plot kind => runPlot kind args
  | .nothing => .ok .none

end PlotLisp.Procedure
