/-
  PlotLisp.Plot.Samples
  ──────────────────────────────────────
  **PLOT DATA AS VALUES.**

  Samples are given as a list of `(x y)` lists of real numbers, the range of a
  continuous plot as a list of two real numbers in increasing order.
-/
import PlotLisp.Expr.Expect
import PlotLisp.Plot.Frame
import PlotLisp.Plot.Kind

namespace PlotLisp

/-! ## §1. Samples. -/

/-- One `(x y)` pair. -/
def readSample (form : String) (item : Expr) : Except Fault (Position Float) := do
  match ← item.asItems form with
  | [x, y] =>
      match x.number?, y.number? with
      | some x, some y => return (x, y)
      | _, _ => throw (runtime.fault (.mismatch form "real coordinates" "a non-real coordinate"))
  | coords =>
      throw (runtime.fault
        (.mismatch form "(x y) pairs" (toString coords.length ++ " coordinates")))

/-- A list of at least one `(x y)` pair. -/
def readSamples (form : String) (data : Expr) : Except Fault (List (Position Float)) := do
  match ← data.asItems form with
  | [] => throw (plotting.fault (.plotDomain .noData))
  | items => items.mapM (readSample form)

/-! ## §2. Ranges. -/

/-- A list of a lower and an upper bound. -/
def readRange (range : Expr) : Except Fault (Float × Float) := do
  let form := PlotKind.continuous.name
  match ← range.asItems form with
  | [low, high] =>
      match low.number?, high.number? with
      | some low, some high =>
          if low < high then return (low, high)
          else throw (plotting.fault (.plotDomain .emptyRange))
      | _, _ => throw (runtime.fault (.mismatch form "numeric bounds" "a non-real bound"))
  | items => throw (runtime.fault (.argument (form ++ " bounds") (.exactly 2) items.length))

end PlotLisp
