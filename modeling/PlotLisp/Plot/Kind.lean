/-
  PlotLisp.Plot.Kind
  ──────────────────────────────────────
  **KINDS OF PLOT.**

  A discrete plot marks each sample and drops a stem from it; a continuous
  plot joins neighbouring samples.
-/
import PlotLisp.Number.Scalar

namespace PlotLisp

/-- How the samples are drawn. -/
inductive PlotKind where
  | discrete
  | continuous
deriving DecidableEq, Repr

namespace PlotKind

/-- The name under which programs ask for the plot. -/
def name : PlotKind → String
  | .discrete => "discrete-plot"
  | .continuous => "continuous-plot"

/-- The radius of the sample markers; a continuous plot anchors its segments on
invisible points. -/
def pointSize {K : Type} [Scalar K] : PlotKind → K
  | .discrete => ((1 : Nat) : K) / ((2 : Nat) : K)
  | .continuous => ((0 : Nat) : K)

end PlotKind

end PlotLisp
