/-
  PlotLisp.Number.Grid
  ──────────────────────────────────────
  **EVENLY SPACED NUMBERS.**

  Two grids, for any kind of scalar:

    • `grid start stop step` — `start + i · step` up to and including `stop`.
      A step that reaches `stop` only up to rounding still counts: the number
      of steps is taken with `√ε` to spare, and a last point that overshoots
      `stop` by more than `ε · max(|stop|, 1)` is dropped again;
    • `abscissas low high` — the 51 points at which a function is plotted.

  Every point is computed from its index, so rounding does not accumulate.
-/
import PlotLisp.Number.Scalar

namespace PlotLisp

variable {K : Type} [Scalar K]

/-! ## §1. A grid with a given step. -/

/-- The least count of steps that is refused. -/
def gridLimit : Nat := 10000000

/-- Why a grid is refused. -/
inductive GridRefusal (K : Type) where
  | noInterval
  | badStep (step : K)
  | tooLong (steps : K)
deriving DecidableEq, Repr

/-- How many steps fit between `start` and `stop`. -/
def gridSteps (start stop step : K) : K :=
  Scalar.floor ((stop - start) / step + Scalar.rootEpsilon)

/-- The largest number that still counts as not above `stop`. -/
def gridCeiling (stop : K) : K :=
  stop + Scalar.epsilon * Scalar.greater (Scalar.magnitude stop) ((1 : Nat) : K)

/-- The points `start + i · step` for `i` up to `count`, those above the ceiling
left out. -/
def gridPoints (start stop step : K) (count : Nat) : List K :=
  ((List.range (count + 1)).map fun i : Nat => start + (i : K) * step).filter (· ≤ gridCeiling stop)

/-- The grid from `start` to `stop`. -/
def grid (start stop step : K) : Except (GridRefusal K) (List K) :=
  if stop ≤ start then .error .noInterval
  else if step ≤ ((0 : Nat) : K) || !Scalar.isFinite step then .error (.badStep step)
  else
    let steps := gridSteps start stop step
    if !Scalar.isFinite steps || ((gridLimit : Nat) : K) ≤ steps then .error (.tooLong steps)
    else .ok (gridPoints start stop step (Scalar.toNat steps))

/-! ## §2. A grid with a given count. -/

/-- The intervals between the points at which a function is plotted. -/
def plotIntervals : Nat := 50

/-- The points at which a function is plotted, the last one exactly `high`. -/
def abscissas (low high : K) : List K :=
  let step := (high - low) / (plotIntervals : K)
  (List.range plotIntervals).map (fun i : Nat => low + (i : K) * step) ++ [high]

end PlotLisp
