/-
  PlotLisp.Plot.Frame
  ──────────────────────────────────────
  **FROM DATA TO SCREEN.**

  The data's bounding box is scaled, each axis on its own, to a viewport of
  20 × 20.  Screen ordinates grow downwards, so data ordinates are negated.

    • `BoundingBox.ofSamples?` — the extremes of the samples;
    • `Frame.ofBounds` — the scales, refused when an axis has no extent;
    • `Frame.baseline` — the level that stems drop to.
-/
import PlotLisp.Number.Scalar
import PlotLisp.Fault

namespace PlotLisp

/-- An abscissa and an ordinate. -/
abbrev Position (K : Type) := K × K

/-! ## §1. Bounding boxes. -/

/-- The extent of the data along both axes. -/
structure BoundingBox (K : Type) where
  xMin : K
  xMax : K
  yMin : K
  yMax : K
deriving DecidableEq, Repr

variable {K : Type} [Scalar K]

namespace BoundingBox

/-- The box of a single position. -/
def single (s : Position K) : BoundingBox K := ⟨s.1, s.1, s.2, s.2⟩

/-- The box, grown to hold one more position. -/
def extend (b : BoundingBox K) (s : Position K) : BoundingBox K where
  xMin := Scalar.lesser b.xMin s.1
  xMax := Scalar.greater b.xMax s.1
  yMin := Scalar.lesser b.yMin s.2
  yMax := Scalar.greater b.yMax s.2

/-- The box of all samples; without samples there is none. -/
def ofSamples? : List (Position K) → Option (BoundingBox K)
  | [] => none
  | s :: rest => some (rest.foldl extend (single s))

/-- Does the vertical axis cross the box? -/
def yAxisVisible (b : BoundingBox K) : Bool :=
  b.xMin ≤ ((0 : Nat) : K) && ((0 : Nat) : K) ≤ b.xMax

/-- Does the horizontal axis cross the box? -/
def xAxisVisible (b : BoundingBox K) : Bool :=
  b.yMin ≤ ((0 : Nat) : K) && ((0 : Nat) : K) ≤ b.yMax

end BoundingBox

/-! ## §2. Frames. -/

/-- A bounding box and the scales that take it to the viewport. -/
structure Frame (K : Type) where
  bounds : BoundingBox K
  xScale : K
  yScale : K
deriving DecidableEq, Repr

namespace Frame

/-- The width and height of the viewport. -/
def viewport : K := ((20 : Nat) : K)

/-- The frame of a bounding box with an extent along both axes. -/
def ofBounds (b : BoundingBox K) : Except PlotRefusal (Frame K) :=
  let width := b.xMax - b.xMin
  let height := b.yMax - b.yMin
  if width ≤ ((0 : Nat) : K) then .error .oneAbscissa
  else if height ≤ ((0 : Nat) : K) then .error .oneOrdinate
  else .ok ⟨b, viewport / width, viewport / height⟩

/-- Where a sample lies on the screen. -/
def toScreen (f : Frame K) (s : Position K) : Position K :=
  (s.1 * f.xScale, -s.2 * f.yScale)

/-- The left edge. -/
def left (f : Frame K) : K := f.bounds.xMin * f.xScale

/-- The right edge. -/
def right (f : Frame K) : K := f.bounds.xMax * f.xScale

/-- The top edge. -/
def top (f : Frame K) : K := -f.bounds.yMax * f.yScale

/-- The bottom edge. -/
def bottom (f : Frame K) : K := -f.bounds.yMin * f.yScale

/-- Midway between left and right. -/
def xMid (f : Frame K) : K := (f.left + f.right) / ((2 : Nat) : K)

/-- Midway between top and bottom. -/
def yMid (f : Frame K) : K := (f.top + f.bottom) / ((2 : Nat) : K)

/-- The level that stems drop to: the horizontal axis if it is visible, else the
edge nearer to it. -/
def baseline (f : Frame K) : K :=
  if f.bounds.xAxisVisible then ((0 : Nat) : K)
  else if ((0 : Nat) : K) < f.bounds.yMin then f.bottom
  else f.top

end Frame

end PlotLisp
