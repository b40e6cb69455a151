/-
  PlotLisp.Plot.Scene
  ──────────────────────────────────────
  **SCENES.**

  A plot is a flat list of points, lines and texts on the screen, in this
  order:

    1. the data: each sample's point, followed by its stem (discrete) or by
       the segment from the sample before it (continuous);
    2. the visible axes, the horizontal one first;
    3. the box: top, bottom, left, right;
    4. the title and the labels that are given;
    5. the tick labels: greatest and least ordinate, least and greatest
       abscissa.

  Scenes are computed over any scalar; what a tick label reads is left to
  whoever prints its quantity.
-/
import PlotLisp.Plot.Frame
import PlotLisp.Plot.Kind
import PlotLisp.Plot.Options

namespace PlotLisp

/-! ## §1. Primitives. -/

/-- What a text says: given words, or a quantity. -/
inductive Caption (K : Type) where
  | words (text : String)
  | quantity (value : K)
deriving DecidableEq, Repr

/-- How a text is turned. -/
inductive Rotation where
  | level
  | quarterTurn
deriving DecidableEq, Repr

/-- One element of a scene. -/
inductive Primitive (K : Type) where
  | point (place : Position K) (size : K)
  | line (start stop : Position K)
  | text (caption : Caption K) (place : Position K) (scale : K) (rotation : Rotation)
deriving DecidableEq, Repr

/-- A plot, ready to be drawn. -/
abbrev Scene (K : Type) := List (Primitive K)

variable {K : Type} [Scalar K]

/-! ## §2. The parts of a scene. -/

/-- The distance of the title and the labels from the box. -/
def labelMargin : K := ((3 : Nat) : K)

/-- The distance of the tick labels from the box. -/
def tickMargin : K := ((2 : Nat) : K)

/-- Each sample's point and the stem that drops from it. -/
def stems (f : Frame K) (samples : List (Position K)) : Scene K :=
  samples.flatMap fun s =>
    let place := f.toScreen s
    [.point place PlotKind.discrete.pointSize, .line place (place.1, f.baseline)]

/-- Each sample's point and the segment that leads to it from the place
`previous`. -/
def segments (f : Frame K) (previous : Position K) : List (Position K) → Scene K
  | [] => []
  | s :: rest =>
      let place := f.toScreen s
      .point place PlotKind.continuous.pointSize :: .line previous place :: segments f place rest

/-- The samples as points joined in order. -/
def polyline (f : Frame K) : List (Position K) → Scene K
  | [] => []
  | s :: rest =>
      .point (f.toScreen s) PlotKind.continuous.pointSize :: segments f (f.toScreen s) rest

/-- The data part of a scene. -/
def dataPart (f : Frame K) (samples : List (Position K)) : PlotKind → Scene K
  | .discrete => stems f samples
  | .continuous => polyline f samples

/-- The axes that cross the box. -/
def axes (f : Frame K) : Scene K :=
  let zero : K := ((0 : Nat) : K)
  (if f.bounds.xAxisVisible then [.line (f.left, zero) (f.right, zero)] else [])
    ++ (if f.bounds.yAxisVisible then [.line (zero, f.bottom) (zero, f.top)] else [])

/-- The edges of the box. -/
def box (f : Frame K) : Scene K :=
  [ .line (f.left, f.top) (f.right, f.top),
    .line (f.left, f.bottom) (f.right, f.bottom),
    .line (f.left, f.top) (f.left, f.bottom),
    .line (f.right, f.top) (f.right, f.bottom) ]

/-- A label that is given, as a text. -/
def label (options : PlotOptions K) (text : Option String) (place : Position K)
    (rotation : Rotation) : Scene K :=
  match text with
  | some words => [.text (.words words) place options.textScale rotation]
  | none => []

/-- The title above the box, and the labels below it and to its left. -/
def labels (f : Frame K) (options : PlotOptions K) : Scene K :=
  label options options.title (f.xMid, f.top - labelMargin) .level
    ++ label options options.abscissaLabel (f.xMid, f.bottom + labelMargin) .level
    ++ label options options.ordinateLabel (f.left - labelMargin, f.yMid) .quarterTurn

/-- The extremes of the data, written beside the corners of the box. -/
def ticks (f : Frame K) (options : PlotOptions K) : Scene K :=
  let tick (value : K) (place : Position K) : Primitive K :=
    .text (.quantity value) place options.textScale .level
  [ tick f.bounds.yMax (f.left - tickMargin, f.top),
    tick f.bounds.yMin (f.left - tickMargin, f.bottom),
    tick f.bounds.xMin (f.left, f.bottom + tickMargin),
    tick f.bounds.xMax (f.right, f.bottom + tickMargin) ]

/-! ## §3. Whole scenes. -/

/-- Are both coordinates finite? -/
def isFinitePosition (s : Position K) : Bool := Scalar.isFinite s.1 && Scalar.isFinite s.2

/-- The scene in a given frame. -/
def sceneIn (f : Frame K) (kind : PlotKind) (options : PlotOptions K)
    (samples : List (Position K)) : Scene K :=
  dataPart f samples kind ++ axes f ++ box f ++ labels f options ++ ticks f options

/-- The scene of finite samples that span an extent along both axes. -/
def scene (kind : PlotKind) (options : PlotOptions K) (samples : List (Position K)) :
    Except PlotRefusal (Scene K) :=
  -- before anything else, so that the box is finite
  if !samples.all isFinitePosition then .error .notFinite
  else
    match BoundingBox.ofSamples? samples with
    | none => .error .noData
    | some b => (Frame.ofBounds b).map fun f => sceneIn f kind options samples

end PlotLisp
