/-
  PlotLisp.Proofs.Plot.Layout
  ──────────────────────────────────────
  **THE LAYOUT OF A PLOT.**

  A renderer sees a list of annotated values.  What each of them is can be read off
  its annotations, and which of them stands where follows from the samples, the
  kind of plot and the options:

    • `Expr.IsPoint`, `Expr.IsLine`, `Expr.IsText` — what a value is taken for;
    • `Stemmed`, `Joined` — the data part of a discrete and of a continuous plot, by
      the positions of its elements;
    • `Layout` — all parts of a plot, in order, with the count of their elements.

  Nothing here depends on how coordinates are rounded.
-/
import Mathlib.Data.List.Forall2
import PlotLisp.Plot.Annotated
import PlotLisp.Proofs.Plot.Bounds

namespace PlotLisp

/-! ## §1. Elements. -/

namespace Expr

/-- A point at `place`. -/
def IsPoint (place : Position Float) (e : Expr) : Prop :=
  objectName? e = some "point" ∧ e.items? = some [.number place.1, .number place.2]

/-- A line that joins two points. -/
def IsLine (start stop : Position Float) (e : Expr) : Prop :=
  objectName? e = some "line"
  ∧ ∃ first last, e.items? = some [first, last] ∧ first.IsPoint start ∧ last.IsPoint stop

/-- A text that says `words`, somewhere, at the size `scale`. -/
def IsText (scale : Float) (words : String) (e : Expr) : Prop :=
  objectName? e = some "text" ∧ e.string? = some words
  ∧ (∃ anchor place, e.prop? positionKey = some anchor ∧ anchor.IsPoint place)
  ∧ e.prop? textScaleKey = some (.number scale)

/-- A property leaves the contents of a string as they are. -/
@[simp] theorem string?_setProp (e : Expr) (key : String) (value : Expr) :
    (e.setProp key value).string? = e.string? := by
  obtain ⟨head, tail, props⟩ := e
  cases head <;> cases tail <;> rfl

end Expr

/-- Other properties leave the kind of element as it is. -/
theorem objectName?_setProp {key : String} (hkey : key ≠ objectNameKey) (e value : Expr) :
    objectName? (e.setProp key value) = objectName? e := by
  unfold objectName?
  rw [Expr.prop?_setProp, if_neg hkey.symm]

/-- The tag that was put on is the one that is found. -/
theorem objectName?_tagged (name : String) (e : Expr) :
    objectName? (tagged name e) = some name := by
  unfold objectName? tagged
  rw [Expr.prop?_setProp, if_pos rfl]
  rfl

theorem isPoint_anchor (place : Position Float) : (anchor place).IsPoint place :=
  ⟨objectName?_tagged _ _, rfl⟩

/-- A point becomes its two coordinates with its size as a property. -/
theorem isPoint_toExpr (place : Position Float) (size : Float) :
    (Primitive.point place size).toExpr.IsPoint place := by
  refine ⟨?_, rfl⟩
  unfold Primitive.toExpr
  rw [objectName?_setProp (by decide)]
  exact objectName?_tagged _ _

/-- A line becomes its two ends. -/
theorem isLine_toExpr (start stop : Position Float) :
    (Primitive.line start stop).toExpr.IsLine start stop := by
  refine ⟨?_, anchor start, anchor stop, rfl, isPoint_anchor start, isPoint_anchor stop⟩
  unfold Primitive.toExpr
  rw [objectName?_setProp (by decide)]
  exact objectName?_tagged _ _

/-- A text becomes its words with scale, place and rotation as properties. -/
theorem isText_toExpr (caption : Caption Float) (place : Position Float) (scale : Float)
    (rotation : Rotation) :
    (Primitive.text caption place scale rotation).toExpr.IsText scale caption.text := by
  unfold Primitive.toExpr
  refine ⟨?_, ?_, ⟨anchor place, place, ?_, isPoint_anchor place⟩, ?_⟩
  · rw [objectName?_setProp (by decide), objectName?_setProp (by decide),
      objectName?_setProp (by decide)]
    exact objectName?_tagged _ _
  · simp only [Expr.string?_setProp, tagged]
    rfl
  · rw [Expr.prop?_setProp, if_neg (by decide), Expr.prop?_setProp, if_neg (by decide),
      Expr.prop?_setProp, if_pos rfl]
  · rw [Expr.prop?_setProp, if_neg (by decide), Expr.prop?_setProp, if_pos rfl]

/-! ## §2. The data part. -/

section Positions

variable {K : Type} [Scalar K] {f : Frame K} {samples : List (Position K)} {i : Nat}
  {previous place next : Position K}

/-- Every sample has a point and a stem. -/
theorem length_stems (f : Frame K) (samples : List (Position K)) :
    (stems f samples).length = 2 * samples.length := by
  induction samples with
  | nil => rfl
  | cons s rest ih =>
    show (stems f rest).length + 2 = 2 * (rest.length + 1)
    omega

/-- Every sample has its point and, right behind it, its stem. -/
theorem getElem?_stems (h : (samples.map f.toScreen)[i]? = some place) :
    (stems f samples)[2 * i]? = some (.point place PlotKind.discrete.pointSize)
    ∧ (stems f samples)[2 * i + 1]? = some (.line place (place.1, f.baseline)) := by
  induction samples generalizing i with
  | nil => simp at h
  | cons s rest ih =>
    cases i with
    | zero =>
      obtain rfl := Option.some.inj h
      exact ⟨rfl, rfl⟩
    | succ i => exact ih h

/-- Every sample but the first has a point and a segment that leads to it. -/
theorem length_segments (f : Frame K) (previous : Position K) (samples : List (Position K)) :
    (segments f previous samples).length = 2 * samples.length := by
  induction samples generalizing previous with
  | nil => rfl
  | cons s rest ih =>
    have hrest := ih (f.toScreen s)
    show (segments f (f.toScreen s) rest).length + 2 = 2 * (rest.length + 1)
    omega

/-- The even places hold the points of the samples. -/
theorem getElem?_segments_point (h : (samples.map f.toScreen)[i]? = some place) :
    (segments f previous samples)[2 * i]? = some (.point place PlotKind.continuous.pointSize) := by
  induction samples generalizing i previous with
  | nil => simp at h
  | cons s rest ih =>
    cases i with
    | zero =>
      obtain rfl := Option.some.inj h
      rfl
    | succ i => exact ih h

/-- A segment leads from the place before to the place of its own sample. -/
theorem getElem?_segments_line (hplace : (previous :: samples.map f.toScreen)[i]? = some place)
    (hnext : (samples.map f.toScreen)[i]? = some next) :
    (segments f previous samples)[2 * i + 1]? = some (.line place next) := by
  induction samples generalizing i previous with
  | nil => simp at hnext
  | cons s rest ih =>
    cases i with
    | zero =>
      obtain rfl := Option.some.inj hplace
      obtain rfl := Option.some.inj hnext
      rfl
    | succ i => exact ih hplace hnext

end Positions

/-- The data part of a discrete plot: the point of each place is followed by the stem that
drops from it to `level`. -/
structure Stemmed (level : Float) (places : List (Position Float)) (data : List Expr) : Prop where
  length : data.length = 2 * places.length
  point : ∀ i place, places[i]? = some place →
    ∃ e, data[2 * i]? = some e ∧ e.IsPoint place
  stem : ∀ i place, places[i]? = some place →
    ∃ e, data[2 * i + 1]? = some e ∧ e.IsLine place (place.1, level)

/-- The data part of a continuous plot: the first point stands alone, the point of each other
place is followed by the segment that leads to it from the place before. -/
structure Joined (places : List (Position Float)) (data : List Expr) : Prop where
  length : data.length = 2 * places.length - 1
  first : ∀ place, places[0]? = some place → ∃ e, data[0]? = some e ∧ e.IsPoint place
  point : ∀ i place, places[i + 1]? = some place →
    ∃ e, data[2 * i + 1]? = some e ∧ e.IsPoint place
  segment : ∀ i place next, places[i]? = some place → places[i + 1]? = some next →
    ∃ e, data[2 * i + 2]? = some e ∧ e.IsLine place next

/-- The data part of either kind of plot. -/
def DrawsData (f : Frame Float) (samples : List (Position Float)) : PlotKind → List Expr → Prop
  | .discrete => Stemmed f.baseline (samples.map f.toScreen)
  | .continuous => Joined (samples.map f.toScreen)

/-- How many elements the data part of `n` samples has. -/
def PlotKind.dataCount : PlotKind → Nat → Nat
  | .discrete, n => 2 * n
  | .continuous, n => 2 * n - 1

/-- An element of a scene, found among the annotated values. -/
theorem exists_toExpr {elements : Scene Float} {i : Nat} {e : Primitive Float} {P : Expr → Prop}
    (hat : elements[i]? = some e) (hP : P e.toExpr) :
    ∃ v, (elements.map Primitive.toExpr)[i]? = some v ∧ P v := by
  rw [List.getElem?_map, hat]
  exact ⟨_, rfl, hP⟩

/-- Stems stand on the baseline, each at its sample. -/
theorem stemmed_stems (f : Frame Float) (samples : List (Position Float)) :
    Stemmed f.baseline (samples.map f.toScreen) ((stems f samples).map Primitive.toExpr) where
  length := by rw [List.length_map, List.length_map, length_stems]
  point _ _ h := exists_toExpr (getElem?_stems h).1 (isPoint_toExpr _ _)
  stem _ _ h := exists_toExpr (getElem?_stems h).2 (isLine_toExpr _ _)

/-- The first sample is a point; the others are joined to the ones before them. -/
theorem joined_polyline (f : Frame Float) (samples : List (Position Float)) :
    Joined (samples.map f.toScreen) ((polyline f samples).map Primitive.toExpr) := by
  cases samples with
  | nil =>
    refine ⟨rfl, ?_, ?_, ?_⟩ <;> intros <;> simp_all
  | cons s rest =>
    refine ⟨?_, ?_, ?_, ?_⟩
    · have hrest := length_segments f (f.toScreen s) rest
      simp only [List.length_map, polyline, List.length_cons]
      omega
    · intro place hplace
      obtain rfl := Option.some.inj hplace
      exact exists_toExpr (i := 0) rfl (isPoint_toExpr _ _)
    · intro i place hplace
      -- behind the first point come the segments, each with its own point before it
      have hat : (polyline f (s :: rest))[2 * i + 1]?
          = some (.point place PlotKind.continuous.pointSize) :=
        getElem?_segments_point hplace
      exact exists_toExpr hat (isPoint_toExpr _ _)
    · intro i place next hplace hnext
      have hat : (polyline f (s :: rest))[2 * i + 2]? = some (.line place next) :=
        getElem?_segments_line hplace hnext
      exact exists_toExpr hat (isLine_toExpr _ _)

/-- The kind of the plot decides whether samples stand on stems or are joined. -/
theorem drawsData_dataPart (f : Frame Float) (samples : List (Position Float)) (kind : PlotKind) :
    DrawsData f samples kind ((dataPart f samples kind).map Primitive.toExpr) := by
  cases kind with
  | discrete => exact stemmed_stems f samples
  | continuous => exact joined_polyline f samples

/-! ## §3. Axes, box and texts. -/

/-- The ends of the axes that cross the box, the horizontal axis first. -/
def Frame.axisEnds (f : Frame Float) : List (Position Float × Position Float) :=
  (if f.bounds.yMin ≤ 0 ∧ 0 ≤ f.bounds.yMax then [((f.left, 0), (f.right, 0))] else [])
    ++ (if f.bounds.xMin ≤ 0 ∧ 0 ≤ f.bounds.xMax then [((0, f.bottom), (0, f.top))] else [])

/-- The ends of the edges of the box: top, bottom, left, right. -/
def Frame.edgeEnds (f : Frame Float) : List (Position Float × Position Float) :=
  [ ((f.left, f.top), (f.right, f.top)), ((f.left, f.bottom), (f.right, f.bottom)),
    ((f.left, f.top), (f.left, f.bottom)), ((f.right, f.top), (f.right, f.bottom)) ]

/-- The words of the options that are given: title, abscissa label, ordinate label. -/
def PlotOptions.words {K : Type} (options : PlotOptions K) : List String :=
  options.title.toList ++ options.abscissaLabel.toList ++ options.ordinateLabel.toList

/-- The extremes of the data, as the ticks name them. -/
def Frame.tickWords (f : Frame Float) : List String :=
  [f.bounds.yMax, f.bounds.yMin, f.bounds.xMin, f.bounds.xMax].map
    fun x => significantText x tickDigits

/-- Each of `elements` is the line between the ends in its place of `ends`. -/
def AreLines (ends : List (Position Float × Position Float)) (elements : List Expr) : Prop :=
  List.Forall₂ (fun ends e => e.IsLine ends.1 ends.2) ends elements

/-- Each of `elements` is a text that says the words in its place of `words`. -/
def AreTexts (scale : Float) (words : List String) (elements : List Expr) : Prop :=
  List.Forall₂ (fun words e => e.IsText scale words) words elements

/-- An axis is drawn under the condition of its visibility. -/
theorem areLines_axis {visible : Bool} {p : Prop} [Decidable p] (h : visible = true ↔ p)
    (start stop : Position Float) :
    AreLines (if p then [(start, stop)] else [])
      ((if visible then [.line start stop] else []).map Primitive.toExpr) := by
  by_cases hvisible : visible = true
  · rw [if_pos hvisible, if_pos (h.mp hvisible)]
    exact .cons (isLine_toExpr start stop) .nil
  · rw [if_neg hvisible, if_neg fun hp => hvisible (h.mpr hp)]
    exact .nil

/-- An axis is drawn where zero is in range, the horizontal one first. -/
theorem areLines_axes (f : Frame Float) : AreLines f.axisEnds ((axes f).map Primitive.toExpr) := by
  have hx : f.bounds.xAxisVisible = true ↔ f.bounds.yMin ≤ 0 ∧ 0 ≤ f.bounds.yMax :=
    BoundingBox.xAxisVisible_iff
  have hy : f.bounds.yAxisVisible = true ↔ f.bounds.xMin ≤ 0 ∧ 0 ≤ f.bounds.xMax :=
    BoundingBox.yAxisVisible_iff
  unfold axes
  rw [List.map_append]
  exact List.rel_append (areLines_axis hx _ _) (areLines_axis hy _ _)

/-- The box has its four edges in a fixed order. -/
theorem areLines_box (f : Frame Float) : AreLines f.edgeEnds ((box f).map Primitive.toExpr) :=
  .cons (isLine_toExpr _ _) (.cons (isLine_toExpr _ _) (.cons (isLine_toExpr _ _)
    (.cons (isLine_toExpr _ _) .nil)))

/-- A label that is not given leaves nothing behind. -/
theorem areTexts_label (options : PlotOptions Float) (text : Option String)
    (place : Position Float) (rotation : Rotation) :
    AreTexts options.textScale text.toList
      ((label options text place rotation).map Primitive.toExpr) := by
  cases text with
  | none => exact .nil
  | some words => exact .cons (isText_toExpr _ _ _ _) .nil

/-- Title and axis labels come in this order, those that are given. -/
theorem areTexts_labels (f : Frame Float) (options : PlotOptions Float) :
    AreTexts options.textScale options.words ((labels f options).map Primitive.toExpr) := by
  unfold labels
  rw [List.map_append, List.map_append]
  exact List.rel_append (List.rel_append (areTexts_label ..) (areTexts_label ..))
    (areTexts_label ..)

/-- The bounds of the data are written at the ends of the box. -/
theorem areTexts_ticks (f : Frame Float) (options : PlotOptions Float) :
    AreTexts options.textScale f.tickWords ((ticks f options).map Primitive.toExpr) :=
  .cons (isText_toExpr _ _ _ _) (.cons (isText_toExpr _ _ _ _) (.cons (isText_toExpr _ _ _ _)
    (.cons (isText_toExpr _ _ _ _) .nil)))

/-! ## §4. Whole plots. -/

/-- The parts of a plot: what the data part draws, which lines and texts follow, and how many
elements there are. -/
structure Layout (f : Frame Float) (kind : PlotKind) (options : PlotOptions Float)
    (samples : List (Position Float)) (data axes box labels ticks : List Expr) : Prop where
  drawsData : DrawsData f samples kind data
  areAxes : AreLines f.axisEnds axes
  areEdges : AreLines f.edgeEnds box
  areLabels : AreTexts options.textScale options.words labels
  areTicks : AreTexts options.textScale f.tickWords ticks
  count : (data ++ axes ++ box ++ labels ++ ticks).length
    = kind.dataCount samples.length + f.axisEnds.length + 4 + options.words.length + 4

/-- The count of the data elements is that of the kind. -/
theorem length_dataPart {K : Type} [Scalar K] (f : Frame K) (samples : List (Position K))
    (kind : PlotKind) : (dataPart f samples kind).length = kind.dataCount samples.length := by
  cases kind with
  | discrete => exact length_stems f samples
  | continuous =>
    cases samples with
    | nil => rfl
    | cons s rest =>
      have hrest := length_segments f (f.toScreen s) rest
      show (segments f (f.toScreen s) rest).length + 1 = 2 * (rest.length + 1) - 1
      omega

/-- A scene is made of its five parts, one after another. -/
theorem layout_sceneIn (f : Frame Float) (kind : PlotKind) (options : PlotOptions Float)
    (samples : List (Position Float)) :
    Layout f kind options samples ((dataPart f samples kind).map Primitive.toExpr)
      ((axes f).map Primitive.toExpr) ((box f).map Primitive.toExpr)
      ((labels f options).map Primitive.toExpr) ((ticks f options).map Primitive.toExpr) where
  drawsData := drawsData_dataPart f samples kind
  areAxes := areLines_axes f
  areEdges := areLines_box f
  areLabels := areTexts_labels f options
  areTicks := areTexts_ticks f options
  count := by
    have hdata := length_dataPart f samples kind
    have haxes := (areLines_axes f).length_eq
    have hbox := (areLines_box f).length_eq
    have hlabels := (areTexts_labels f options).length_eq
    have hticks := (areTexts_ticks f options).length_eq
    have hedges : f.edgeEnds.length = 4 := rfl
    have hwords : f.tickWords.length = 4 := rfl
    simp only [List.length_append, List.length_map] at haxes hbox hlabels hticks ⊢
    omega

/-- **A plot has the promised layout.**  It consists of its data part, the visible axes, the
box, the given labels and the ticks, in this order, all of them annotated as what they
are: for each sample its point, with the stem that drops from it or with the segment from
the sample before; axes, edges and texts in the order of their ends and words. -/
theorem plots_have_their_layout {kind : PlotKind} {options : PlotOptions Float}
    {samples : List (Position Float)} {plot : Expr} (h : plotOf kind options samples = .ok plot) :
    ∃ f data axes box labels ticks,
      BoundingBox.ofSamples? samples = some f.bounds ∧ Frame.ofBounds f.bounds = .ok f
      ∧ plot = .list (data ++ axes ++ box ++ labels ++ ticks)
      ∧ Layout f kind options samples data axes box labels ticks := by
  unfold plotOf at h
  cases hscene : scene kind options samples with
  | error refusal =>
    rw [hscene] at h
    cases h
  | ok elements =>
    rw [hscene] at h
    cases h
    obtain ⟨-, f, hbox, hframe, rfl⟩ := scene_eq_ok_iff.mp hscene
    refine ⟨f, _, _, _, _, _, hbox, hframe, ?_, layout_sceneIn f kind options samples⟩
    simp only [sceneIn, List.map_append]

/-- Three samples, joined by two segments, on both sides of the horizontal axis. -/
theorem plots_have_their_layout_when_joined :
    ∃ plot, plotOf .continuous ⟨some "title", none, none, 2.0⟩
        [(0.0, 1.0), (1.0, 3.0), (2.0, -2.0)] = .ok plot
      ∧ plot.tail.length = 5 + 2 + 4 + 1 + 4
      ∧ ∃ f data axes box labels ticks,
          BoundingBox.ofSamples? [((0.0 : Float), (1.0 : Float)), (1.0, 3.0), (2.0, -2.0)]
            = some f.bounds
          ∧ Frame.ofBounds f.bounds = .ok f
          ∧ plot = .list (data ++ axes ++ box ++ labels ++ ticks)
          ∧ Layout f .continuous ⟨some "title", none, none, 2.0⟩
              [(0.0, 1.0), (1.0, 3.0), (2.0, -2.0)] data axes box labels ticks := by
  have hlength : (plotOf .continuous ⟨some "title", none, none, 2.0⟩
      [(0.0, 1.0), (1.0, 3.0), (2.0, -2.0)]).map (fun plot => plot.tail.length)
      = .ok (5 + 2 + 4 + 1 + 4) := by
    decide +kernel
  cases hplot : plotOf .continuous ⟨some "title", none, none, 2.0⟩
      [(0.0, 1.0), (1.0, 3.0), (2.0, -2.0)] with
  | error fault =>
    rw [hplot] at hlength
    cases hlength
  | ok plot =>
    rw [hplot] at hlength
    exact ⟨plot, rfl, Except.ok.inj hlength, plots_have_their_layout hplot⟩

end PlotLisp
