/-
  PlotLisp.Proofs.Plot.Geometry
  ──────────────────────────────────────
  **PLOTS FILL THEIR FRAMES.**

  With exact coordinates, what is drawn of the data and around it keeps to the
  rectangle between the edges of the frame:

    • `Contains f place` — the place lies in that rectangle, which is 20 wide and
      20 high;
    • `Primitive.LiesIn f` — a point does, or both ends of a line; one lemma for each
      part of a scene;
    • `Fits.baseline_nearest` — stems end as near to zero as the rectangle allows;
    • `FilledBy f kind samples elements` — all that a scene has to do with its frame.
-/
import PlotLisp.Proofs.Plot.Bounds

namespace PlotLisp

variable {f : Frame Rat} {S : Set (Position Rat)} {s t : Position Rat}

/-! ## §1. The rectangle. -/

/-- Of all numbers from `low` to `high`, `level` is the one nearest to zero. -/
structure NearestToZero (level low high : Rat) : Prop where
  low_le : low ≤ level
  le_high : level ≤ high
  nearest : ∀ y, low ≤ y → y ≤ high → y ≠ level → |level| < |y|

namespace Frame

/-- The place lies between the edges of the frame. -/
structure Contains (f : Frame Rat) (place : Position Rat) : Prop where
  left_le : f.left ≤ place.1
  le_right : place.1 ≤ f.right
  top_le : f.top ≤ place.2
  le_bottom : place.2 ≤ f.bottom

namespace Fits

/-- The box is 20 wide, whatever the data. -/
theorem right_sub_left (h : f.Fits) : f.right - f.left = 20 := by
  show f.bounds.xMax * f.xScale - f.bounds.xMin * f.xScale = 20
  rw [← sub_mul, h.width]

/-- The box is 20 high, whatever the data. -/
theorem bottom_sub_top (h : f.Fits) : f.bottom - f.top = 20 := by
  show -f.bounds.yMin * f.yScale - -f.bounds.yMax * f.yScale = 20
  rw [← sub_mul, neg_sub_neg, h.height]

theorem left_lt_right (h : f.Fits) : f.left < f.right := by
  have := h.right_sub_left
  linarith

theorem top_lt_bottom (h : f.Fits) : f.top < f.bottom := by
  have := h.bottom_sub_top
  linarith

/-- A larger abscissa lies further to the right. -/
theorem toScreen_fst_lt (h : f.Fits) (hlt : s.1 < t.1) :
    (f.toScreen s).1 < (f.toScreen t).1 :=
  mul_lt_mul_of_pos_right hlt h.xScale_pos

/-- A larger ordinate lies further up, where screen ordinates are smaller. -/
theorem toScreen_snd_lt (h : f.Fits) (hlt : s.2 < t.2) :
    (f.toScreen t).2 < (f.toScreen s).2 :=
  mul_lt_mul_of_pos_right (neg_lt_neg hlt) h.yScale_pos

/-- Positions that the box encloses are drawn in the rectangle. -/
theorem contains_toScreen (h : f.Fits) (hS : f.bounds.Encloses S) (hs : s ∈ S) :
    f.Contains (f.toScreen s) where
  left_le := mul_le_mul_of_nonneg_right (hS.xMin.2 ⟨s, hs, rfl⟩) h.xScale_pos.le
  le_right := mul_le_mul_of_nonneg_right (hS.xMax.2 ⟨s, hs, rfl⟩) h.xScale_pos.le
  top_le := mul_le_mul_of_nonneg_right (neg_le_neg (hS.yMax.2 ⟨s, hs, rfl⟩)) h.yScale_pos.le
  le_bottom := mul_le_mul_of_nonneg_right (neg_le_neg (hS.yMin.2 ⟨s, hs, rfl⟩)) h.yScale_pos.le

/-! ## §2. Axes and stems. -/

/-- Data that reach down to zero have the origin on their right. -/
theorem left_nonpos (h : f.Fits) (hmin : f.bounds.xMin ≤ 0) : f.left ≤ 0 :=
  mul_nonpos_of_nonpos_of_nonneg hmin h.xScale_pos.le

/-- Data that reach up to zero have the origin on their left. -/
theorem right_nonneg (h : f.Fits) (hmax : 0 ≤ f.bounds.xMax) : 0 ≤ f.right :=
  mul_nonneg hmax h.xScale_pos.le

/-- The vertical axis points down on the screen: the largest ordinate is the top. -/
theorem top_nonpos (h : f.Fits) (hmax : 0 ≤ f.bounds.yMax) : f.top ≤ 0 :=
  mul_nonpos_of_nonpos_of_nonneg (neg_nonpos.mpr hmax) h.yScale_pos.le

theorem bottom_nonneg (h : f.Fits) (hmin : f.bounds.yMin ≤ 0) : 0 ≤ f.bottom :=
  mul_nonneg (neg_nonneg.mpr hmin) h.yScale_pos.le

/-- Data below zero lie below the origin of the screen as a whole. -/
theorem top_pos (h : f.Fits) (hmax : f.bounds.yMax < 0) : 0 < f.top :=
  mul_pos (neg_pos.mpr hmax) h.yScale_pos

/-- Data above zero lie above the origin of the screen as a whole. -/
theorem bottom_neg (h : f.Fits) (hmin : 0 < f.bounds.yMin) : f.bottom < 0 :=
  mul_neg_of_neg_of_pos (neg_lt_zero.mpr hmin) h.yScale_pos

end Fits

/-- **Stems end at the level nearest to zero**: at zero if it lies in the rectangle, else at
the edge on its side. -/
theorem Fits.baseline_nearest (h : f.Fits) : NearestToZero f.baseline f.top f.bottom := by
  have hedges := h.top_lt_bottom
  rw [baseline_eq]
  by_cases hvisible : f.bounds.xAxisVisible = true
  · -- zero itself is in the rectangle
    obtain ⟨hmin, hmax⟩ := BoundingBox.xAxisVisible_iff.mp hvisible
    rw [if_pos hvisible]
    refine ⟨h.top_nonpos hmax, h.bottom_nonneg hmin, ?_⟩
    intro y _ _ hy
    rw [abs_zero]
    exact abs_pos.mpr hy
  · rw [if_neg hvisible]
    by_cases hmin : 0 < f.bounds.yMin
    · -- the data lies above zero, the rectangle on the negative side
      have hbottom := h.bottom_neg hmin
      rw [if_pos hmin]
      refine ⟨hedges.le, le_rfl, ?_⟩
      intro y _ hle hy
      have hlt : y < f.bottom := lt_of_le_of_ne hle hy
      rw [abs_of_neg hbottom, abs_of_neg (hlt.trans hbottom)]
      exact neg_lt_neg hlt
    · -- the data lies below zero, the rectangle on the positive side
      have hmax : f.bounds.yMax < 0 := by
        by_contra hmax
        exact hvisible (BoundingBox.xAxisVisible_iff.mpr ⟨not_lt.mp hmin, not_lt.mp hmax⟩)
      have htop := h.top_pos hmax
      rw [if_neg hmin]
      refine ⟨le_rfl, hedges.le, ?_⟩
      intro y hle _ hy
      have hlt : f.top < y := lt_of_le_of_ne hle hy.symm
      rw [abs_of_pos htop, abs_of_pos (htop.trans hlt)]
      exact hlt

end Frame

/-! ## §3. What is drawn. -/

/-- The place of a point. -/
def Primitive.point? {K : Type} : Primitive K → Option (Position K)
  | .point place _ => some place
  | _ => none

/-- A point lies in the frame, a line with both of its ends. -/
def Primitive.LiesIn (f : Frame Rat) : Primitive Rat → Prop
  | .point place _ => f.Contains place
  | .line start stop => f.Contains start ∧ f.Contains stop
  | .text .. => True

section Points

variable {K : Type} [Scalar K] (f : Frame K) (options : PlotOptions K)

/-- Stems add no points to those of the samples. -/
theorem points_stems (samples : List (Position K)) :
    (stems f samples).filterMap Primitive.point? = samples.map f.toScreen := by
  induction samples with
  | nil => rfl
  | cons s rest ih => exact congrArg (f.toScreen s :: ·) ih

/-- Segments add no points to those of the samples. -/
theorem points_segments (previous : Position K) (samples : List (Position K)) :
    (segments f previous samples).filterMap Primitive.point? = samples.map f.toScreen := by
  induction samples generalizing previous with
  | nil => rfl
  | cons s rest ih => exact congrArg (f.toScreen s :: ·) (ih (f.toScreen s))

/-- Of either kind, a plot has one point for every sample, in order. -/
theorem points_dataPart (kind : PlotKind) (samples : List (Position K)) :
    (dataPart f samples kind).filterMap Primitive.point? = samples.map f.toScreen := by
  cases kind with
  | discrete => exact points_stems f samples
  | continuous =>
    cases samples with
    | nil => rfl
    | cons s rest => exact congrArg (f.toScreen s :: ·) (points_segments f (f.toScreen s) rest)

theorem points_axes : (axes f).filterMap Primitive.point? = [] := by
  unfold axes
  cases f.bounds.xAxisVisible <;> cases f.bounds.yAxisVisible <;> rfl

omit [Scalar K] in
/-- Labels are no points. -/
theorem points_label (text : Option String) (place : Position K) (rotation : Rotation) :
    (label options text place rotation).filterMap Primitive.point? = [] := by
  cases text <;> rfl

/-- The points of a scene are the samples, one each. -/
theorem points_sceneIn (kind : PlotKind) (samples : List (Position K)) :
    (sceneIn f kind options samples).filterMap Primitive.point? = samples.map f.toScreen := by
  have hbox : (box f).filterMap Primitive.point? = [] := rfl
  have hticks : (ticks f options).filterMap Primitive.point? = [] := rfl
  simp only [sceneIn, labels, List.filterMap_append, points_dataPart, points_axes, points_label,
    hbox, hticks, List.append_nil]

end Points

/-! ## §4. Nothing sticks out. -/

section LiesIn

variable {samples : List (Position Rat)}

/-- A stem ends at the baseline, which is in the frame. -/
theorem liesIn_stems (h : f.Fits) (hsamples : ∀ s ∈ samples, f.Contains (f.toScreen s)) :
    ∀ e ∈ stems f samples, e.LiesIn f := by
  intro e he
  obtain ⟨s, hs, he⟩ := List.mem_flatMap.mp he
  have hplace := hsamples s hs
  have hfoot : f.Contains ((f.toScreen s).1, f.baseline) :=
    ⟨hplace.left_le, hplace.le_right, h.baseline_nearest.low_le, h.baseline_nearest.le_high⟩
  rcases List.mem_pair.mp he with rfl | rfl
  · exact hplace
  · exact ⟨hplace, hfoot⟩

/-- Each segment starts where the one before it, or the first point, ended. -/
theorem liesIn_segments {previous : Position Rat} (hprevious : f.Contains previous)
    (hsamples : ∀ s ∈ samples, f.Contains (f.toScreen s)) :
    ∀ e ∈ segments f previous samples, e.LiesIn f := by
  induction samples generalizing previous with
  | nil => exact List.forall_mem_nil _
  | cons s rest ih =>
    obtain ⟨hs, hrest⟩ := List.forall_mem_cons.mp hsamples
    exact List.forall_mem_cons.mpr ⟨hs, List.forall_mem_cons.mpr ⟨⟨hprevious, hs⟩, ih hs hrest⟩⟩

/-- What is drawn for the data is where the data are, or at the baseline. -/
theorem liesIn_dataPart (h : f.Fits) (hsamples : ∀ s ∈ samples, f.Contains (f.toScreen s))
    (kind : PlotKind) : ∀ e ∈ dataPart f samples kind, e.LiesIn f := by
  cases kind with
  | discrete => exact liesIn_stems h hsamples
  | continuous =>
    cases samples with
    | nil => exact List.forall_mem_nil _
    | cons s rest =>
      obtain ⟨hs, hrest⟩ := List.forall_mem_cons.mp hsamples
      exact List.forall_mem_cons.mpr ⟨hs, liesIn_segments hs hrest⟩

/-- Axes are drawn only where zero lies between the edges that they join. -/
theorem liesIn_axes (h : f.Fits) : ∀ e ∈ axes f, e.LiesIn f := by
  have hwidth := h.left_lt_right.le
  have hheight := h.top_lt_bottom.le
  refine List.forall_mem_append.mpr ⟨?_, ?_⟩
  · by_cases hvisible : f.bounds.xAxisVisible = true
    · obtain ⟨hmin, hmax⟩ := BoundingBox.xAxisVisible_iff.mp hvisible
      have htop := h.top_nonpos hmax
      have hbottom := h.bottom_nonneg hmin
      rw [if_pos hvisible]
      exact List.forall_mem_singleton.mpr
        ⟨⟨le_rfl, hwidth, htop, hbottom⟩, ⟨hwidth, le_rfl, htop, hbottom⟩⟩
    · rw [if_neg hvisible]
      exact List.forall_mem_nil _
  · by_cases hvisible : f.bounds.yAxisVisible = true
    · obtain ⟨hmin, hmax⟩ := BoundingBox.yAxisVisible_iff.mp hvisible
      have hleft := h.left_nonpos hmin
      have hright := h.right_nonneg hmax
      rw [if_pos hvisible]
      exact List.forall_mem_singleton.mpr
        ⟨⟨hleft, hright, hheight, le_rfl⟩, ⟨hleft, hright, le_rfl, hheight⟩⟩
    · rw [if_neg hvisible]
      exact List.forall_mem_nil _

/-- The edges of the box join its corners. -/
theorem liesIn_box (h : f.Fits) : ∀ e ∈ box f, e.LiesIn f := by
  have hwidth := h.left_lt_right.le
  have hheight := h.top_lt_bottom.le
  have htopLeft : f.Contains (f.left, f.top) := ⟨le_rfl, hwidth, le_rfl, hheight⟩
  have htopRight : f.Contains (f.right, f.top) := ⟨hwidth, le_rfl, le_rfl, hheight⟩
  have hbottomLeft : f.Contains (f.left, f.bottom) := ⟨le_rfl, hwidth, hheight, le_rfl⟩
  have hbottomRight : f.Contains (f.right, f.bottom) := ⟨hwidth, le_rfl, hheight, le_rfl⟩
  simp only [box, List.forall_mem_cons, List.not_mem_nil, false_implies, implies_true, and_true]
  exact ⟨⟨htopLeft, htopRight⟩, ⟨hbottomLeft, hbottomRight⟩, ⟨htopLeft, hbottomLeft⟩,
    ⟨htopRight, hbottomRight⟩⟩

/-- Only lines and points have to stay in the frame; texts stand around it. -/
theorem liesIn_labels (options : PlotOptions Rat) : ∀ e ∈ labels f options, e.LiesIn f := by
  have hlabel (text : Option String) (place : Position Rat) (rotation : Rotation) :
      ∀ e ∈ label options text place rotation, e.LiesIn f := by
    cases text with
    | none => exact List.forall_mem_nil _
    | some words => exact List.forall_mem_singleton.mpr trivial
  exact List.forall_mem_append.mpr
    ⟨List.forall_mem_append.mpr ⟨hlabel _ _ _, hlabel _ _ _⟩, hlabel _ _ _⟩

theorem liesIn_ticks (options : PlotOptions Rat) : ∀ e ∈ ticks f options, e.LiesIn f := by
  simp only [ticks, List.forall_mem_cons, List.not_mem_nil, false_implies, implies_true, and_true]
  exact ⟨trivial, trivial, trivial, trivial⟩

/-- **The points and lines of a scene keep to the rectangle.** -/
theorem liesIn_sceneIn (h : f.Fits) (hsamples : ∀ s ∈ samples, f.Contains (f.toScreen s))
    (kind : PlotKind) (options : PlotOptions Rat) :
    ∀ e ∈ sceneIn f kind options samples, e.LiesIn f := by
  simp only [sceneIn, List.forall_mem_append]
  exact ⟨⟨⟨⟨liesIn_dataPart h hsamples kind, liesIn_axes h⟩, liesIn_box h⟩,
    liesIn_labels options⟩, liesIn_ticks options⟩

end LiesIn

/-! ## §5. Whole plots. -/

/-- What is drawn fills the frame, and nothing of it sticks out. -/
structure Frame.FilledBy (f : Frame Rat) (kind : PlotKind) (samples : List (Position Rat))
    (elements : Scene Rat) : Prop where
  width : f.right - f.left = 20
  height : f.bottom - f.top = 20
  /-- The points are the samples' places. -/
  points : elements.filterMap Primitive.point? = samples.map f.toScreen
  inside : ∀ place ∈ elements.filterMap Primitive.point?, f.Contains place
  reachesLeft : ∃ place ∈ elements.filterMap Primitive.point?, place.1 = f.left
  reachesRight : ∃ place ∈ elements.filterMap Primitive.point?, place.1 = f.right
  reachesTop : ∃ place ∈ elements.filterMap Primitive.point?, place.2 = f.top
  reachesBottom : ∃ place ∈ elements.filterMap Primitive.point?, place.2 = f.bottom
  rightwards : ∀ s t : Position Rat, s.1 < t.1 → (f.toScreen s).1 < (f.toScreen t).1
  upwards : ∀ s t : Position Rat, s.2 < t.2 → (f.toScreen t).2 < (f.toScreen s).2
  lines : ∀ start stop, .line start stop ∈ elements → f.Contains start ∧ f.Contains stop
  /-- A discrete plot begins with the points, each followed by its stem. -/
  stems : kind = .discrete → ∃ level size others, NearestToZero level f.top f.bottom
    ∧ elements = samples.flatMap (fun s =>
        [.point (f.toScreen s) size, .line (f.toScreen s) ((f.toScreen s).1, level)]) ++ others

/-- A frame that fits the box of the samples is filled by them. -/
theorem Frame.Fits.filledBy {samples : List (Position Rat)} (h : f.Fits)
    (hbox : f.bounds.Encloses {s | s ∈ samples}) (kind : PlotKind) (options : PlotOptions Rat) :
    f.FilledBy kind samples (sceneIn f kind options samples) := by
  have hpoints := points_sceneIn f options kind samples
  have hsamples : ∀ s ∈ samples, f.Contains (f.toScreen s) :=
    fun s hs => h.contains_toScreen hbox hs
  have hlies := liesIn_sceneIn h hsamples kind options
  -- an extreme of the samples is drawn on the edge that it is scaled to
  have hreached {P : Position Rat → Prop} {s : Position Rat} (hs : s ∈ samples)
      (hP : P (f.toScreen s)) :
      ∃ place ∈ (sceneIn f kind options samples).filterMap Primitive.point?, P place := by
    rw [hpoints]
    exact ⟨_, List.mem_map_of_mem hs, hP⟩
  obtain ⟨left, hleft, hxMin⟩ := hbox.xMin.1
  obtain ⟨right, hright, hxMax⟩ := hbox.xMax.1
  obtain ⟨bottom, hbottom, hyMin⟩ := hbox.yMin.1
  obtain ⟨top, htop, hyMax⟩ := hbox.yMax.1
  exact {
    width := h.right_sub_left
    height := h.bottom_sub_top
    points := hpoints
    inside := by
      rw [hpoints]
      exact List.forall_mem_map.mpr hsamples
    reachesLeft := hreached hleft (by rw [Frame.left, ← hxMin]; rfl)
    reachesRight := hreached hright (by rw [Frame.right, ← hxMax]; rfl)
    reachesTop := hreached htop (by rw [Frame.top, ← hyMax]; rfl)
    reachesBottom := hreached hbottom (by rw [Frame.bottom, ← hyMin]; rfl)
    rightwards := fun s t hlt => h.toScreen_fst_lt hlt
    upwards := fun s t hlt => h.toScreen_snd_lt hlt
    lines := fun start stop hline => hlies _ hline
    stems := by
      rintro rfl
      refine ⟨f.baseline, PlotKind.discrete.pointSize,
        axes f ++ box f ++ labels f options ++ ticks f options, h.baseline_nearest, ?_⟩
      simp only [sceneIn, List.append_assoc]
      rfl }

/-- **Plots fill their frames.**  Over exact coordinates, samples are plotted exactly if two
of them differ in their abscissas and two in their ordinates.  Then all points and lines
lie in the rectangle of 20 × 20 that the frame of the samples' box spans, the points reach
all four of its sides, and stems drop straight to the level nearest to zero. -/
theorem plots_fill_their_frames (kind : PlotKind) (options : PlotOptions Rat)
    (samples : List (Position Rat)) :
    ((∃ elements, scene kind options samples = .ok elements) ↔
      (∃ s ∈ samples, ∃ t ∈ samples, s.1 ≠ t.1) ∧ ∃ s ∈ samples, ∃ t ∈ samples, s.2 ≠ t.2)
    ∧ ∀ elements, scene kind options samples = .ok elements →
        ∃ f : Frame Rat, BoundingBox.ofSamples? samples = some f.bounds
          ∧ Frame.ofBounds f.bounds = .ok f ∧ f.FilledBy kind samples elements := by
  refine ⟨exists_scene_iff, ?_⟩
  intro elements h
  obtain ⟨-, f, hbox, hframe, rfl⟩ := scene_eq_ok_iff.mp h
  have hfits := Frame.ofBounds_fits hframe
  have hencloses := BoundingBox.ofSamples?_eq_some_iff.mp hbox
  exact ⟨f, hbox, hframe, hfits.filledBy hencloses kind options⟩

/-- All ordinates are negative, so that stems end at the top. -/
theorem plots_fill_their_frames_below_zero :
    ∃ elements, ∃ f : Frame Rat,
      scene .discrete .default [(0, -1), (3, -2), (1, -5)] = .ok elements
      ∧ f.top = 5 ∧ f.baseline = 5
      ∧ f.FilledBy .discrete [(0, -1), (3, -2), (1, -5)] elements := by
  obtain ⟨hspread, hfilled⟩ :=
    plots_fill_their_frames .discrete .default [(0, -1), (3, -2), (1, -5)]
  obtain ⟨elements, h⟩ := hspread.mpr (by decide +kernel)
  obtain ⟨f, hbox, hframe, hf⟩ := hfilled elements h
  have hbounds : BoundingBox.ofSamples? [((0 : Rat), (-1 : Rat)), (3, -2), (1, -5)]
      = some ⟨0, 3, -5, -1⟩ := by
    decide +kernel
  have hscales : Frame.ofBounds (⟨0, 3, -5, -1⟩ : BoundingBox Rat)
      = .ok ⟨⟨0, 3, -5, -1⟩, 20 / 3, 5⟩ := by
    decide +kernel
  obtain rfl : f = ⟨⟨0, 3, -5, -1⟩, 20 / 3, 5⟩ := by
    rw [← Option.some.inj (hbounds.symm.trans hbox)] at hframe
    exact (Except.ok.inj (hscales.symm.trans hframe)).symm
  exact ⟨elements, _, h, by decide +kernel, by decide +kernel, hf⟩

end PlotLisp
