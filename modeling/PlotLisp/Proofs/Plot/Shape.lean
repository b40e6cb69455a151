/-
  PlotLisp.Proofs.Plot.Shape
  ──────────────────────────────────────
  **PLOTS SHOW THE SHAPE OF DATA.**

  With exact coordinates, neither the units of the data nor, for a discrete plot,
  its order can be seen in a plot:

    • `stretch c d` — the data in other units; boxes and frames are stretched in the
      same way, and a stretched frame draws stretched samples where the frame drew
      the samples;
    • `scene_stretch` — so only the quantities that the ticks name change;
    • `scene_perm` — samples in another order have the same box, and each of them is
      drawn by itself.
-/
import Mathlib.Data.List.FinRange
import PlotLisp.Proofs.Plot.Bounds

namespace PlotLisp

variable {samples samples' : List (Position Rat)} {b : BoundingBox Rat} {S : Set (Position Rat)}
  {c d : Rat}

/-! ## §1. Other units. -/

/-- The position in units that make abscissas `c` times and ordinates `d` times as large. -/
def stretch (c d : Rat) (s : Position Rat) : Position Rat := (s.1 * c, s.2 * d)

/-- The box in such units. -/
def BoundingBox.stretch (c d : Rat) (b : BoundingBox Rat) : BoundingBox Rat :=
  ⟨b.xMin * c, b.xMax * c, b.yMin * d, b.yMax * d⟩

/-- The frame of the box in such units. -/
def Frame.stretch (c d : Rat) (f : Frame Rat) : Frame Rat :=
  ⟨f.bounds.stretch c d, f.xScale / c, f.yScale / d⟩

/-- The box of the stretched samples is the stretched box. -/
theorem BoundingBox.Encloses.stretch (h : b.Encloses S) (hc : 0 < c) (hd : 0 < d) :
    (b.stretch c d).Encloses (PlotLisp.stretch c d '' S) := by
  have hx : Monotone (· * c) := fun _ _ hle => mul_le_mul_of_nonneg_right hle hc.le
  have hy : Monotone (· * d) := fun _ _ hle => mul_le_mul_of_nonneg_right hle hd.le
  have hfst : Prod.fst '' (PlotLisp.stretch c d '' S) = (· * c) '' (Prod.fst '' S) := by
    rw [Set.image_image, Set.image_image]
    rfl
  have hsnd : Prod.snd '' (PlotLisp.stretch c d '' S) = (· * d) '' (Prod.snd '' S) := by
    rw [Set.image_image, Set.image_image]
    rfl
  refine ⟨?_, ?_, ?_, ?_⟩
  · rw [hfst]
    exact hx.map_isLeast h.xMin
  · rw [hfst]
    exact hx.map_isGreatest h.xMax
  · rw [hsnd]
    exact hy.map_isLeast h.yMin
  · rw [hsnd]
    exact hy.map_isGreatest h.yMax

/-- The box of stretched samples is the stretched box. -/
theorem ofSamples?_stretch (hc : 0 < c) (hd : 0 < d) :
    BoundingBox.ofSamples? (samples.map (stretch c d))
      = (BoundingBox.ofSamples? samples).map (BoundingBox.stretch c d) := by
  cases hbox : BoundingBox.ofSamples? samples with
  | none =>
    cases samples with
    | nil => rfl
    | cons s rest => cases hbox
  | some b =>
    have hset : {s | s ∈ samples.map (stretch c d)} = stretch c d '' {s | s ∈ samples} := by
      ext s
      exact List.mem_map
    refine BoundingBox.ofSamples?_eq_some_iff.mpr ?_
    rw [hset]
    exact (BoundingBox.ofSamples?_eq_some_iff.mp hbox).stretch hc hd

/-- Its frame is the stretched frame; it has none if the box had none. -/
theorem ofBounds_stretch (hc : 0 < c) (hd : 0 < d) :
    Frame.ofBounds (b.stretch c d) = (Frame.ofBounds b).map (Frame.stretch c d) := by
  have hx : b.xMax * c ≤ b.xMin * c ↔ b.xMax ≤ b.xMin := mul_le_mul_iff_left₀ hc
  have hy : b.yMax * d ≤ b.yMin * d ↔ b.yMax ≤ b.yMin := mul_le_mul_iff_left₀ hd
  rw [Frame.ofBounds_eq, Frame.ofBounds_eq]
  -- positive factors keep the extremes apart or equal, along each axis
  simp only [BoundingBox.stretch, hx, hy]
  by_cases hwidth : b.xMax ≤ b.xMin
  · rw [if_pos hwidth, if_pos hwidth]
    rfl
  · by_cases hheight : b.yMax ≤ b.yMin
    · rw [if_neg hwidth, if_neg hwidth, if_pos hheight, if_pos hheight]
      rfl
    · rw [if_neg hwidth, if_neg hwidth, if_neg hheight, if_neg hheight]
      simp only [Except.map, Frame.stretch, BoundingBox.stretch, ← sub_mul, div_div]

/-! ## §2. Stretched frames. -/

/-- A coordinate in other units, at the scale for these units. -/
theorem mul_mul_div_eq {c : Rat} (hc : 0 < c) (x scale : Rat) : x * c * (scale / c) = x * scale := by
  have := hc.ne'
  field_simp

namespace Frame

variable (f : Frame Rat)

theorem left_stretch (hc : 0 < c) : (f.stretch c d).left = f.left := mul_mul_div_eq hc _ _

theorem right_stretch (hc : 0 < c) : (f.stretch c d).right = f.right := mul_mul_div_eq hc _ _

/-- The upper edge is where it was: the scale shrinks as the samples grow. -/
theorem top_stretch (hd : 0 < d) : (f.stretch c d).top = f.top := by
  show -(f.bounds.yMax * d) * (f.yScale / d) = -f.bounds.yMax * f.yScale
  rw [← neg_mul, mul_mul_div_eq hd]

theorem bottom_stretch (hd : 0 < d) : (f.stretch c d).bottom = f.bottom := by
  show -(f.bounds.yMin * d) * (f.yScale / d) = -f.bounds.yMin * f.yScale
  rw [← neg_mul, mul_mul_div_eq hd]

/-- Stretched samples are drawn where the samples were. -/
theorem toScreen_stretch (hc : 0 < c) (hd : 0 < d) (s : Position Rat) :
    (f.stretch c d).toScreen (PlotLisp.stretch c d s) = f.toScreen s := by
  refine Prod.ext (mul_mul_div_eq hc _ _) ?_
  show -(s.2 * d) * (f.yScale / d) = -s.2 * f.yScale
  rw [← neg_mul, mul_mul_div_eq hd]

/-- Units do not move zero. -/
theorem nonpos_stretch {c : Rat} (hc : 0 < c) (x : Rat) : x * c ≤ 0 ↔ x ≤ 0 := by
  rw [← not_lt, ← not_lt, mul_pos_iff_of_pos_right hc]

/-- An axis is drawn for the sign of the bounds, which positive factors keep. -/
theorem xAxisVisible_stretch (hd : 0 < d) :
    (f.stretch c d).bounds.xAxisVisible = f.bounds.xAxisVisible := by
  rw [Bool.eq_iff_iff, BoundingBox.xAxisVisible_iff, BoundingBox.xAxisVisible_iff]
  exact and_congr (nonpos_stretch hd _) (mul_nonneg_iff_of_pos_right hd)

theorem yAxisVisible_stretch (hc : 0 < c) :
    (f.stretch c d).bounds.yAxisVisible = f.bounds.yAxisVisible := by
  rw [Bool.eq_iff_iff, BoundingBox.yAxisVisible_iff, BoundingBox.yAxisVisible_iff]
  exact and_congr (nonpos_stretch hc _) (mul_nonneg_iff_of_pos_right hc)

/-- Stems start at the level they started at, axis or edge. -/
theorem baseline_stretch (hd : 0 < d) : (f.stretch c d).baseline = f.baseline := by
  have hpos : 0 < (f.stretch c d).bounds.yMin ↔ 0 < f.bounds.yMin := mul_pos_iff_of_pos_right hd
  simp only [baseline_eq, f.xAxisVisible_stretch hd, f.bottom_stretch hd, f.top_stretch hd, hpos]

end Frame

/-! ## §3. Scenes in other units. -/

section Scenes

variable (f : Frame Rat) (hc : 0 < c) (hd : 0 < d)

include hc hd

/-- Each segment joins the points it joined. -/
theorem segments_stretch (previous : Position Rat) (samples : List (Position Rat)) :
    segments (f.stretch c d) previous (samples.map (stretch c d))
      = segments f previous samples := by
  induction samples generalizing previous with
  | nil => rfl
  | cons s rest ih =>
    rw [List.map_cons, segments, segments, f.toScreen_stretch hc hd, ih]

/-- Nothing that shows the samples moves. -/
theorem dataPart_stretch (kind : PlotKind) (samples : List (Position Rat)) :
    dataPart (f.stretch c d) (samples.map (stretch c d)) kind = dataPart f samples kind := by
  cases kind with
  | discrete =>
    simp only [dataPart, stems, List.flatMap_map, f.toScreen_stretch hc hd, f.baseline_stretch hd]
  | continuous =>
    cases samples with
    | nil => rfl
    | cons s rest =>
      simp only [dataPart, List.map_cons, polyline, f.toScreen_stretch hc hd,
        segments_stretch f hc hd]

theorem axes_stretch : axes (f.stretch c d) = axes f := by
  simp only [axes, f.xAxisVisible_stretch hd, f.yAxisVisible_stretch hc, f.left_stretch hc,
    f.right_stretch hc, f.top_stretch hd, f.bottom_stretch hd]

theorem box_stretch : box (f.stretch c d) = box f := by
  simp only [box, f.left_stretch hc, f.right_stretch hc, f.top_stretch hd, f.bottom_stretch hd]

/-- Title and labels stand at the box, which stays. -/
theorem labels_stretch (options : PlotOptions Rat) :
    labels (f.stretch c d) options = labels f options := by
  simp only [labels, Frame.xMid, Frame.yMid, f.left_stretch hc, f.right_stretch hc,
    f.top_stretch hd, f.bottom_stretch hd]

end Scenes

/-- Two texts that name quantities and are otherwise the same. -/
inductive SameButQuantity : Primitive Rat → Primitive Rat → Prop where
  | text (x x' : Rat) (place : Position Rat) (scale : Rat) (rotation : Rotation) :
      SameButQuantity (.text (.quantity x) place scale rotation)
        (.text (.quantity x') place scale rotation)

/-- Two plots are refused for the same reason, or have the same elements but for what the four
ticks at their ends say. -/
inductive SameButTicks : Except PlotRefusal (Scene Rat) → Except PlotRefusal (Scene Rat) → Prop where
  | refused (refusal : PlotRefusal) : SameButTicks (.error refusal) (.error refusal)
  | drawn (elements : Scene Rat) {ticks ticks' : Scene Rat} : ticks.length = 4 →
      List.Forall₂ SameButQuantity ticks ticks' →
      SameButTicks (.ok (elements ++ ticks)) (.ok (elements ++ ticks'))

/-- The ticks stand where they stood; only the numbers they show are stretched. -/
theorem ticks_stretch (f : Frame Rat) (hc : 0 < c) (hd : 0 < d) (options : PlotOptions Rat) :
    List.Forall₂ SameButQuantity (ticks f options) (ticks (f.stretch c d) options) := by
  simp only [ticks, f.left_stretch hc, f.right_stretch hc, f.top_stretch hd, f.bottom_stretch hd]
  exact .cons (.text ..) (.cons (.text ..) (.cons (.text ..) (.cons (.text ..) .nil)))

/-- **Units show in the ticks only.** -/
theorem scene_stretch (hc : 0 < c) (hd : 0 < d) (kind : PlotKind) (options : PlotOptions Rat)
    (samples : List (Position Rat)) :
    SameButTicks (scene kind options samples)
      (scene kind options (samples.map (stretch c d))) := by
  simp only [scene, all_isFinitePosition, Bool.not_true, Bool.false_eq_true, if_false,
    ofSamples?_stretch hc hd]
  cases BoundingBox.ofSamples? samples with
  | none => exact .refused _
  | some b =>
    simp only [Option.map_some, ofBounds_stretch hc hd]
    cases Frame.ofBounds b with
    | error refusal => exact .refused _
    | ok f =>
      simp only [Except.map, sceneIn, dataPart_stretch f hc hd, axes_stretch f hc hd,
        box_stretch f hc hd, labels_stretch f hc hd]
      exact .drawn _ rfl (ticks_stretch f hc hd options)

/-! ## §4. Another order. -/

/-- The samples in the order that `σ` gives them. -/
def reorder (samples : List (Position Rat)) (σ : Equiv.Perm (Fin samples.length)) :
    List (Position Rat) :=
  List.ofFn fun i => samples.get (σ i)

/-- A reordered list of samples is a permutation of it. -/
theorem perm_reorder (samples : List (Position Rat)) (σ : Equiv.Perm (Fin samples.length)) :
    (reorder samples σ).Perm samples := by
  have h := σ.ofFn_comp_perm samples.get
  rwa [List.ofFn_get] at h

/-- The box does not depend on the order. -/
theorem ofSamples?_perm (h : samples.Perm samples') :
    BoundingBox.ofSamples? samples = BoundingBox.ofSamples? samples' := by
  have hset : {s | s ∈ samples} = {s | s ∈ samples'} := by
    ext s
    exact h.mem_iff
  refine Option.ext ?_
  intro b
  rw [BoundingBox.ofSamples?_eq_some_iff, BoundingBox.ofSamples?_eq_some_iff, hset]

/-- A point and the stem that starts from it. -/
inductive IsStemmedPoint : Primitive Rat × Primitive Rat → Prop where
  | intro (place : Position Rat) (size : Rat) (foot : Position Rat) :
      IsStemmedPoint (.point place size, .line place foot)

/-- Two plots are refused for the same reason; or each is made of pairs of a point and its stem,
in the one plot in the order that `σ` gives those of the other, and of the same other
elements behind them. -/
inductive SameReordered {n : Nat} (σ : Equiv.Perm (Fin n)) :
    Except PlotRefusal (Scene Rat) → Except PlotRefusal (Scene Rat) → Prop where
  | refused (refusal : PlotRefusal) : SameReordered σ (.error refusal) (.error refusal)
  | drawn (pairs : Fin n → Primitive Rat × Primitive Rat) (others : Scene Rat) :
      (∀ i, IsStemmedPoint (pairs i)) →
      SameReordered σ (.ok ((List.ofFn pairs).flatMap (fun p => [p.1, p.2]) ++ others))
        (.ok ((List.ofFn fun i => pairs (σ i)).flatMap (fun p => [p.1, p.2]) ++ others))

/-- How a discrete plot draws one sample. -/
def stemmed (f : Frame Rat) (s : Position Rat) : Primitive Rat × Primitive Rat :=
  (.point (f.toScreen s) PlotKind.discrete.pointSize,
    .line (f.toScreen s) ((f.toScreen s).1, f.baseline))

/-- Stems and points come pairwise, in the order of the samples. -/
theorem stems_ofFn (f : Frame Rat) {n : Nat} (samples : Fin n → Position Rat) :
    stems f (List.ofFn samples)
      = (List.ofFn fun i => stemmed f (samples i)).flatMap fun p => [p.1, p.2] := by
  have hpairs : (List.ofFn fun i => stemmed f (samples i))
      = (List.ofFn samples).map (stemmed f) := by
    rw [List.map_ofFn]
    rfl
  rw [hpairs, List.flatMap_map]
  rfl

/-- **The order of samples shows in the order of their points only.** -/
theorem scene_reorder (options : PlotOptions Rat) (samples : List (Position Rat))
    (σ : Equiv.Perm (Fin samples.length)) :
    SameReordered σ (scene .discrete options samples)
      (scene .discrete options (reorder samples σ)) := by
  simp only [scene, all_isFinitePosition, Bool.not_true, Bool.false_eq_true, if_false,
    ofSamples?_perm (perm_reorder samples σ)]
  cases BoundingBox.ofSamples? samples with
  | none => exact .refused _
  | some b =>
    cases hframe : Frame.ofBounds b with
    | error refusal =>
      simp only [hframe]
      exact .refused _
    | ok f =>
      -- only the data part sees the samples themselves, and it draws them one by one
      have hsamples := stems_ofFn f samples.get
      rw [List.ofFn_get] at hsamples
      have hreordered := stems_ofFn f fun i => samples.get (σ i)
      simp only [hframe, Except.map, sceneIn, dataPart, List.append_assoc, hsamples]
      unfold reorder
      rw [hreordered]
      exact .drawn (fun i => stemmed f (samples.get i)) _ fun i => .intro _ _ _

/-! ## §5. Shape. -/

/-- **Plots show the shape of data.**  Over exact coordinates, other units change nothing in a
plot but the quantities at its ticks, and another order of the samples of a discrete plot
changes nothing but the order of the points with their stems. -/
theorem plots_show_shape_only (options : PlotOptions Rat) (samples : List (Position Rat)) :
    (∀ c d : Rat, 0 < c → 0 < d → ∀ kind, SameButTicks (scene kind options samples)
        (scene kind options (samples.map (stretch c d))))
    ∧ ∀ σ : Equiv.Perm (Fin samples.length), SameReordered σ (scene .discrete options samples)
        (scene .discrete options (reorder samples σ)) :=
  ⟨fun _ _ hc hd kind => scene_stretch hc hd kind options samples, scene_reorder options samples⟩

/-- Three samples, drawn in order, in thousandths and triples, and in reverse. -/
theorem plots_show_shape_only_of_three :
    (scene .discrete .default [((0 : Rat), 1), (1, 3), (2, 2)]).toBool = true
    ∧ SameButTicks (scene .discrete .default [((0 : Rat), 1), (1, 3), (2, 2)])
        (scene .discrete .default
          ([((0 : Rat), 1), (1, 3), (2, 2)].map (stretch 1000 (1 / 3))))
    ∧ SameReordered (Equiv.swap (0 : Fin 3) 2)
        (scene .discrete .default [((0 : Rat), 1), (1, 3), (2, 2)])
        (scene .discrete .default
          (reorder [((0 : Rat), 1), (1, 3), (2, 2)] (Equiv.swap (0 : Fin 3) 2))) := by
  have hshape := plots_show_shape_only .default [((0 : Rat), 1), (1, 3), (2, 2)]
  refine ⟨by decide +kernel, ?_, hshape.2 (Equiv.swap (0 : Fin 3) 2)⟩
  exact hshape.1 1000 (1 / 3) (by norm_num) (by norm_num) .discrete

end PlotLisp
