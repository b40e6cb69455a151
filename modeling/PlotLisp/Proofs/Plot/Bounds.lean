/-
  PlotLisp.Proofs.Plot.Bounds
  ──────────────────────────────────────
  **THE EXTENT OF SAMPLES.**

  A scene is the one in the frame of the samples' box (`scene_eq_ok_iff`).  Over the
  rationals, where rounding does not blur what the geometry means:

    • `Encloses b S` — `b` is the least box that holds the positions in `S`; there is
      at most one;
    • `ofSamples?_eq_some_iff` — the scan over the samples ends with that box,
      whatever their order;
    • `Frame.Fits f` — the scales of `f` take its box to 20 × 20;
    • `exists_scene_iff` — there is a scene exactly if two samples differ in their
      abscissas and two in their ordinates.
-/
import Mathlib.Algebra.Order.Field.Rat
import Mathlib.Order.Bounds.Image
import Mathlib.Tactic.FieldSimp
import Mathlib.Tactic.Linarith
import PlotLisp.Plot.Scene
import PlotLisp.Proofs.Number.Grid

namespace PlotLisp

/-! ## §1. Whatever the scalar. -/

section Scalars

variable {K : Type} [Scalar K]

theorem BoundingBox.yAxisVisible_iff {b : BoundingBox K} :
    b.yAxisVisible = true ↔ b.xMin ≤ ((0 : Nat) : K) ∧ ((0 : Nat) : K) ≤ b.xMax := by
  simp only [yAxisVisible, Bool.and_eq_true, decide_eq_true_eq]

theorem BoundingBox.xAxisVisible_iff {b : BoundingBox K} :
    b.xAxisVisible = true ↔ b.yMin ≤ ((0 : Nat) : K) ∧ ((0 : Nat) : K) ≤ b.yMax := by
  simp only [xAxisVisible, Bool.and_eq_true, decide_eq_true_eq]

/-- A frame is one of its own box. -/
theorem Frame.bounds_of_ofBounds {b : BoundingBox K} {f : Frame K} (h : ofBounds b = .ok f) :
    f.bounds = b := by
  unfold ofBounds at h
  simp only at h
  split at h
  · cases h
  · split at h
    · cases h
    · cases h
      rfl

/-- What is drawn is the scene in the frame of the samples' box. -/
theorem scene_eq_ok_iff {kind : PlotKind} {options : PlotOptions K} {samples : List (Position K)}
    {elements : Scene K} :
    scene kind options samples = .ok elements ↔
      samples.all isFinitePosition = true
      ∧ ∃ f, BoundingBox.ofSamples? samples = some f.bounds ∧ Frame.ofBounds f.bounds = .ok f
          ∧ elements = sceneIn f kind options samples := by
  unfold scene
  cases hfinite : samples.all isFinitePosition with
  | false => simp
  | true =>
    cases hbox : BoundingBox.ofSamples? samples with
    | none => simp
    | some b =>
      simp only [Bool.not_true, Bool.false_eq_true, if_false, true_and, Option.some.injEq]
      constructor
      · intro h
        cases hframe : Frame.ofBounds b with
        | error refusal =>
          rw [hframe] at h
          cases h
        | ok f =>
          rw [hframe] at h
          cases h
          obtain rfl := Frame.bounds_of_ofBounds hframe
          exact ⟨f, rfl, hframe, rfl⟩
      · rintro ⟨f, rfl, hframe, rfl⟩
        rw [hframe]
        rfl

end Scalars

variable {samples : List (Position Rat)} {b b' : BoundingBox Rat} {S : Set (Position Rat)}

/-! ## §2. Extremes. -/

namespace BoundingBox

/-- Each side of the box is an extreme of the positions in `S`, and is reached. -/
structure Encloses (b : BoundingBox Rat) (S : Set (Position Rat)) : Prop where
  xMin : IsLeast (Prod.fst '' S) b.xMin
  xMax : IsGreatest (Prod.fst '' S) b.xMax
  yMin : IsLeast (Prod.snd '' S) b.yMin
  yMax : IsGreatest (Prod.snd '' S) b.yMax

theorem Encloses.unique (h : Encloses b S) (h' : Encloses b' S) : b = b' := by
  obtain ⟨x, x', y, y'⟩ := b
  obtain ⟨hx, hx', hy, hy'⟩ := h
  have hleft := hx.unique h'.xMin
  have hright := hx'.unique h'.xMax
  have hbottom := hy.unique h'.yMin
  have htop := hy'.unique h'.yMax
  cases b'
  simp_all

/-- Enough positions are there for the box to have sides. -/
theorem Encloses.nonempty (h : Encloses b S) : S.Nonempty :=
  Set.image_nonempty.mp h.xMin.nonempty

theorem encloses_single (s : Position Rat) : (single s).Encloses {s} := by
  refine ⟨?_, ?_, ?_, ?_⟩ <;> rw [Set.image_singleton]
  · exact isLeast_singleton
  · exact isGreatest_singleton
  · exact isLeast_singleton
  · exact isGreatest_singleton

/-- Growing the box takes in one more position. -/
theorem Encloses.extend (h : Encloses b S) (s : Position Rat) :
    (b.extend s).Encloses (insert s S) := by
  unfold BoundingBox.extend
  simp only [lesser_eq_min, greater_eq_max, min_comm _ s.1, min_comm _ s.2, max_comm _ s.1,
    max_comm _ s.2]
  refine ⟨?_, ?_, ?_, ?_⟩ <;> rw [Set.image_insert_eq]
  · exact h.xMin.insert s.1
  · exact h.xMax.insert s.1
  · exact h.yMin.insert s.2
  · exact h.yMax.insert s.2

/-- So the scan takes in all positions that it meets. -/
theorem Encloses.foldl_extend (h : Encloses b S) (rest : List (Position Rat)) :
    (rest.foldl BoundingBox.extend b).Encloses (S ∪ {s | s ∈ rest}) := by
  induction rest generalizing b S with
  | nil => simpa using h
  | cons s rest ih =>
    -- the first of them is taken in now, the others by the rest of the scan
    have hset : S ∪ {t | t ∈ s :: rest} = insert s S ∪ {t | t ∈ rest} := by
      ext t
      simp only [Set.mem_union, Set.mem_ofPred_eq, Set.mem_insert_iff, List.mem_cons]
      tauto
    rw [List.foldl_cons, hset]
    exact ih (h.extend s)

/-- **The scan finds the box of the samples.** -/
theorem ofSamples?_eq_some_iff : ofSamples? samples = some b ↔ b.Encloses {s | s ∈ samples} := by
  cases samples with
  | nil =>
    constructor
    · intro h
      cases h
    · intro h
      obtain ⟨s, hs⟩ := h.nonempty
      cases hs
  | cons s rest =>
    have hscan : (rest.foldl BoundingBox.extend (single s)).Encloses {t | t ∈ s :: rest} := by
      have hset : {t | t ∈ s :: rest} = {s} ∪ {t | t ∈ rest} := by
        ext t
        simp
      rw [hset]
      exact (encloses_single s).foldl_extend rest
    constructor
    · intro h
      cases h
      exact hscan
    · intro h
      exact congrArg some (hscan.unique h)

theorem exists_encloses (hsamples : samples ≠ []) :
    ∃ b : BoundingBox Rat, b.Encloses {s | s ∈ samples} := by
  cases samples with
  | nil => exact absurd rfl hsamples
  | cons s rest => exact ⟨_, ofSamples?_eq_some_iff.mp rfl⟩

/-- The extremes of a coordinate differ exactly if some two values of it do. -/
theorem lt_iff_exists_ne {g : Position Rat → Rat} {low high : Rat} (hlow : IsLeast (g '' S) low)
    (hhigh : IsGreatest (g '' S) high) : low < high ↔ ∃ s ∈ S, ∃ t ∈ S, g s ≠ g t := by
  constructor
  · intro hlt
    obtain ⟨s, hs, rfl⟩ := hlow.1
    obtain ⟨t, ht, rfl⟩ := hhigh.1
    exact ⟨s, hs, t, ht, hlt.ne⟩
  · rintro ⟨s, hs, t, ht, hne⟩
    have hlow_le {u : Position Rat} (hu : u ∈ S) : low ≤ g u := hlow.2 (Set.mem_image_of_mem g hu)
    have hle_high {u : Position Rat} (hu : u ∈ S) : g u ≤ high :=
      hhigh.2 (Set.mem_image_of_mem g hu)
    rcases hne.lt_or_gt with hlt | hlt
    · exact (hlow_le hs).trans_lt (hlt.trans_le (hle_high ht))
    · exact (hlow_le ht).trans_lt (hlt.trans_le (hle_high hs))

end BoundingBox

/-! ## §3. Frames. -/

namespace Frame

/-- Positive scales that take the box to the viewport. -/
structure Fits (f : Frame Rat) : Prop where
  xScale_pos : 0 < f.xScale
  yScale_pos : 0 < f.yScale
  width : (f.bounds.xMax - f.bounds.xMin) * f.xScale = 20
  height : (f.bounds.yMax - f.bounds.yMin) * f.yScale = 20

/-- A box is refused for the first axis along which it has no extent. -/
theorem ofBounds_eq (b : BoundingBox Rat) : ofBounds b =
    if b.xMax ≤ b.xMin then .error .oneAbscissa
    else if b.yMax ≤ b.yMin then .error .oneOrdinate
    else .ok ⟨b, 20 / (b.xMax - b.xMin), 20 / (b.yMax - b.yMin)⟩ := by
  simp only [← sub_nonpos (b := b.xMin), ← sub_nonpos (b := b.yMin)]
  rfl

theorem ofBounds_eq_ok_iff {f : Frame Rat} :
    ofBounds b = .ok f ↔ b.xMin < b.xMax ∧ b.yMin < b.yMax
      ∧ f = ⟨b, 20 / (b.xMax - b.xMin), 20 / (b.yMax - b.yMin)⟩ := by
  rw [ofBounds_eq]
  by_cases hx : b.xMax ≤ b.xMin
  · simp [hx, hx.not_gt]
  · by_cases hy : b.yMax ≤ b.yMin
    · simp [hx, hy, hy.not_gt]
    · simp only [if_neg hx, if_neg hy, not_le.mp hx, not_le.mp hy, true_and, Except.ok.injEq]
      exact eq_comm

theorem ofBounds_fits {f : Frame Rat} (h : ofBounds b = .ok f) : f.Fits := by
  obtain ⟨hx, hy, rfl⟩ := ofBounds_eq_ok_iff.mp h
  have hx : 0 < b.xMax - b.xMin := sub_pos.mpr hx
  have hy : 0 < b.yMax - b.yMin := sub_pos.mpr hy
  exact ⟨div_pos (by norm_num) hx, div_pos (by norm_num) hy,
    mul_div_cancel₀ 20 hx.ne', mul_div_cancel₀ 20 hy.ne'⟩

/-- Stems end on the axis or on the edge next to it. -/
theorem baseline_eq (f : Frame Rat) : f.baseline =
    if f.bounds.xAxisVisible then 0 else if 0 < f.bounds.yMin then f.bottom else f.top :=
  rfl

end Frame

/-! ## §4. Scenes. -/

/-- Exact coordinates are finite. -/
theorem all_isFinitePosition (samples : List (Position Rat)) :
    samples.all isFinitePosition = true :=
  List.all_eq_true.mpr fun _ _ => rfl

/-- **Samples make a plot exactly if they spread along both axes.** -/
theorem exists_scene_iff {kind : PlotKind} {options : PlotOptions Rat} :
    (∃ elements, scene kind options samples = .ok elements) ↔
      (∃ s ∈ samples, ∃ t ∈ samples, s.1 ≠ t.1) ∧ ∃ s ∈ samples, ∃ t ∈ samples, s.2 ≠ t.2 := by
  constructor
  · rintro ⟨elements, h⟩
    obtain ⟨-, f, hbox, hframe, -⟩ := scene_eq_ok_iff.mp h
    have hb := BoundingBox.ofSamples?_eq_some_iff.mp hbox
    obtain ⟨hx, hy, -⟩ := Frame.ofBounds_eq_ok_iff.mp hframe
    exact ⟨(BoundingBox.lt_iff_exists_ne hb.xMin hb.xMax).mp hx,
      (BoundingBox.lt_iff_exists_ne hb.yMin hb.yMax).mp hy⟩
  · rintro ⟨hx, hy⟩
    have hsamples : samples ≠ [] := by
      obtain ⟨s, hs, -⟩ := hx
      exact List.ne_nil_of_mem hs
    obtain ⟨b, hb⟩ := BoundingBox.exists_encloses hsamples
    have hwidth := (BoundingBox.lt_iff_exists_ne hb.xMin hb.xMax).mpr hx
    have hheight := (BoundingBox.lt_iff_exists_ne hb.yMin hb.yMax).mpr hy
    obtain ⟨f, hframe⟩ : ∃ f, Frame.ofBounds b = .ok f :=
      ⟨_, Frame.ofBounds_eq_ok_iff.mpr ⟨hwidth, hheight, rfl⟩⟩
    obtain rfl := Frame.bounds_of_ofBounds hframe
    exact ⟨_, scene_eq_ok_iff.mpr ⟨all_isFinitePosition samples, f,
      BoundingBox.ofSamples?_eq_some_iff.mpr hb, hframe, rfl⟩⟩

end PlotLisp
