/-
  PlotLisp.Proofs.Number.Grid
  ──────────────────────────────────────
  **THE POINTS OF A GRID.**

  Over the rationals, where every point is exact.  Two tolerances decide where a grid
  ends: `2⁻²⁶` on the count of steps, and `2⁻⁵²` on the last point.

    • `pointAt_le_iff` — the points up to `stop` are those up to the whole part of
      the quotient;
    • `gridPoints_eq_initial` — leaving out the points above the ceiling leaves an
      initial part of the progression;
    • `Covers` — that part holds every point up to `stop`, and one point behind it at
      most;
    • `Lists.range_of_numbers` — calling `range` with numbers gives their grid, point by
      point, or its refusal.
-/
import Mathlib.Algebra.Order.Field.Rat
import Mathlib.Data.Rat.Floor
import Mathlib.Tactic.Linarith
import PlotLisp.Procedure.Lists

namespace PlotLisp

/-! ## §1. Rational scalars. -/

/-- On rational numbers, the choice of the lesser one is the minimum. -/
theorem lesser_eq_min (x y : Rat) : Scalar.lesser x y = min x y := by
  unfold Scalar.lesser
  grind

theorem greater_eq_max (x y : Rat) : Scalar.greater x y = max x y := by
  unfold Scalar.greater
  grind

theorem magnitude_eq_abs (x : Rat) : Scalar.magnitude x = |x| := by
  have hzero : ((0 : Nat) : Rat) = 0 := Nat.cast_zero
  unfold Scalar.magnitude
  rw [hzero]
  by_cases h : x < 0
  · rw [if_pos h, abs_of_neg h]
  · rw [if_neg h, abs_of_nonneg (not_lt.mp h)]

theorem epsilon_eq : (Scalar.epsilon : Rat) = 1 / 2 ^ 52 := by
  unfold Scalar.epsilon
  norm_num

theorem rootEpsilon_eq : (Scalar.rootEpsilon : Rat) = 1 / 2 ^ 26 := by
  unfold Scalar.rootEpsilon
  norm_num

variable {start stop step : Rat}

/-- The count of steps is the whole part of the quotient and the tolerance. -/
theorem gridSteps_eq (start stop step : Rat) :
    gridSteps start stop step = (⌊(stop - start) / step + 1 / 2 ^ 26⌋ : Rat) := by
  unfold gridSteps
  rw [rootEpsilon_eq]
  rfl

/-- The points may pass the end by one part in `2 ^ 52` of it. -/
theorem gridCeiling_eq (stop : Rat) : gridCeiling stop = stop + 1 / 2 ^ 52 * max |stop| 1 := by
  have hone : ((1 : Nat) : Rat) = 1 := Nat.cast_one
  unfold gridCeiling
  rw [epsilon_eq, greater_eq_max, magnitude_eq_abs, hone]

/-- The end itself always passes. -/
theorem le_gridCeiling (stop : Rat) : stop ≤ gridCeiling stop := by
  have hpositive : (0 : Rat) < 1 / 2 ^ 52 * max |stop| 1 :=
    mul_pos (by norm_num) (lt_max_of_lt_right one_pos)
  rw [gridCeiling_eq]
  linarith

/-! ## §2. The progression. -/

/-- The point with the index `i`. -/
def pointAt (start step : Rat) (i : Nat) : Rat := start + (i : Rat) * step

/-- The points of a grid ascend. -/
theorem pointAt_mono (hstep : 0 < step) {i j : Nat} (h : i ≤ j) :
    pointAt start step i ≤ pointAt start step j := by
  have hcast : (i : Rat) ≤ (j : Rat) := Nat.cast_le.mpr h
  have hmul : (i : Rat) * step ≤ (j : Rat) * step :=
    mul_le_mul_of_nonneg_right hcast (le_of_lt hstep)
  unfold pointAt
  linarith

/-- A point lies up to `stop` if its index does not pass the whole part of the quotient. -/
theorem pointAt_le_iff (hstep : 0 < step) (i : Nat) :
    pointAt start step i ≤ stop ↔ (i : Int) ≤ ⌊(stop - start) / step⌋ := by
  have hquotient : (i : Rat) ≤ (stop - start) / step ↔ (i : Rat) * step ≤ stop - start :=
    le_div_iff₀ hstep
  rw [Int.le_floor, Int.cast_natCast, hquotient]
  unfold pointAt
  constructor
  · intro h
    linarith
  · intro h
    linarith

/-- The points that are left are those of an initial part. -/
theorem gridPoints_eq_initial (hstep : 0 < step) (hstart : start ≤ gridCeiling stop)
    (count : Nat) :
    ∃ last, last ≤ count
      ∧ gridPoints start stop step count = (List.range (last + 1)).map (pointAt start step)
      ∧ (∀ i, i ≤ count → pointAt start step i ≤ gridCeiling stop → i ≤ last)
      ∧ pointAt start step last ≤ gridCeiling stop := by
  have hgrow (n : Nat) : gridPoints start stop step (n + 1)
      = gridPoints start stop step n
        ++ [pointAt start step (n + 1)].filter (· ≤ gridCeiling stop) := by
    unfold gridPoints
    rw [List.range_succ, List.map_append, List.filter_append]
    rfl
  -- on the count of points: the next one is left out, or no point before it was
  induction count with
  | zero =>
    have hfirst : pointAt start step 0 ≤ gridCeiling stop := by
      unfold pointAt
      rw [Nat.cast_zero, zero_mul, add_zero]
      exact hstart
    refine ⟨0, le_refl 0, ?_, fun i hi _ => hi, hfirst⟩
    show [pointAt start step 0].filter (· ≤ gridCeiling stop) = _
    rw [List.filter_cons_of_pos (by simpa using hfirst)]
    rfl
  | succ n ih =>
    obtain ⟨last, hlast, hpoints, hall, hceiling⟩ := ih
    by_cases hnext : pointAt start step (n + 1) ≤ gridCeiling stop
    · have hn : n ≤ last := by
        apply hall n (le_refl n)
        exact le_trans (pointAt_mono hstep (Nat.le_succ n)) hnext
      obtain rfl : last = n := le_antisymm hlast hn
      refine ⟨last + 1, le_refl _, ?_, fun i hi _ => hi, hnext⟩
      rw [hgrow, hpoints, List.filter_cons_of_pos (by simpa using hnext), List.filter_nil,
        @List.range_succ (last + 1), List.map_append]
      rfl
    · refine ⟨last, Nat.le_succ_of_le hlast, ?_, ?_, hceiling⟩
      · rw [hgrow, hpoints, List.filter_cons_of_neg (by simpa using hnext), List.filter_nil,
          List.append_nil]
      · intro i hi hle
        rcases Nat.le_or_eq_of_le_succ hi with hi | rfl
        · exact hall i hi hle
        · exact absurd hle hnext

/-! ## §3. Grids. -/

/-- The elements of `xs` are the points up to the index `last`: all points up to `stop`, and
perhaps one behind it, which the rounding of `stop` accounts for. -/
structure Covers (start stop step : Rat) (xs : List Rat) (last : Nat) : Prop where
  points : xs = (List.range (last + 1)).map fun i : Nat => start + (i : Rat) * step
  floor_le : ⌊(stop - start) / step⌋ ≤ last
  le_floor : (last : Int) ≤ ⌊(stop - start) / step⌋ + 1
  complete : ∀ i : Nat, start + (i : Rat) * step ≤ stop → start + (i : Rat) * step ∈ xs
  before : ∀ i : Nat, i < last → start + (i : Rat) * step ≤ stop
  behind : start + (last : Rat) * step ≤ stop + 1 / 2 ^ 52 * max |stop| 1

/-- The tolerance on the count of steps is worth one step at most. -/
theorem floor_add_le (q : Rat) : ⌊q + 1 / 2 ^ 26⌋ ≤ ⌊q⌋ + 1 := by
  rw [← Int.floor_add_one]
  apply Int.floor_mono
  have hsmall : (1 / 2 ^ 26 : Rat) ≤ 1 := by norm_num
  linarith

/-- The tolerance only adds steps, it never takes one away. -/
theorem floor_le_floor_add (q : Rat) : ⌊q⌋ ≤ ⌊q + 1 / 2 ^ 26⌋ := by
  apply Int.floor_mono
  have hpositive : (0 : Rat) < 1 / 2 ^ 26 := by norm_num
  linarith

/-- Rationals are refused for the interval, the step and the count only. -/
theorem grid_eq_ok_iff {xs : List Rat} :
    grid start stop step = .ok xs
      ↔ start < stop ∧ 0 < step ∧ ⌊(stop - start) / step + 1 / 2 ^ 26⌋ < 10000000
        ∧ xs = gridPoints start stop step ⌊(stop - start) / step + 1 / 2 ^ 26⌋.toNat := by
  have hzero : ((0 : Nat) : Rat) = 0 := Nat.cast_zero
  have hfinite (x : Rat) : Scalar.isFinite x = true := rfl
  have hlimit : ((gridLimit : Nat) : Rat) ≤ gridSteps start stop step
      ↔ 10000000 ≤ ⌊(stop - start) / step + 1 / 2 ^ 26⌋ := by
    rw [gridSteps_eq, ← Int.cast_natCast, Int.cast_le]
    rfl
  have hcount : Scalar.toNat (gridSteps start stop step)
      = ⌊(stop - start) / step + 1 / 2 ^ 26⌋.toNat := by
    show ⌊gridSteps start stop step⌋.toNat = _
    rw [gridSteps_eq, Int.floor_intCast]
  -- rationals are finite, so only the three comparisons are left of the checks
  unfold grid
  simp only [hzero, hfinite, hlimit, hcount, Bool.not_true, Bool.or_false, Bool.false_or,
    decide_eq_true_eq]
  by_cases hinterval : stop ≤ start
  · rw [if_pos hinterval]
    exact ⟨nofun, fun h => absurd hinterval (not_le.mpr h.1)⟩
  · rw [if_neg hinterval]
    by_cases hstep : step ≤ 0
    · rw [if_pos hstep]
      exact ⟨nofun, fun h => absurd hstep (not_le.mpr h.2.1)⟩
    · rw [if_neg hstep]
      by_cases hlong : 10000000 ≤ ⌊(stop - start) / step + 1 / 2 ^ 26⌋
      · rw [if_pos hlong]
        exact ⟨nofun, fun h => absurd hlong (not_le.mpr h.2.2.1)⟩
      · rw [if_neg hlong, Except.ok.injEq]
        constructor
        · intro h
          exact ⟨not_le.mp hinterval, not_le.mp hstep, not_le.mp hlong, h.symm⟩
        · rintro ⟨-, -, -, h⟩
          exact h.symm

/-- The points that a grid of rationals is made of. -/
theorem exists_covers (hinterval : start < stop) (hstep : 0 < step) :
    ∃ last, last ≤ ⌊(stop - start) / step + 1 / 2 ^ 26⌋.toNat
      ∧ Covers start stop step
          (gridPoints start stop step ⌊(stop - start) / step + 1 / 2 ^ 26⌋.toNat) last := by
  have hquotient : 0 ≤ ⌊(stop - start) / step⌋ := by
    apply Int.floor_nonneg.mpr
    exact div_nonneg (by linarith) (le_of_lt hstep)
  have hless := floor_le_floor_add ((stop - start) / step)
  have hmore := floor_add_le ((stop - start) / step)
  have hstart : start ≤ gridCeiling stop :=
    le_trans (le_of_lt hinterval) (le_gridCeiling stop)
  obtain ⟨last, hlast, hpoints, hall, hceiling⟩ := gridPoints_eq_initial hstep hstart
    ⌊(stop - start) / step + 1 / 2 ^ 26⌋.toNat
  -- the points up to `stop` are among those that are computed, and none of them is left out
  have hfloor (i : Nat) (hi : (i : Int) ≤ ⌊(stop - start) / step⌋) : i ≤ last := by
    apply hall i
    · omega
    · exact le_trans ((pointAt_le_iff hstep i).mpr hi) (le_gridCeiling stop)
  refine ⟨last, hlast, hpoints, ?_, ?_, ?_, ?_, ?_⟩
  · have hwhole := hfloor ⌊(stop - start) / step⌋.toNat (by omega)
    omega
  · omega
  · intro i hi
    have hle : i ≤ last := hfloor i ((pointAt_le_iff hstep i).mp hi)
    rw [hpoints]
    exact List.mem_map.mpr ⟨i, List.mem_range.mpr (by omega), rfl⟩
  · intro i hi
    apply (pointAt_le_iff hstep i).mpr
    omega
  · rw [← gridCeiling_eq]
    exact hceiling

/-! ## §4. Calls. -/

theorem Expr.asNumber_of_number? {e : Expr} {x : Float} (h : e.number? = some x) (place : String) :
    e.asNumber place = .ok x := by
  rw [asNumber, h]
  rfl

/-- **CALLING `range` WITH NUMBERS GIVES THEIR GRID**: the list of its points, or the fault of its
refusal. -/
theorem Lists.range_of_numbers {e e' e'' : Expr} {x y z : Float} (h : e.number? = some x)
    (h' : e'.number? = some y) (h'' : e''.number? = some z) :
    Lists.range [e, e', e'']
      = match grid x y z with
        | .ok xs => .ok (.list (xs.map .number))
        | .error refusal => .error (gridFault refusal) := by
  show (e.asNumber "range" >>= fun start => e'.asNumber "range" >>= fun stop =>
    e''.asNumber "range" >>= fun step => _ : Except Fault Expr) = _
  rw [Expr.asNumber_of_number? h, Expr.asNumber_of_number? h', Expr.asNumber_of_number? h'']
  rfl

/-! ## §5. Whole grids. -/

/-- **A GRID HOLDS EVERY POINT UP TO `stop` AND NEARLY NOTHING MORE.**  It is made whenever the
interval and the step are positive and less than ten million steps fit.  Its points
follow each other without a gap; the last one alone may lie behind `stop`, by no more
than `2⁻⁵² · max(|stop|, 1)`.  A call of `range` with three numbers succeeds exactly if their grid
is made, with the list of its points, and fails for the reason why it is not. -/
theorem grid_is_whole_and_nearly_nothing_more (start stop step : Rat) :
    ((∃ xs, grid start stop step = .ok xs)
      ↔ start < stop ∧ 0 < step ∧ ⌊(stop - start) / step + 1 / 2 ^ 26⌋ < 10000000)
    ∧ (∀ xs, grid start stop step = .ok xs →
        xs ≠ [] ∧ xs.length ≤ 10000000 ∧ ∃ last, Covers start stop step xs last)
    ∧ ∀ (e e' e'' : Expr) (x y z : Float),
        e.number? = some x → e'.number? = some y → e''.number? = some z →
        (∀ v, Lists.range [e, e', e''] = .ok v
            ↔ ∃ xs, grid x y z = .ok xs ∧ v = .list (xs.map .number))
        ∧ ∀ f, Lists.range [e, e', e''] = .error f
            ↔ ∃ refusal, grid x y z = .error refusal ∧ f = Lists.gridFault refusal := by
  refine ⟨?_, ?_, ?_⟩
  · constructor
    · rintro ⟨xs, h⟩
      obtain ⟨hinterval, hstep, hshort, -⟩ := grid_eq_ok_iff.mp h
      exact ⟨hinterval, hstep, hshort⟩
    · rintro ⟨hinterval, hstep, hshort⟩
      exact ⟨_, grid_eq_ok_iff.mpr ⟨hinterval, hstep, hshort, rfl⟩⟩
  · intro xs h
    obtain ⟨hinterval, hstep, hshort, rfl⟩ := grid_eq_ok_iff.mp h
    obtain ⟨last, hlast, hcovers⟩ := exists_covers hinterval hstep
    have hlength : (gridPoints start stop step
        ⌊(stop - start) / step + 1 / 2 ^ 26⌋.toNat).length = last + 1 := by
      rw [hcovers.points, List.length_map, List.length_range]
    refine ⟨?_, ?_, last, hcovers⟩
    · apply List.ne_nil_of_length_pos
      omega
    · omega
  · -- the call itself does nothing but to make the grid of its numbers
    intro e e' e'' x y z h h' h''
    rw [Lists.range_of_numbers h h' h'']
    cases grid x y z with
    | ok xs => simp [eq_comm]
    | error refusal => simp [eq_comm]

/-- The last of four points lies behind `stop`, by half of what it may.  A call of `range` that ends
where it starts is refused. -/
theorem grid_is_whole_and_nearly_nothing_more_past_stop :
    grid 0 (3 - 1 / 2 ^ 53) 1 = .ok [(0 : Rat), 1, 2, 3]
    ∧ (∃ last, Covers 0 (3 - 1 / 2 ^ 53) 1 [0, 1, 2, 3] last)
    ∧ Lists.range [.number 0.5, .number 0.5, .number 1.0]
      = .error (Lists.gridFault .noInterval) := by
  have hgrid : grid 0 (3 - 1 / 2 ^ 53) 1 = .ok [(0 : Rat), 1, 2, 3] := by decide +kernel
  have hempty : grid (0.5 : Float) 0.5 1.0 = .error .noInterval := by decide +kernel
  obtain ⟨-, hpoints, hrange⟩ := grid_is_whole_and_nearly_nothing_more 0 (3 - 1 / 2 ^ 53) 1
  refine ⟨hgrid, (hpoints _ hgrid).2.2, ?_⟩
  exact ((hrange _ _ _ 0.5 0.5 1.0 rfl rfl rfl).2 _).mpr ⟨_, hempty, rfl⟩

end PlotLisp
