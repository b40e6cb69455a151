/-
  PlotLisp.Proofs.Evaluation.ProcedureForms
  ──────────────────────────────────────
  **FORMS THAT ARE PROCEDURES AS WELL.**

  The forms of properties and plots have procedures of the same names, which
  `apply` reaches.  A form reads its parts as they are written, the procedure
  gets their values, and each checks in its own order:

    • `SameSuccess` — two ends that may differ in their faults only;
    • `TakenByBoth` — the parts that a form takes and whose values its
      procedure takes: with them, the one succeeds as the other does;
    • `SamplesTo` — what a continuous plot comes upon before it draws: its
      procedure does the same with the samples in a list.
-/
import PlotLisp.Proofs.Evaluation.HigherOrder

namespace PlotLisp

open EvalM Evaluation

variable {env after : Environment} {eval : Expr → EvalM Expr}

/-! ## §1. Ends up to faults. -/

/-- Two ends in one environment, with one value unless both are faults. -/
def SameSuccess (x y : Except Fault Expr × Environment) : Prop :=
  (∀ v, x.1 = .ok v ↔ y.1 = .ok v) ∧ x.2 = y.2

namespace SameSuccess

theorem of_eq {x y : Except Fault Expr × Environment} (h : x = y) : SameSuccess x y := by
  subst h
  exact ⟨fun _ => Iff.rfl, rfl⟩

/-- Two ways to go on from the values of one evaluation. -/
theorem bind {α : Type} (action : EvalM α) {next next' : α → EvalM Expr}
    (h : ∀ a after, SameSuccess ((next a).outcome after) ((next' a).outcome after))
    (env : Environment) :
    SameSuccess ((action >>= next).outcome env) ((action >>= next').outcome env) := by
  rw [outcome_bind, outcome_bind]
  rcases action.outcome env with ⟨r, after⟩
  cases r with
  | ok a => exact h a after
  | error fault => exact of_eq rfl

/-- Two results that no environment has a part in. -/
theorem settle {r r' : Except Fault Expr} (h : ∀ v, r = .ok v ↔ r' = .ok v) (env : Environment) :
    SameSuccess ((EvalM.settle r).outcome env) ((EvalM.settle r').outcome env) := by
  rw [outcome_settle, outcome_settle]
  exact ⟨h, rfl⟩

end SameSuccess

/-- Results that settle one after the other settle together. -/
theorem settle_bind {α β : Type} (r : Except Fault α) (next : α → Except Fault β) :
    (settle r >>= fun a => settle (next a)) = settle (r >>= next) := by
  cases r with
  | ok a => exact pure_bind a _
  | error fault => rfl

/-- What no environment has a part in succeeds or not, and leaves the environment alone. -/
theorem outcome_settle_eq_ok_iff {α : Type} {r : Except Fault α} {a : α} :
    (settle r).outcome env = (.ok a, after) ↔ r = .ok a ∧ env = after := by
  rw [outcome_settle, Prod.mk.injEq]

/-- The order of two checks shows in the fault only. -/
theorem bind_comm_eq_ok_iff {α β : Type} (r : Except Fault α) (r' : Except Fault β)
    (next : α → β → Except Fault Expr) (v : Expr) :
    (do let a ← r; let b ← r'; next a b) = .ok v
      ↔ (do let b ← r'; let a ← r; next a b) = .ok v := by
  cases r with
  | ok a => cases r' <;> rfl
  | error fault =>
    cases r' with
    | ok b => rfl
    | error fault' => exact ⟨nofun, nofun⟩

/-! ## §2. Parts and their values. -/

/-- The form takes these parts, and the procedure of the same name takes their values. -/
inductive TakenByBoth : SpecialForm → Procedure → List Expr → Prop where
  | data (data : Expr) : TakenByBoth (.plot .discrete) (.plot .discrete) [data]
  | dataWithOptions (data options : Expr) :
      TakenByBoth (.plot .discrete) (.plot .discrete) [data, options]
  | setProperty (key : String) (value target : Expr) :
      TakenByBoth .setProperty .setProperty [.string key, value, target]
  | getProperty (key : String) (target : Expr) :
      TakenByBoth .getProperty .getProperty [.string key, target]

/-- The 26 names of the standard procedures stand for these procedures. -/
def Environment.HasStandard (env : Environment) : Prop :=
  ∀ procedure ∈ Procedure.standard, env.find? procedure.name = some (.procedure procedure)

theorem Environment.hasStandard_standard : Environment.standard.HasStandard := by
  unfold HasStandard
  decide +kernel

namespace TakenByBoth

variable {form : SpecialForm} {procedure : Procedure} {parts : List Expr}

theorem parts_ne_nil (h : TakenByBoth form procedure parts) : parts ≠ [] := by
  cases h <;> exact List.cons_ne_nil _ _

/-- Where the standard names stand for the procedures, so does the name of the form. -/
theorem find?_name (h : TakenByBoth form procedure parts) (hstandard : env.HasStandard) :
    env.find? form.name = some (.procedure procedure) := by
  cases h with
  | data => exact hstandard (.plot .discrete) (by decide)
  | dataWithOptions => exact hstandard (.plot .discrete) (by decide)
  | setProperty => exact hstandard .setProperty (by decide)
  | getProperty => exact hstandard .getProperty (by decide)

/-- Both plots read the same samples and options, each in its own order. -/
theorem plotData_same (data : Expr) (options : Option Expr) (env : Environment) :
    SameSuccess ((plotData eval data options).outcome env)
      ((evalAll eval (data :: options.toList) >>= fun vs =>
        settle (Procedure.run (.plot .discrete) vs)).outcome env) := by
  cases options with
  | none =>
    have hform : plotData eval data none = eval data >>= fun d =>
        settle (readSamples PlotKind.discrete.name d >>= plotOf .discrete .default) := by
      simp only [← settle_bind]
      rfl
    have hprocedure : (evalAll eval [data] >>= fun vs =>
          settle (Procedure.run (.plot .discrete) vs))
        = eval data >>= fun d => settle (Procedure.run (.plot .discrete) [d]) := by
      simp [evalAll]
    rw [Option.toList_none, hform, hprocedure]
    exact .of_eq rfl
  | some options =>
    have hform : plotData eval data (some options) = eval data >>= fun d =>
        eval options >>= fun o => settle (do
          let options ← PlotOptions.ofExpr o
          let samples ← readSamples PlotKind.discrete.name d
          plotOf .discrete options samples) := by
      simp only [← settle_bind]
      unfold plotData evalOptions
      simp only [bind_assoc]
    have hprocedure : (evalAll eval [data, options] >>= fun vs =>
          settle (Procedure.run (.plot .discrete) vs))
        = eval data >>= fun d => eval options >>= fun o =>
            settle (Procedure.run (.plot .discrete) [d, o]) := by
      simp [evalAll]
    rw [Option.toList_some, hform, hprocedure]
    refine .bind _ (fun d _ => .bind _ (fun o _ => .settle ?_ _) _) env
    -- the form reads the options first, the procedure the samples
    exact bind_comm_eq_ok_iff _ _ fun options samples => plotOf .discrete options samples

/-- **The form does what the procedure does with the values of the parts**, if a literal is
its own value. -/
theorem evalForm_same (h : TakenByBoth form procedure parts)
    (hliteral : ∀ key, eval (.string key) = pure (.string key)) (env : Environment) :
    SameSuccess ((evalForm eval form parts).outcome env)
      ((evalAll eval parts >>= fun vs => settle (procedure.run vs)).outcome env) := by
  cases h with
  | data data => exact plotData_same data none env
  | dataWithOptions data options => exact plotData_same data (some options) env
  | setProperty key value target =>
    -- the procedure finds in the value of the key the string that the form has read
    have hprocedure : (evalAll eval [.string key, value, target] >>= fun vs =>
          settle (Procedure.run .setProperty vs))
        = eval value >>= fun v => eval target >>= fun t => pure (t.setProp key v) := by
      simp only [evalAll, List.mapM_cons, List.mapM_nil, hliteral, pure_bind, bind_assoc]
      rfl
    rw [hprocedure]
    exact .of_eq rfl
  | getProperty key target =>
    have hprocedure : (evalAll eval [.string key, target] >>= fun vs =>
          settle (Procedure.run .getProperty vs))
        = eval target >>= fun t => pure (Procedure.propertyOf key t) := by
      simp only [evalAll, List.mapM_cons, List.mapM_nil, hliteral, pure_bind, bind_assoc]
      rfl
    rw [hprocedure]
    exact .of_eq rfl

/-- Unless it is cut off, applying the procedure to a list of the parts is the same as the
form with these parts, up to the fault. -/
theorem evaluate_same (h : TakenByBoth form procedure parts) (hstandard : env.HasStandard)
    {limit : Nat} (hcut : ¬ CutOff (evaluate limit (.onList "apply" form.name parts) env).1) :
    SameSuccess (evaluate limit (.call form.name parts) env)
      (evaluate limit (.onList "apply" form.name parts) env) := by
  have hlist : env.find? "list" = some (.procedure .list) := hstandard .list (by decide)
  have hcontinues := (Denotes.procedure (h.find?_name hstandard)).apply_continues
  obtain ⟨depth, rfl⟩ := hcontinues.exists_depth hcut
  have happly : (evalWithin (depth + 2) (depth + 2) (.onList "apply" form.name parts)).outcome env
      = (evalAll (evalWithin (depth + 2) depth) parts >>= fun vs =>
          settle (procedure.run vs)).outcome env :=
    hcontinues.outcome_onList hlist (depth + 2) depth parts
  have hform : evalWithin (depth + 2) (depth + 2) (.call form.name parts)
      = evalForm (evalWithin (depth + 2) (depth + 1)) form parts :=
    step_form _ form h.parts_ne_nil
  unfold evaluate at hcut ⊢
  rw [happly] at hcut
  -- the list evaluates the parts one level further down than the form does
  rw [happly, ← outcome_evalAll_bind_of_le (Nat.le_succ depth) _ hcut, hform]
  have hliteral (key : String) :
      evalWithin (depth + 2) (depth + 1) (.string key) = pure (.string key) := rfl
  exact h.evalForm_same hliteral env

end TakenByBoth

/-! ## §3. Samples of a function. -/

/-- In `env`, the expression is a name for the callable, or its value is the lambda. -/
inductive Supplies (eval : Expr → EvalM Expr) (env : Environment) (e : Expr) :
    Callable → Environment → Prop where
  | named {name : String} {callable : Callable} :
      e.symbol? = some name → Denotes env name callable → Supplies eval env e callable env
  | computed {v : Expr} {after : Environment} :
      e.symbol? = none → (eval e).outcome env = (.ok v, after) → v.isLambda = true →
      Supplies eval env e (.lambda v) after

/-- Called with the number `x`, the callable gives the number `y`. -/
def HasValue (eval : Expr → EvalM Expr) (env : Environment) (callable : Callable)
    (x y : Float) : Prop :=
  ∃ w, w.number? = some y
    ∧ (call eval PlotKind.continuous.name callable [.number x]).outcome env = (.ok w, env)

/-- A continuous plot gets to draw: it is given a callable, a range from `low` to `high` and, if
any, options of the value in `values`, and at the abscissas of the range the callable has
the real values `ys`. -/
inductive SamplesTo (eval : Expr → EvalM Expr) (env : Environment) (function range : Expr)
    (options : Option Expr) (low high : Float) (ys : List Float) (values : List Expr)
    (after : Environment) : Prop where
  | intro {callable : Callable} {bounds : Expr} {env₁ env₂ : Environment} :
      Supplies eval env function callable env₁ →
      (eval range).outcome env₁ = (.ok bounds, env₂) →
      readRange bounds = .ok (low, high) →
      (evalAll eval options.toList).outcome env₂ = (.ok values, after) →
      List.Forall₂ (HasValue eval after callable) (abscissas low high) ys →
      SamplesTo eval env function range options low high ys values after

/-- Samples as data of a plot: a list of `(x y)` lists. -/
def samplesList (samples : List (Position Float)) : Expr :=
  .list (samples.map fun s => .list [.number s.1, .number s.2])

theorem readSamples_samplesList (form : String) {samples : List (Position Float)}
    (hsamples : samples ≠ []) : readSamples form (samplesList samples) = .ok samples := by
  have hmap : (samples.map fun s => Expr.list [.number s.1, .number s.2]).mapM (readSample form)
      = .ok samples := by
    clear hsamples
    induction samples with
    | nil => rfl
    | cons s rest ih =>
      rw [List.map_cons, List.mapM_cons, ih]
      rfl
  cases samples with
  | nil => exact absurd rfl hsamples
  | cons s rest => exact hmap

/-- A function is sampled in 51 places. -/
theorem length_abscissas (low high : Float) : (abscissas low high).length = 51 := by
  simp [abscissas, plotIntervals]

/-- Under a name, a form finds what the name stands for, and nothing else. -/
theorem outcome_resolve_eq_ok_iff {form : String} {e : Expr} {callable : Callable} :
    (resolve form e).outcome env = (.ok callable, after)
      ↔ after = env ∧ ∃ name, e.symbol? = some name ∧ Denotes env name callable := by
  constructor
  · intro h
    unfold resolve at h
    cases hname : e.symbol? with
    | none =>
      simp only [hname] at h
      cases h
    | some name =>
      simp only [hname] at h
      rw [outcome_bind, outcome_get] at h
      -- a procedure or a lambda is found, and everything else is refused
      cases hfound : env.find? name with
      | none =>
        simp only [hfound] at h
        cases h
      | some entry =>
        cases entry with
        | procedure procedure =>
          simp only [hfound] at h
          cases h
          exact ⟨rfl, name, rfl, .procedure hfound⟩
        | binding v =>
          by_cases hlambda : v.isLambda
          · simp only [hfound, if_pos hlambda] at h
            cases h
            exact ⟨rfl, name, rfl, .lambda hfound hlambda⟩
          · simp only [hfound, if_neg hlambda] at h
            cases h
  · rintro ⟨rfl, name, hname, hdenotes⟩
    have hresolve := hdenotes.outcome_resolve form
    unfold resolve at hresolve ⊢
    rw [hname]
    exact hresolve

theorem outcome_plottedFunction_eq_ok_iff {e : Expr} {callable : Callable} :
    (plottedFunction eval e).outcome env = (.ok callable, after)
      ↔ Supplies eval env e callable after := by
  unfold plottedFunction
  cases hname : e.symbol? with
  | some name =>
    simp only [Option.isSome_some, if_true]
    rw [outcome_resolve_eq_ok_iff]
    constructor
    · rintro ⟨rfl, name', hname', hdenotes⟩
      exact .named hname' hdenotes
    · intro h
      cases h with
      | named hname' hdenotes => exact ⟨rfl, _, hname', hdenotes⟩
      | computed hname' => rw [hname] at hname'; cases hname'
  | none =>
    simp only [Option.isSome_none, Bool.false_eq_true, if_false]
    rw [outcome_bind_eq_ok_iff]
    constructor
    · rintro ⟨v, between, hv, hrest⟩
      by_cases hlambda : v.isLambda
      · simp only [if_pos hlambda] at hrest
        cases hrest
        exact .computed hname hv hlambda
      · simp only [if_neg hlambda] at hrest
        cases hrest
    · intro h
      cases h with
      | named hname' => rw [hname] at hname'; cases hname'
      | computed _ hv hlambda =>
        refine ⟨_, after, hv, ?_⟩
        simp only [if_pos hlambda]
        rfl

/-- Options are read from their value, if any are given. -/
theorem evalOptions_eq (eval : Expr → EvalM Expr) (options : Option Expr) :
    evalOptions eval options
      = evalAll eval options.toList >>= fun values =>
          settle (PlotOptions.ofExpr? values.head?) := by
  cases options with
  | none => rfl
  | some e => simp [evalOptions, evalAll, PlotOptions.ofExpr?]

theorem sampleAt_env (callable : Callable) (x : Float) (env : Environment) :
    ((sampleAt eval callable x).outcome env).2 = env := by
  have hcall := call_env eval PlotKind.continuous.name callable [.number x] env
  unfold sampleAt
  rw [outcome_bind]
  generalize (call eval PlotKind.continuous.name callable [.number x]).outcome env = y at hcall ⊢
  obtain ⟨r, after⟩ := y
  obtain rfl : after = env := hcall
  cases r with
  | error fault => rfl
  | ok w => cases h : w.number? <;> simp only [h] <;> rfl

theorem outcome_sampleAt_eq_ok_iff {callable : Callable} {x : Float} {s : Position Float} :
    (sampleAt eval callable x).outcome env = (.ok s, env)
      ↔ s.1 = x ∧ HasValue eval env callable x s.2 := by
  unfold sampleAt HasValue
  rw [outcome_bind_eq_ok_iff]
  constructor
  · rintro ⟨w, between, hw, hs⟩
    obtain rfl : between = env := by
      rw [← call_env eval PlotKind.continuous.name callable [.number x] env, hw]
    cases hnumber : w.number? with
    | none =>
      simp only [hnumber] at hs
      cases hs
    | some y =>
      simp only [hnumber] at hs
      cases hs
      exact ⟨rfl, w, hnumber, hw⟩
  · rintro ⟨rfl, w, hnumber, hw⟩
    refine ⟨w, env, hw, ?_⟩
    simp only [hnumber]
    rfl

/-- One by one, samples are the places with values of the callable. -/
theorem forall₂_sampleAt_iff {callable : Callable} {xs : List Float}
    {samples : List (Position Float)} :
    List.Forall₂ (fun x s => (sampleAt eval callable x).outcome env = (.ok s, env)) xs samples
      ↔ ∃ ys, samples = xs.zip ys ∧ List.Forall₂ (HasValue eval env callable) xs ys := by
  constructor
  · intro h
    induction h with
    | nil => exact ⟨[], rfl, .nil⟩
    | cons hs _ ih =>
      obtain ⟨ys, rfl, hys⟩ := ih
      obtain ⟨hx, hy⟩ := outcome_sampleAt_eq_ok_iff.mp hs
      exact ⟨_ :: ys, congrArg (· :: _) (Prod.ext hx rfl), .cons hy hys⟩
  · rintro ⟨ys, rfl, hys⟩
    induction hys with
    | nil => exact .nil
    | cons hy _ ih => exact .cons (outcome_sampleAt_eq_ok_iff.mpr ⟨rfl, hy⟩) ih

/-- Taking them changes nothing. -/
theorem outcome_samples_eq_ok_iff {callable : Callable} {xs : List Float}
    {samples : List (Position Float)} :
    (xs.mapM (sampleAt eval callable)).outcome env = (.ok samples, after)
      ↔ env = after
        ∧ ∃ ys, samples = xs.zip ys ∧ List.Forall₂ (HasValue eval env callable) xs ys := by
  have hsame : ∀ x ∈ xs, ((sampleAt eval callable x).outcome env).2 = env :=
    fun x _ => sampleAt_env callable x env
  rw [← forall₂_sampleAt_iff]
  constructor
  · intro h
    obtain rfl : env = after := by rw [← outcome_mapM_env hsame, h]
    exact ⟨rfl, (outcome_mapM_eq_ok_iff hsame).mp h⟩
  · rintro ⟨rfl, h⟩
    exact (outcome_mapM_eq_ok_iff hsame).mpr h

/-- What the procedure does with samples and the value of options, if any. -/
theorem run_samplesList (kind : PlotKind) {samples : List (Position Float)}
    (hsamples : samples ≠ []) {options : Option Expr} {values : List Expr}
    (hlength : values.length = options.toList.length) :
    Procedure.run (.plot kind) (samplesList samples :: values)
      = PlotOptions.ofExpr? values.head? >>= fun options => plotOf kind options samples := by
  have hread := readSamples_samplesList kind.name hsamples
  match values with
  | [] =>
    show (readSamples _ _ >>= _ : Except Fault Expr) = _
    rw [hread]
    rfl
  | [v] =>
    show (readSamples _ _ >>= _ : Except Fault Expr) = _
    rw [hread]
    rfl
  | _ :: _ :: _ =>
    -- at most one expression for options has been evaluated
    cases options <;> simp at hlength

section Sampling

variable {function range : Expr} {options : Option Expr} {low high : Float} {ys : List Float}
  {values : List Expr}

/-- There is a value for each of 51 abscissas. -/
theorem SamplesTo.length_ys
    (h : SamplesTo eval env function range options low high ys values after) : ys.length = 51 := by
  obtain ⟨-, -, -, -, hys⟩ := h
  rw [← hys.length_eq, length_abscissas]

theorem SamplesTo.samples_ne_nil
    (h : SamplesTo eval env function range options low high ys values after) :
    (abscissas low high).zip ys ≠ [] := by
  refine List.ne_nil_of_length_pos ?_
  rw [List.length_zip, length_abscissas, h.length_ys]
  decide

theorem evalForm_continuous (eval : Expr → EvalM Expr) (function range : Expr)
    (options : Option Expr) :
    evalForm eval (.plot .continuous) (function :: range :: options.toList)
      = plotFunction eval function range options := by
  cases options <;> rfl

/-- **Sampling comes to what the procedure does with the samples.** -/
theorem SamplesTo.outcome_evalForm
    (h : SamplesTo eval env function range options low high ys values after) :
    (evalForm eval (.plot .continuous) (function :: range :: options.toList)).outcome env
      = (Procedure.run (.plot .continuous)
          (samplesList ((abscissas low high).zip ys) :: values), after) := by
  have hne := h.samples_ne_nil
  obtain ⟨hfunction, hbounds, hrange, hvalues, hys⟩ := h
  have hcallable := outcome_plottedFunction_eq_ok_iff.mpr hfunction
  have hsamples := outcome_samples_eq_ok_iff.mpr ⟨rfl, ys, rfl, hys⟩
  rw [evalForm_continuous, run_samplesList _ hne (length_of_outcome_mapM hvalues)]
  unfold plotFunction
  simp only [evalOptions_eq, outcome_bind, hcallable, hbounds, hrange, hvalues, outcome_settle]
  cases PlotOptions.ofExpr? values.head? with
  | error fault => rfl
  | ok options =>
    simp only [hsamples]
    rfl

/-- **Nothing but sampling makes a continuous plot succeed.** -/
theorem outcome_continuous_eq_ok_iff {v : Expr} :
    (evalForm eval (.plot .continuous) (function :: range :: options.toList)).outcome env
        = (.ok v, after)
      ↔ ∃ low high ys values, SamplesTo eval env function range options low high ys values after
          ∧ Procedure.run (.plot .continuous)
              (samplesList ((abscissas low high).zip ys) :: values) = .ok v := by
  constructor
  · intro h
    rw [evalForm_continuous] at h
    unfold plotFunction at h
    -- each step on the way to the drawing has succeeded
    obtain ⟨callable, env₁, hcallable, h⟩ := outcome_bind_eq_ok_iff.mp h
    obtain ⟨bounds, env₂, hbounds, h⟩ := outcome_bind_eq_ok_iff.mp h
    obtain ⟨⟨low, high⟩, _, hsettled, h⟩ := outcome_bind_eq_ok_iff.mp h
    obtain ⟨hrange, rfl⟩ := outcome_settle_eq_ok_iff.mp hsettled
    rw [evalOptions_eq] at h
    obtain ⟨options', env₃, hoptions, h⟩ := outcome_bind_eq_ok_iff.mp h
    obtain ⟨values, between, hvalues, hsettled⟩ := outcome_bind_eq_ok_iff.mp hoptions
    obtain ⟨hread, rfl⟩ := outcome_settle_eq_ok_iff.mp hsettled
    obtain ⟨samples, env₄, hsamples, hsettled⟩ := outcome_bind_eq_ok_iff.mp h
    obtain ⟨hplot, rfl⟩ := outcome_settle_eq_ok_iff.mp hsettled
    obtain ⟨rfl, ys, rfl, hys⟩ := outcome_samples_eq_ok_iff.mp hsamples
    have hsampled : SamplesTo eval env function range options low high ys values between :=
      .intro (outcome_plottedFunction_eq_ok_iff.mp hcallable) hbounds hrange hvalues hys
    refine ⟨low, high, ys, values, hsampled, ?_⟩
    rw [run_samplesList _ hsampled.samples_ne_nil (length_of_outcome_mapM hvalues), hread]
    exact hplot
  · rintro ⟨low, high, ys, values, hsampled, hrun⟩
    rw [hsampled.outcome_evalForm, hrun]

end Sampling

/-! ## §4. Both ways. -/

theorem not_cutOff_of_toBool {r : Except Fault Expr} (h : r.toBool = true) : ¬ CutOff r := by
  rintro ⟨f, limit, rfl, -⟩
  cases h

/-- **Forms agree with their procedures.**  Let the standard names stand for the standard
procedures.  Unless `apply` is cut off, a form with parts that both take and `apply` with the
procedure and a list of these parts end in the same environment, and succeed together, with
the same value.  A continuous plot that gets to draw ends as its procedure does with the
samples in a list and the value of the options, and no other one succeeds. -/
theorem forms_agree_with_procedures (hstandard : env.HasStandard) :
    (∀ form procedure parts limit, TakenByBoth form procedure parts →
      ¬ CutOff (evaluate limit (.onList "apply" form.name parts) env).1 →
      SameSuccess (evaluate limit (.call form.name parts) env)
        (evaluate limit (.onList "apply" form.name parts) env))
    ∧ ∀ depth function range options,
      (∀ low high ys values after,
        SamplesTo (evalWithin (depth + 1) depth) env function range options low high ys values
          after →
        ys.length = 51
        ∧ evaluate (depth + 1) (.call "continuous-plot" (function :: range :: options.toList)) env
          = (Procedure.run (.plot .continuous)
              (samplesList ((abscissas low high).zip ys) :: values), after))
      ∧ ∀ v after,
        evaluate (depth + 1) (.call "continuous-plot" (function :: range :: options.toList)) env
          = (.ok v, after) →
        ∃ low high ys values, SamplesTo (evalWithin (depth + 1) depth) env function range options
          low high ys values after := by
  refine ⟨fun form procedure parts limit h hcut => h.evaluate_same hstandard hcut, ?_⟩
  intro depth function range options
  have hform : evalWithin (depth + 1) (depth + 1)
        (.call "continuous-plot" (function :: range :: options.toList))
      = evalForm (evalWithin (depth + 1) depth) (.plot .continuous)
          (function :: range :: options.toList) :=
    step_form _ (.plot .continuous) (List.cons_ne_nil _ _)
  unfold evaluate
  rw [hform]
  refine ⟨fun low high ys values after h => ⟨h.length_ys, h.outcome_evalForm⟩, ?_⟩
  intro v after h
  obtain ⟨low, high, ys, values, hsampled, -⟩ := outcome_continuous_eq_ok_iff.mp h
  exact ⟨low, high, ys, values, hsampled⟩

/-- The expression `(define d (list (list 0 1) (list 1 0)))`. -/
def definedData : Expr :=
  .call "define" [.symbol "d", .call "list" [.call "list" [.number 0.0, .number 1.0],
    .call "list" [.number 1.0, .number 0.0]]]

/-- The data are given a name where they are plotted, and the identity is sampled. -/
theorem forms_agree_with_procedures_in_standard :
    SameSuccess (evaluate 6 (.call "discrete-plot" [definedData]) .standard)
        (evaluate 6 (.onList "apply" "discrete-plot" [definedData]) .standard)
    ∧ evaluate 6 (.call "continuous-plot" [.call "lambda" [.symbol "x", .symbol "x"],
          .call "list" [.number 0.0, .number 1.0]]) .standard
        = (Procedure.run (.plot .continuous)
            [samplesList ((abscissas 0.0 1.0).zip (abscissas 0.0 1.0))], .standard) := by
  obtain ⟨hboth, hsampled⟩ := forms_agree_with_procedures Environment.hasStandard_standard
  constructor
  · refine hboth _ _ _ 6 (.data definedData) (not_cutOff_of_toBool ?_)
    decide +kernel
  · have hfunction : Supplies (evalWithin 6 5) .standard (.call "lambda" [.symbol "x", .symbol "x"])
        (.lambda (.lambda ["x"] (.symbol "x"))) .standard :=
      .computed rfl rfl rfl
    have hsamples : SamplesTo (evalWithin 6 5) .standard
        (.call "lambda" [.symbol "x", .symbol "x"]) (.call "list" [.number 0.0, .number 1.0]) none
        0.0 1.0 (abscissas 0.0 1.0) [] .standard := by
      have hbounds : readRange (.list [.number 0.0, .number 1.0]) = .ok (0.0, 1.0) := rfl
      refine .intro hfunction rfl hbounds rfl ?_
      -- whatever the number, the body gives it back
      exact List.forall₂_same.mpr fun x _ => ⟨.number x, rfl, rfl⟩
    exact ((hsampled 5 _ _ none).1 _ _ _ _ _ hsamples).2

end PlotLisp
