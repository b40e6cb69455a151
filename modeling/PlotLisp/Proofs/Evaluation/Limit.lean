/-
  PlotLisp.Proofs.Evaluation.Limit
  ──────────────────────────────────────
  **THE LIMIT ON NESTED EVALUATIONS.**

  The limit cuts evaluations off and has no other influence:

    • `raisedLimit` — with more evaluations left inside one another, an
      evaluation ends as before unless it was cut off before;
    • `fault_of_evaluate` — what holds of faults as they are raised holds of those
      that come out of an evaluation, so that one that is cut off reports the
      limit it ran under;
    • so there is a threshold below which an expression is cut off and from
      which on it always ends the same, unless every limit cuts it off.
-/
import Mathlib.Data.Nat.Find
import PlotLisp.Proofs.Evaluation.Frame
import PlotLisp.Proofs.Evaluation.Simulation

namespace PlotLisp

open EvalM Evaluation

/-! ## §1. Being cut off. -/

/-- The outcome is the fault of too many nested evaluations. -/
def CutOff {α : Type} (r : Except Fault α) : Prop :=
  ∃ f limit, r = .error f ∧ f.cause = .recursionLimit limit

/-- What gives a value is not cut off. -/
theorem not_cutOff_ok {α : Type} (a : α) : ¬ CutOff (.ok a : Except Fault α) := by
  rintro ⟨f, limit, h, -⟩
  cases h

/-- If the fault is that of being cut off, it is `limit` that it reports. -/
def Fault.Reports (limit : Nat) (f : Fault) : Prop :=
  ∀ reported, f.cause = .recursionLimit reported → f = runtime.fault (.recursionLimit limit)

theorem Fault.Ordinary.reports {f : Fault} (h : f.Ordinary) (limit : Nat) : f.Reports limit :=
  fun reported hcause => absurd hcause (h.ne_recursionLimit reported)

/-- Binding names fails with ordinary faults only. -/
theorem Environment.bindAll_ends (env : Environment) (pairs : List (String × Expr)) :
    FailsOrdinarily (env.bindAll pairs) := by
  induction pairs generalizing env with
  | nil => trivial
  | cons first rest ih =>
    obtain ⟨name, v⟩ := first
    unfold bindAll
    cases hbind : env.bind name v with
    | ok bound => exact ih bound
    | error fault =>
      rw [bind_eq_error hbind]
      exact .atRuntime trivial

/-- A call fails as evaluating the body fails, with an ordinary fault, or for want of a
lambda. -/
theorem applyLambda_fails {Q : Fault → Prop} (hQ : ∀ f : Fault, f.Ordinary → Q f)
    (hlambda : ∀ place actual, Q (runtime.fault (.mismatch place lambdaWanted actual)))
    {eval : Expr → EvalM Expr} (heval : ∀ e, Keeps (fun _ => True) Q (fun _ => True) (eval e))
    (place : String) (lambda : Expr) (args : List Expr) :
    Keeps (fun _ => True) Q (fun _ => True) (applyLambda eval place lambda args) := by
  unfold applyLambda
  split
  · exact Keeps.throw (hlambda _ _)
  · rename_i params body _
    split
    · refine Keeps.get.bind ?_
      intro E _
      refine (Keeps.settle ((E.bindAll_ends (params.zip args)).monoFault hQ)).bind ?_
      intro inner _
      exact Keeps.inside trivial (heval body)
    · exact Keeps.throw (hQ _ (.atRuntime trivial))

/-- The invariants of faults alone: what holds of ordinary ones, of being cut off and of
missing a lambda. -/
def Invariant.ofFaults {limit : Nat} {Q : Fault → Prop} (hQ : ∀ f : Fault, f.Ordinary → Q f)
    (hcutOff : Q (runtime.fault (.recursionLimit limit)))
    (hlambda : ∀ place actual, Q (runtime.fault (.mismatch place lambdaWanted actual))) :
    Invariant limit where
  env _ := True
  code _ _ := True
  value _ := True
  fault := Q
  values := trivialValues
  ordinary := hQ
  cutOff _ _ := hcutOff
  part _ _ _ _ _ _ := trivial
  literal _ _ _ _ _ := trivial
  binding _ _ _ _ _ := trivial
  lambda _ _ _ _ _ _ _ _ _ := trivial
  define _ _ _ _ _ _ _ _ _ _ _ _ _ _ _ := trivial
  applied _ _ place lambda args heval _ _ _ :=
    applyLambda_fails hQ hlambda (fun e => heval e trivial) place lambda args

/-- **What holds of all faults as they are raised holds of a fault that comes out of an
evaluation.** -/
theorem fault_of_evaluate {limit : Nat} {Q : Fault → Prop}
    (hQ : ∀ f : Fault, f.Ordinary → Q f) (hcutOff : Q (runtime.fault (.recursionLimit limit)))
    (hlambda : ∀ place actual, Q (runtime.fault (.mismatch place lambdaWanted actual)))
    {e : Expr} {env : Environment} {f : Fault} (h : (evaluate limit e env).1 = .error f) :
    Q f := by
  have hends : EndsWith (fun _ => True) Q (evaluate limit e env).1 :=
    ((Invariant.ofFaults hQ hcutOff hlambda).evalWithin limit e trivial env trivial).2
  rwa [h] at hends

/-- Whatever is evaluated, the limit reported is the one that holds. -/
theorem reports_of_evaluate {limit : Nat} {e : Expr} {env : Environment} {f : Fault}
    (h : (evaluate limit e env).1 = .error f) : f.Reports limit :=
  fault_of_evaluate (fun _ hf => hf.reports limit) (fun _ _ => rfl)
    (fun _ _ _ hcause => by cases hcause) h

/-- An evaluation that is cut off reports its own limit. -/
theorem evaluate_of_cutOff {limit : Nat} {e : Expr} {env : Environment}
    (h : CutOff (evaluate limit e env).1) :
    (evaluate limit e env).1 = .error (runtime.fault (.recursionLimit limit)) := by
  obtain ⟨f, reported, hf, hcause⟩ := h
  rw [hf, reports_of_evaluate hf reported hcause]

/-! ## §2. Raising the limit. -/

/-- One environment, in which the first evaluation may be cut off. -/
def raisedLimit : Simulation where
  envs E E' := E = E'
  name _ := True
  code _ := True
  value _ := True
  cut f := ∃ limit, f.cause = .recursionLimit limit
  values := trivialValues
  find hE _ := by rw [hE]
  put hE _ _ := by rw [hE]
  binding _ _ _ := trivial
  head _ _ := trivial
  part _ _ := trivial
  literal _ _ _ := trivial
  lambda _ _ := trivial
  lambdaParts _ _ := ⟨fun _ _ => trivial, trivial⟩

/-- More evaluations left, under whatever limit, make no difference but to what was cut
off. -/
theorem evalWithin_simulates (limit limit' : Nat) {depth depth' : Nat} (h : depth ≤ depth') :
    raisedLimit.Simulates (evalWithin limit depth) (evalWithin limit' depth') := by
  -- on the evaluations that the first one has left: with none, it is cut off at once
  induction depth generalizing depth' with
  | zero => exact fun e _ => Tracks.throw_cut ⟨limit, rfl⟩
  | succ depth ih =>
    obtain ⟨d, rfl⟩ : ∃ d, depth' = d + 1 := ⟨depth' - 1, by omega⟩
    exact Simulation.step (ih (Nat.le_of_succ_le_succ h))

/-- An evaluation that is not cut off ends as one that tracks it. -/
theorem outcome_of_tracks {α : Type} {P : α → Prop} {action other : EvalM α}
    (h : raisedLimit.Tracks P action other) {env : Environment}
    (hcut : ¬ CutOff (action.outcome env).1) : other.outcome env = action.outcome env := by
  have hends := h env env rfl
  generalize action.outcome env = x at hends hcut ⊢
  generalize other.outcome env = y at hends ⊢
  cases hends with
  | cutOff hfault =>
    obtain ⟨limit, hcause⟩ := hfault
    exact absurd ⟨_, limit, rfl, hcause⟩ hcut
  | value _ hafter =>
    have hafter : _ = _ := hafter
    rw [hafter]
  | fault hafter =>
    have hafter : _ = _ := hafter
    rw [hafter]

/-- Any evaluation tracks itself. -/
theorem tracks_self {α : Type} (action : EvalM α) :
    raisedLimit.Tracks (fun _ => True) action action := by
  intro E E' hE
  have hE : E = E' := hE
  subst hE
  rcases action.outcome E with ⟨r, after⟩
  cases r with
  | ok a => exact .value trivial rfl
  | error fault => exact .fault rfl

/-- Under a higher limit, an evaluation that was not cut off ends the same. -/
theorem evaluate_of_le {limit limit' : Nat} {e : Expr} {env : Environment}
    (hle : limit ≤ limit') (hcut : ¬ CutOff (evaluate limit e env).1) :
    evaluate limit' e env = evaluate limit e env :=
  outcome_of_tracks (evalWithin_simulates limit limit' hle e trivial) hcut

/-- **The limit only cuts evaluations off.**  An outcome other than being cut off stays
the same under every higher limit.  So an expression has a threshold: all limits below
it are reported as exceeded, and from it on the end is always the same; or every limit
is exceeded. -/
theorem limit_only_cuts_off (e : Expr) (env : Environment) :
    (∀ limit limit', limit ≤ limit' → ¬ CutOff (evaluate limit e env).1 →
      evaluate limit' e env = evaluate limit e env)
    ∧ ((∃ threshold,
          (∀ limit, limit < threshold →
            (evaluate limit e env).1 = .error (runtime.fault (.recursionLimit limit)))
          ∧ ∀ limit, threshold ≤ limit → ¬ CutOff (evaluate limit e env).1
              ∧ evaluate limit e env = evaluate threshold e env)
      ∨ ∀ limit, (evaluate limit e env).1 = .error (runtime.fault (.recursionLimit limit))) := by
  refine ⟨fun _ _ => evaluate_of_le, ?_⟩
  by_cases hsome : ∃ limit, ¬ CutOff (evaluate limit e env).1
  · -- the threshold is the least limit that is enough
    left
    classical
    have hthreshold := Nat.find_spec hsome
    refine ⟨Nat.find hsome, fun limit hlt => ?_, fun limit hle => ?_⟩
    · exact evaluate_of_cutOff (Classical.not_not.mp (Nat.find_min hsome hlt))
    · have hsame := evaluate_of_le hle hthreshold
      rw [hsame]
      exact ⟨hthreshold, rfl⟩
  · right
    intro limit
    exact evaluate_of_cutOff (Classical.not_not.mp fun h => hsome ⟨limit, h⟩)

end PlotLisp
