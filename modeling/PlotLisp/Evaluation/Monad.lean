/-
  PlotLisp.Evaluation.Monad
  ──────────────────────────────────────
  **EVALUATIONS.**

  An evaluation starts in an environment and ends in one, with a value or a
  fault.  What it defined before a fault stays defined.

    • `settle` — a check or a procedure that touches no environment;
    • `inside` — an evaluation in an environment of its own, which is
      forgotten afterwards.
-/
import PlotLisp.Environment

namespace PlotLisp

/-! ## §1. Evaluations. -/

/-- An evaluation of something of type `α`. -/
abbrev EvalM (α : Type) := ExceptT Fault (StateM Environment) α

namespace EvalM

variable {α β : Type}

/-- Carry out an evaluation: its outcome and the environment it ends in. -/
def outcome (action : EvalM α) (env : Environment) : Except Fault α × Environment :=
  (ExceptT.run action).run env

/-- An outcome that depends on no environment and changes none. -/
def settle : Except Fault α → EvalM α
  | .ok a => pure a
  | .error fault => throw fault

/-- Carry out an evaluation in the environment `inner`; the environment around it
stays as it is. -/
def inside (inner : Environment) (action : EvalM α) : EvalM α :=
  ExceptT.mk fun env => ((outcome action inner).1, env)

/-- Bind a name in the environment. -/
def bindName (name : String) (value : Expr) : EvalM Unit := do
  set (← settle ((← get).bind name value))

/-! ## §2. Outcomes. -/

/-- A value alone changes nothing. -/
@[simp] theorem outcome_pure (a : α) (env : Environment) :
    (pure a : EvalM α).outcome env = (.ok a, env) := rfl

/-- A fault alone changes nothing. -/
@[simp] theorem outcome_throw (fault : Fault) (env : Environment) :
    (throw fault : EvalM α).outcome env = (.error fault, env) := rfl

/-- Looking at the environment changes nothing. -/
@[simp] theorem outcome_get (env : Environment) :
    (get : EvalM Environment).outcome env = (.ok env, env) := rfl

/-- What follows starts where the first part ended, unless that was a fault. -/
theorem outcome_bind (action : EvalM α) (next : α → EvalM β) (env : Environment) :
    (action >>= next).outcome env =
      match action.outcome env with
      | (.ok a, after) => (next a).outcome after
      | (.error fault, after) => (.error fault, after) := by
  show (match action.outcome env with | (r, after) => ExceptT.bindCont next r after) = _
  obtain ⟨r, after⟩ := action.outcome env
  cases r <;> rfl

/-- A settled outcome stays as it is. -/
@[simp] theorem outcome_settle (r : Except Fault α) (env : Environment) :
    (settle r).outcome env = (r, env) := by
  cases r <;> rfl

/-- Of an evaluation inside, the environment around it sees the outcome only. -/
@[simp] theorem outcome_inside (inner : Environment) (action : EvalM α) (env : Environment) :
    (inside inner action).outcome env = ((action.outcome inner).1, env) := rfl

/-- Binding a name changes the environment unless the name is reserved. -/
theorem outcome_bindName (name : String) (value : Expr) (env : Environment) :
    (bindName name value).outcome env =
      match env.bind name value with
      | .ok after => (.ok (), after)
      | .error fault => (.error fault, env) := by
  unfold bindName
  simp only [outcome_bind, outcome_get, outcome_settle]
  cases env.bind name value <;> rfl

end EvalM

end PlotLisp
