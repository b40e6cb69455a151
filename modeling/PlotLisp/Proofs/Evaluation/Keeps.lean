/-
  PlotLisp.Proofs.Evaluation.Keeps
  ──────────────────────────────────────
  **WHAT AN EVALUATION KEEPS.**

  Failing evaluations keep what they did before the fault, so a statement
  about an evaluation covers both of its ends:

    • `EndsWith P Q r` — the outcome `r` is a value in `P` or a fault in `Q`;
    • `Keeps I Q P action` — from an environment in `I`, `action` ends in one,
      with such an outcome.

  There is one rule for each way to build an evaluation.
-/
import PlotLisp.Evaluation.Monad

namespace PlotLisp

variable {α β : Type} {P : α → Prop} {P' : β → Prop} {Q : Fault → Prop}

/-! ## §1. Outcomes. -/

/-- A value in `P` or a fault in `Q`. -/
def EndsWith (P : α → Prop) (Q : Fault → Prop) : Except Fault α → Prop
  | .ok a => P a
  | .error fault => Q fault

namespace EndsWith

/-- The property of the values may be weakened. -/
theorem mono {R : α → Prop} {r : Except Fault α} (h : EndsWith P Q r) (hPR : ∀ a, P a → R a) :
    EndsWith R Q r := by
  cases r with
  | ok a => exact hPR a h
  | error fault => exact h

/-- The property of the faults may be weakened, as a caller does that only adds to them. -/
theorem monoFault {Q' : Fault → Prop} {r : Except Fault α} (h : EndsWith P Q r)
    (hQ : ∀ fault, Q fault → Q' fault) : EndsWith P Q' r := by
  cases r with
  | ok a => exact h
  | error fault => exact hQ fault h

/-- What follows an outcome only has to deal with its values. -/
theorem bind {r : Except Fault α} {next : α → Except Fault β} (h : EndsWith P Q r)
    (hnext : ∀ a, P a → EndsWith P' Q (next a)) : EndsWith P' Q (r >>= next) := by
  cases r with
  | ok a => exact hnext a h
  | error fault => exact h

/-- A value that an outcome ends with is the value of that outcome. -/
theorem attach {r : Except Fault α} (h : EndsWith P Q r) :
    EndsWith (fun a => r = .ok a ∧ P a) Q r := by
  cases r with
  | ok a => exact ⟨rfl, h⟩
  | error fault => exact h

theorem map {r : Except Fault α} {f : α → β} (h : EndsWith P Q r) (hf : ∀ a, P a → P' (f a)) :
    EndsWith P' Q (r.map f) := by
  cases r with
  | ok a => exact hf a h
  | error fault => exact h

theorem mapM {f : α → Except Fault β} {as : List α} (h : ∀ a ∈ as, EndsWith P' Q (f a)) :
    EndsWith (fun bs => ∀ b ∈ bs, P' b) Q (as.mapM f) := by
  induction as with
  | nil => exact fun b hb => absurd hb List.not_mem_nil
  | cons a rest ih =>
    rw [List.mapM_cons]
    refine bind (h a List.mem_cons_self) ?_
    intro b hb
    have hrest := ih fun c hc => h c (List.mem_cons_of_mem a hc)
    refine bind hrest ?_
    intro bs hbs
    exact List.forall_mem_cons.mpr ⟨hb, hbs⟩

/-- A fold that may fail: `P'` is the invariant of its accumulator. -/
theorem foldlM {f : β → α → Except Fault β} {as : List α}
    (h : ∀ b, P' b → ∀ a ∈ as, EndsWith P' Q (f b a)) (b : β) (hb : P' b) :
    EndsWith P' Q (as.foldlM f b) := by
  induction as generalizing b with
  | nil => exact hb
  | cons a rest ih =>
    rw [List.foldlM_cons]
    refine bind (h b hb a List.mem_cons_self) ?_
    intro c hc
    exact ih (fun b hb a ha => h b hb a (List.mem_cons_of_mem _ ha)) c hc

end EndsWith

/-! ## §2. Evaluations. -/

namespace EvalM

/-- Started in an environment of `I`, the evaluation ends in one, with a value in `P`
or a fault in `Q`. -/
def Keeps (I : Environment → Prop) (Q : Fault → Prop) (P : α → Prop) (action : EvalM α) : Prop :=
  ∀ env, I env → I (action.outcome env).2 ∧ EndsWith P Q (action.outcome env).1

variable {I : Environment → Prop}

namespace Keeps

protected theorem pure {a : α} (ha : P a) : Keeps I Q P (pure a) :=
  fun _ henv => ⟨henv, ha⟩

protected theorem throw {fault : Fault} (hf : Q fault) : Keeps I Q P (throw fault) :=
  fun _ henv => ⟨henv, hf⟩

protected theorem get : Keeps I Q I get :=
  fun _ henv => ⟨henv, henv⟩

theorem settle {r : Except Fault α} (h : EndsWith P Q r) : Keeps I Q P (settle r) := by
  intro env henv
  rw [outcome_settle]
  exact ⟨henv, h⟩

/-- In sequence, each part hands the invariant on to the next. -/
theorem bind {action : EvalM α} {next : α → EvalM β} (h : Keeps I Q P action)
    (hnext : ∀ a, P a → Keeps I Q P' (next a)) : Keeps I Q P' (action >>= next) := by
  intro env henv
  obtain ⟨hafter, hends⟩ := h env henv
  rw [outcome_bind]
  rcases hr : action.outcome env with ⟨r, after⟩
  rw [hr] at hafter hends
  cases r with
  | ok a => exact hnext a hends after hafter
  | error fault => exact ⟨hafter, hends⟩

/-- The environment around an evaluation inside another one is not touched. -/
theorem inside {J : Environment → Prop} {inner : Environment} {action : EvalM α}
    (hinner : J inner) (h : Keeps J Q P action) : Keeps I Q P (inside inner action) := by
  intro env henv
  rw [outcome_inside]
  exact ⟨henv, (h inner hinner).2⟩

/-- The only effect of the interpreter, and its only refusal: a name that is already taken. -/
theorem bindName {name : String} {value : Expr}
    (hQ : ∀ name, Q (runtime.fault (.redefinition name)))
    (hbind : ∀ env after, I env → env.bind name value = .ok after → I after) :
    Keeps I Q (fun _ => True) (bindName name value) := by
  intro env henv
  rw [outcome_bindName]
  cases h : env.bind name value with
  | ok after => exact ⟨hbind env after henv h, trivial⟩
  | error fault =>
    rw [Environment.bind_eq_error h]
    exact ⟨henv, hQ name⟩

theorem mapM {f : α → EvalM β} {as : List α} (h : ∀ a ∈ as, Keeps I Q P' (f a)) :
    Keeps I Q (fun bs => ∀ b ∈ bs, P' b) (as.mapM f) := by
  induction as with
  | nil => exact Keeps.pure fun b hb => absurd hb List.not_mem_nil
  | cons a rest ih =>
    rw [List.mapM_cons]
    refine bind (h a List.mem_cons_self) ?_
    intro b hb
    have hrest := ih fun c hc => h c (List.mem_cons_of_mem a hc)
    refine bind hrest ?_
    intro bs hbs
    exact Keeps.pure (List.forall_mem_cons.mpr ⟨hb, hbs⟩)

end Keeps

end EvalM

end PlotLisp
