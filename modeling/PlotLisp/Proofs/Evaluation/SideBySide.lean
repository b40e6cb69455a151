/-
  PlotLisp.Proofs.Evaluation.SideBySide
  ──────────────────────────────────────
  **TWO EVALUATIONS SIDE BY SIDE.**

  Two evaluations start in environments that a relation `R` admits.  The first
  one may be cut off; if it is not, both end alike:

    • `Alike R cut P x y` — the end `x` is a fault in `cut`, or `x` and `y` are
      one value in `P` or one fault, in environments that `R` admits;
    • `Tracks R cut P action other` — from environments that `R` admits, the two
      evaluations end alike.

  There is one rule for each way to build an evaluation.
-/
import PlotLisp.Proofs.Evaluation.Keeps

namespace PlotLisp

variable {α β : Type} {R : Environment → Environment → Prop} {cut : Fault → Prop}
  {P : α → Prop} {P' : β → Prop}

/-! ## §1. Ends. -/

/-- The first evaluation was cut off, or both came to the same. -/
inductive Alike (R : Environment → Environment → Prop) (cut : Fault → Prop) (P : α → Prop) :
    Except Fault α × Environment → Except Fault α × Environment → Prop where
  | cutOff {fault : Fault} {after : Environment} {other : Except Fault α × Environment} :
      cut fault → Alike R cut P (.error fault, after) other
  | value {a : α} {after after' : Environment} :
      P a → R after after' → Alike R cut P (.ok a, after) (.ok a, after')
  | fault {fault : Fault} {after after' : Environment} :
      R after after' → Alike R cut P (.error fault, after) (.error fault, after')

/-! ## §2. Evaluations. -/

namespace EvalM

/-- Started in environments that `R` admits, the evaluations end alike. -/
def Tracks (R : Environment → Environment → Prop) (cut : Fault → Prop) (P : α → Prop)
    (action other : EvalM α) : Prop :=
  ∀ E E', R E E' → Alike R cut P (action.outcome E) (other.outcome E')

namespace Tracks

protected theorem pure {a : α} (ha : P a) : Tracks R cut P (pure a) (pure a) :=
  fun _ _ hE => .value ha hE

protected theorem throw {fault : Fault} : Tracks R cut P (throw fault) (throw fault) :=
  fun _ _ hE => .fault hE

/-- Being cut off is alike to whatever the other evaluation comes to. -/
theorem throw_cut {fault : Fault} {other : EvalM α} (h : cut fault) :
    Tracks R cut P (throw fault) other :=
  fun _ _ _ => .cutOff h

/-- What depends on the environment is looked at in either one. -/
theorem get_bind {next next' : Environment → EvalM α}
    (h : ∀ E E', R E E' → Tracks R cut P (next E) (next' E')) :
    Tracks R cut P (get >>= next) (get >>= next') := by
  intro E E' hE
  rw [outcome_bind, outcome_bind]
  exact h E E' hE E E' hE

theorem settle {r : Except Fault α} (h : EndsWith P (fun _ => True) r) :
    Tracks R cut P (settle r) (settle r) := by
  intro E E' hE
  rw [outcome_settle, outcome_settle]
  cases r with
  | ok a => exact .value h hE
  | error fault => exact .fault hE

/-- In sequence, the second parts start where the first parts ended alike. -/
theorem bind {action other : EvalM α} {next next' : α → EvalM β}
    (h : Tracks R cut P action other) (hnext : ∀ a, P a → Tracks R cut P' (next a) (next' a)) :
    Tracks R cut P' (action >>= next) (other >>= next') := by
  intro E E' hE
  have hends := h E E' hE
  rw [outcome_bind, outcome_bind]
  generalize action.outcome E = x at hends ⊢
  generalize other.outcome E' = y at hends ⊢
  cases hends with
  | cutOff hcut => exact .cutOff hcut
  | value ha hR => exact hnext _ ha _ _ hR
  | fault hR => exact .fault hR

/-- Of two evaluations inside, the environments around them see the outcomes only. -/
theorem inside {inner inner' : Environment} {action other : EvalM α} (hinner : R inner inner')
    (h : Tracks R cut P action other) :
    Tracks R cut P (inside inner action) (inside inner' other) := by
  intro E E' hE
  have hends := h inner inner' hinner
  rw [outcome_inside, outcome_inside]
  generalize action.outcome inner = x at hends ⊢
  generalize other.outcome inner' = y at hends ⊢
  cases hends with
  | cutOff hcut => exact .cutOff hcut
  | value ha _ => exact .value ha hE
  | fault _ => exact .fault hE

theorem mapM {f f' : α → EvalM β} {as : List α} (h : ∀ a ∈ as, Tracks R cut P' (f a) (f' a)) :
    Tracks R cut (fun bs => ∀ b ∈ bs, P' b) (as.mapM f) (as.mapM f') := by
  induction as with
  | nil => exact Tracks.pure (List.forall_mem_nil _)
  | cons a rest ih =>
    rw [List.mapM_cons, List.mapM_cons]
    obtain ⟨ha, hrest⟩ := List.forall_mem_cons.mp h
    refine ha.bind ?_
    intro b hb
    refine (ih hrest).bind ?_
    intro bs hbs
    exact Tracks.pure (List.forall_mem_cons.mpr ⟨hb, hbs⟩)

end Tracks

end EvalM

end PlotLisp
