/-
  PlotLisp.Proofs.Evaluation.Programs
  ──────────────────────────────────────
  **RUNS OF PROGRAMS.**

  An interpreter is given one text after the other, and goes on after those
  that fail:

    • `Plain e` — no node of `e` has a property; programs are read as such;
    • `runInput_cases` — what one text does;
    • `afterInputs_keeps` — what every text keeps holds after any number of
      them.
-/
import PlotLisp.Interpreter
import PlotLisp.Proofs.Evaluation.Frame
import PlotLisp.Proofs.Source.Acceptance

namespace PlotLisp

/-! ## §1. Programs as they are read. -/

/-- No property anywhere. -/
inductive Plain : Expr → Prop where
  | node {head : Atom} {tail : List Expr} : (∀ c ∈ tail, Plain c) → Plain (.node head tail [])

theorem Plain.of_mem_tail {e c : Expr} (h : Plain e) (hc : c ∈ e.tail) : Plain c := by
  cases h with
  | node h => exact h c hc

namespace Source.Grammar

mutual

theorem Expression.plain {text rest : List Char} {e : Expr} :
    Expression text e rest → Plain e
  | .intro _ _ hc => .node hc.plain

theorem Children.plain {text rest : List Char} {es : List Expr} :
    Children text es rest → ∀ e ∈ es, Plain e
  | .close _ => fun _ he => absurd he List.not_mem_nil
  | .atom _ _ hc => List.forall_mem_cons.mpr ⟨.node fun _ h => absurd h List.not_mem_nil, hc.plain⟩
  | .expression _ he hc => List.forall_mem_cons.mpr ⟨he.plain, hc.plain⟩

end

end Source.Grammar

/-- Programs are read without properties. -/
theorem SourceText.plain_of_parse {source : SourceText} {program : Expr}
    (h : source.parse = .ok program) : Plain program := by
  unfold SourceText.parse at h
  split at h
  · rename_i e hparse
    obtain ⟨_, _, -, he, -⟩ := (Source.parse_eq_ok_iff source.text e).mp hparse
    cases h
    exact he.plain
  · cases h

/-! ## §2. Runs. -/

namespace Interpreter

/-- The interpreter after it was given one text after the other. -/
def afterInputs (interp : Interpreter) (texts : List String) : Interpreter :=
  texts.foldl (fun interp text => (interp.runInput text).2) interp

/-- A text that is no program leaves the environment alone and fails as malformed; any
other is evaluated. -/
theorem runInput_cases (interp : Interpreter) (text : String) :
    (∃ d detail, (interp.runInput text).1 = .error d ∧ d.cause = .malformed detail
      ∧ (interp.runInput text).2.env = interp.env)
    ∨ ∃ program, Plain program
      ∧ (interp.runInput text).2.env = (PlotLisp.evaluate interp.limit program interp.env).2
      ∧ match (PlotLisp.evaluate interp.limit program interp.env).1 with
        | .ok v => (interp.runInput text).1 = .ok v
        | .error f => (interp.runInput text).1 = .error (f.withSource ⟨inputName, text⟩) := by
  unfold runInput run read
  cases hparse : SourceText.parse ⟨inputName, text⟩ with
  | error d =>
    left
    unfold SourceText.parse at hparse
    split at hparse
    · cases hparse
    · cases hparse
      exact ⟨_, _, rfl, rfl, rfl⟩
  | ok program =>
    right
    refine ⟨program, SourceText.plain_of_parse hparse, ?_⟩
    simp only [evaluateProgram]
    rcases PlotLisp.evaluate interp.limit program interp.env with ⟨r, after⟩
    cases r with
    | ok v => exact ⟨rfl, rfl⟩
    | error f => exact ⟨rfl, rfl⟩

/-- What one text keeps, any number of them keeps. -/
theorem afterInputs_keeps {I : Interpreter → Prop}
    (hstep : ∀ (interp : Interpreter) (text : String), I interp → I (interp.runInput text).2)
    {interp : Interpreter} (h : I interp) (texts : List String) :
    I (interp.afterInputs texts) := by
  induction texts generalizing interp with
  | nil => exact h
  | cons text rest ih => exact ih (hstep interp text h)

/-- No program takes a procedure's name away. -/
theorem procedure_afterInputs {interp : Interpreter} {name : String} {procedure : Procedure}
    (h : interp.env.find? name = some (.procedure procedure)) (texts : List String) :
    (interp.afterInputs texts).env.find? name = some (.procedure procedure) := by
  have hstep (interp : Interpreter) (text : String)
      (h : interp.env.find? name = some (.procedure procedure)) :
      (interp.runInput text).2.env.find? name = some (.procedure procedure) := by
    rcases interp.runInput_cases text with ⟨_, _, -, -, henv⟩ | ⟨program, -, henv, -⟩
    · rw [henv]
      exact h
    · rw [henv]
      exact (evalWithin_extends interp.limit interp.limit program interp.env).procedure h
  exact afterInputs_keeps (I := fun interp => interp.env.find? name = some (.procedure procedure))
    hstep h texts

/-- One text keeps every invariant that admits what texts are read as. -/
theorem runInput_keeps {interp : Interpreter} (inv : Invariant interp.limit)
    (hcode : ∀ e, Plain e → inv.code interp.limit e) (henv : inv.env interp.env)
    (text : String) :
    inv.env (interp.runInput text).2.env
      ∧ (∀ v, (interp.runInput text).1 = .ok v → inv.value v)
      ∧ ∀ d, (interp.runInput text).1 = .error d → (∃ detail, d.cause = .malformed detail)
          ∨ ∃ f, inv.fault f ∧ d = f.withSource ⟨inputName, text⟩ := by
  rcases interp.runInput_cases text with
    ⟨d, detail, hout, hcause, henv'⟩ | ⟨program, hplain, henv', hout⟩
  · -- a text that is no program
    rw [henv', hout]
    refine ⟨henv, fun v hv => absurd hv (by simp), fun d' hd => ?_⟩
    cases hd
    exact .inl ⟨detail, hcause⟩
  · -- a program: the invariant holds at the end of its evaluation, fault or value
    obtain ⟨hafter, hends⟩ : inv.env (PlotLisp.evaluate interp.limit program interp.env).2
        ∧ EndsWith inv.value inv.fault (PlotLisp.evaluate interp.limit program interp.env).1 :=
      inv.evalWithin interp.limit program (hcode program hplain) interp.env henv
    rw [henv']
    refine ⟨hafter, ?_⟩
    cases hr : (PlotLisp.evaluate interp.limit program interp.env).1 with
    | ok v =>
      rw [hr] at hout hends
      have hout : (interp.runInput text).1 = .ok v := hout
      rw [hout]
      refine ⟨fun v' hv' => ?_, fun d hd => absurd hd (by simp)⟩
      cases hv'
      exact hends
    | error f =>
      rw [hr] at hout hends
      have hout : (interp.runInput text).1 = .error (f.withSource ⟨inputName, text⟩) := hout
      rw [hout]
      refine ⟨fun v hv => absurd hv (by simp), fun d hd => ?_⟩
      cases hd
      exact .inr ⟨f, hends, rfl⟩

end Interpreter

end PlotLisp
