/-
  PlotLisp.Proofs.Evaluation.Calls
  ──────────────────────────────────────
  **CALLS BY NAME.**

  What stands at the head of an expression and what a form is given to call
  are both names, looked up in the same environment:

    • `Expr.call`, `Expr.onList`, `Expr.listOfCalls` — expressions as they are
      written;
    • `Denotes env f callable` — what `f` calls in `env`, a procedure or a
      lambda;
    • `Rejects v count place fault` — a lambda refuses the count of values it
      is called with, and names the place of the call in its fault;
    • `UpToPlace` — otherwise, a call ends the same at any place.
-/
import Mathlib.Data.List.Forall2
import PlotLisp.Proofs.Evaluation.Again

namespace PlotLisp

open EvalM Evaluation

/-! ## §1. Expressions. -/

/-- The expression `(name parts …)`, as it is written. -/
def Expr.call (name : String) (parts : List Expr) : Expr := .node (.symbol name) parts []

/-- The expression `(form f (list args …))`. -/
def Expr.onList (form f : String) (args : List Expr) : Expr :=
  .call form [.symbol f, .call "list" args]

/-- The expression `(list (f a) …)`, with a call for each argument. -/
def Expr.listOfCalls (f : String) (args : List Expr) : Expr :=
  .call "list" (args.map fun a => .call f [a])

/-- A form with parts follows the rule of the form. -/
theorem step_form (eval : Expr → EvalM Expr) (form : SpecialForm) {parts : List Expr}
    (hparts : parts ≠ []) : step eval (.call form.name parts) = evalForm eval form parts := by
  have hform : (Expr.call form.name parts).headSymbol?.bind SpecialForm.ofName? = some form :=
    SpecialForm.ofName?_name form
  have hleaf : (Expr.call form.name parts).isLeaf = false := List.isEmpty_eq_false_iff.mpr hparts
  unfold step
  simp only [hform, hleaf, Bool.false_and, Bool.false_eq_true, if_false]
  cases form <;> rfl

/-- With arguments, a name that is no form is called. -/
theorem step_call (eval : Expr → EvalM Expr) {f : String} (hform : SpecialForm.ofName? f = none)
    {args : List Expr} (hargs : args ≠ []) :
    step eval (.call f args) = evalCall eval (.call f args) := by
  have hform : (Expr.call f args).headSymbol?.bind SpecialForm.ofName? = none := hform
  have hleaf : (Expr.call f args).isLeaf = false := List.isEmpty_eq_false_iff.mpr hargs
  unfold step
  simp only [hform, hleaf, Bool.false_and, Bool.false_eq_true, if_false]

/-! ## §2. What a name calls. -/

/-- In `env`, calling `f` means calling the procedure or the lambda it stands for. -/
inductive Denotes (env : Environment) (f : String) : Callable → Prop where
  | procedure {procedure : Procedure} :
      env.find? f = some (.procedure procedure) → Denotes env f (.procedure procedure)
  | lambda {v : Expr} :
      env.find? f = some (.binding v) → v.isLambda = true → Denotes env f (.lambda v)

namespace Denotes

variable {env : Environment} {f : String} {callable : Callable}

/-- A form that calls finds what the name stands for. -/
theorem outcome_resolve (h : Denotes env f callable) (form : String) :
    (resolve form (.symbol f)).outcome env = (.ok callable, env) := by
  unfold resolve
  show (get >>= _ : EvalM Callable).outcome env = _
  rw [outcome_bind, outcome_get]
  cases h with
  | procedure hfound =>
    simp only [hfound]
    rfl
  | lambda hfound hlambda =>
    simp only [hfound, if_pos hlambda]
    rfl

/-- So does a call, which goes on with its arguments. -/
theorem outcome_evalCall (h : Denotes env f callable) (eval : Expr → EvalM Expr)
    (args : List Expr) :
    (evalCall eval (.call f args)).outcome env
      = (evalAll eval args >>= call eval f callable).outcome env := by
  unfold evalCall
  show (get >>= _ : EvalM Expr).outcome env = _
  rw [outcome_bind, outcome_get]
  cases h with
  | procedure hfound =>
    simp only [hfound]
    rfl
  | lambda hfound hlambda =>
    simp only [hfound, if_pos hlambda]
    rfl

end Denotes

/-- An environment with a lambda `f` whose body looks up a name of its caller. -/
def Environment.callerScope : Environment :=
  ⟨[("list", .procedure .list), ("x", .binding (.string "a")),
    ("f", .binding (.lambda ["y"] (.call "list" [.symbol "x", .symbol "y"])))]⟩

theorem denotes_callerScope : Denotes .callerScope "f"
    (.lambda (.lambda ["y"] (.call "list" [.symbol "x", .symbol "y"]))) :=
  .lambda rfl rfl

/-! ## §3. The place of a call. -/

/-- Called with `count` values at `place`, the lambda fails before its body runs: it has no
parameter names, or another count of them. -/
inductive Rejects (v : Expr) (count : Nat) (place : String) : Fault → Prop where
  | parameters : v.lambdaParts? = none →
      Rejects v count place (runtime.fault (.mismatch place "a lambda" v.typeName))
  | count {names : List String} {body : Expr} : v.lambdaParts? = some (names, body) →
      names.length ≠ count →
      Rejects v count place (runtime.fault (.argument place (.exactly names.length) count))

/-- The ends of one call made at two places: the same, or faults of a lambda that rejects
the values it is called with, each with its place. -/
inductive UpToPlace (callable : Callable) (count : Nat) (place place' : String) :
    Except Fault Expr × Environment → Except Fault Expr × Environment → Prop where
  | same {x : Except Fault Expr × Environment} : UpToPlace callable count place place' x x
  | rejected {v : Expr} {fault fault' : Fault} {after : Environment} : callable = .lambda v →
      Rejects v count place fault → Rejects v count place' fault' →
      UpToPlace callable count place place' (.error fault, after) (.error fault', after)

/-- **The place of a call shows only where a lambda rejects its arguments.** -/
theorem outcome_call_place (eval : Expr → EvalM Expr) (place place' : String)
    (callable : Callable) (args : List Expr) (env : Environment) :
    UpToPlace callable args.length place place'
      ((call eval place callable args).outcome env)
      ((call eval place' callable args).outcome env) := by
  cases callable with
  | procedure procedure => exact .same
  | lambda v =>
    -- both places look at the parts of the lambda and count the values before the body runs
    simp only [call, applyLambda]
    cases hparts : v.lambdaParts? with
    | none => exact .rejected rfl (.parameters hparts) (.parameters hparts)
    | some parts =>
      obtain ⟨names, body⟩ := parts
      by_cases hlength : names.length = args.length
      · simp only [if_pos hlength]
        exact .same
      · simp only [if_neg hlength]
        exact .rejected rfl (.count hparts hlength) (.count hparts hlength)

/-- A call that succeeds does so at any place. -/
theorem outcome_call_of_ok {eval : Expr → EvalM Expr} {place : String} {callable : Callable}
    {args : List Expr} {env after : Environment} {v : Expr}
    (h : (call eval place callable args).outcome env = (.ok v, after)) (place' : String) :
    (call eval place' callable args).outcome env = (.ok v, after) := by
  have hplace := outcome_call_place eval place place' callable args env
  rw [h] at hplace
  generalize (call eval place' callable args).outcome env = x at hplace ⊢
  cases hplace with
  | same => rfl

/-! ## §4. Arguments. -/

variable {α β γ : Type}

/-- In sequence, evaluations succeed one after the other. -/
theorem outcome_bind_eq_ok_iff {action : EvalM α} {next : α → EvalM β}
    {env after : Environment} {b : β} :
    (action >>= next).outcome env = (.ok b, after)
      ↔ ∃ a between, action.outcome env = (.ok a, between)
          ∧ (next a).outcome between = (.ok b, after) := by
  rw [outcome_bind]
  rcases action.outcome env with ⟨r, between⟩
  constructor
  · intro h
    cases r with
    | ok a => exact ⟨a, between, rfl, h⟩
    | error fault => cases h
  · rintro ⟨a, _, hr, hnext⟩
    cases hr
    exact hnext

/-- They fail where the first of them fails. -/
theorem outcome_bind_eq_error_iff {action : EvalM α} {next : α → EvalM β}
    {env after : Environment} {fault : Fault} :
    (action >>= next).outcome env = (.error fault, after)
      ↔ action.outcome env = (.error fault, after)
        ∨ ∃ a between, action.outcome env = (.ok a, between)
            ∧ (next a).outcome between = (.error fault, after) := by
  rw [outcome_bind]
  rcases action.outcome env with ⟨r, between⟩
  cases r with
  | ok a =>
    constructor
    · intro h
      exact .inr ⟨a, between, rfl, h⟩
    · rintro (h | ⟨a', _, hr, hnext⟩)
      · cases h
      · cases hr
        exact hnext
  | error fault' =>
    constructor
    · intro h
      cases h
      exact .inl rfl
    · rintro (h | ⟨a, _, hr, -⟩)
      · cases h
        rfl
      · cases hr

/-- One result for each element. -/
theorem length_of_outcome_mapM {g : α → EvalM β} {as : List α} {bs : List β}
    {env after : Environment} (h : (as.mapM g).outcome env = (.ok bs, after)) :
    bs.length = as.length := by
  induction as generalizing bs env after with
  | nil =>
    cases h
    rfl
  | cons a rest ih =>
    rw [List.mapM_cons] at h
    obtain ⟨b, between, -, hrest⟩ := outcome_bind_eq_ok_iff.mp h
    obtain ⟨bs', after', hbs', hpure⟩ := outcome_bind_eq_ok_iff.mp hrest
    cases hpure
    rw [List.length_cons, List.length_cons, ih hbs']

/-- Where no element changes the environment, neither does a list. -/
theorem outcome_mapM_env {g : α → EvalM β} {as : List α} {env : Environment}
    (h : ∀ a ∈ as, ((g a).outcome env).2 = env) : ((as.mapM g).outcome env).2 = env := by
  have hkeeps : ∀ a ∈ as, Keeps (· = env) (fun _ => True) (fun _ => True) (g a) := by
    intro a ha E hE
    subst hE
    refine ⟨h a ha, ?_⟩
    cases ((g a).outcome E).1 <;> trivial
  exact (Keeps.mapM hkeeps env rfl).1

/-- There, a list succeeds with the results of its elements. -/
theorem outcome_mapM_eq_ok_iff {g : α → EvalM β} {as : List α} {bs : List β} {env : Environment}
    (h : ∀ a ∈ as, ((g a).outcome env).2 = env) :
    (as.mapM g).outcome env = (.ok bs, env)
      ↔ List.Forall₂ (fun a b => (g a).outcome env = (.ok b, env)) as bs := by
  induction as generalizing bs with
  | nil =>
    rw [List.forall₂_nil_left_iff]
    constructor
    · intro hbs
      cases hbs
      rfl
    · rintro rfl
      rfl
  | cons a rest ih =>
    obtain ⟨ha, hrest⟩ := List.forall_mem_cons.mp h
    rw [List.mapM_cons, outcome_bind_eq_ok_iff, List.forall₂_cons_left_iff]
    constructor
    · rintro ⟨b, between, hb, hbs⟩
      obtain rfl : between = env := by rw [← ha, hb]
      obtain ⟨bs', after, hbs', hpure⟩ := outcome_bind_eq_ok_iff.mp hbs
      cases hpure
      exact ⟨b, bs', hb, (ih hrest).mp hbs', rfl⟩
    · rintro ⟨b, bs', hb, hbs', rfl⟩
      exact ⟨b, env, hb, outcome_bind_eq_ok_iff.mpr ⟨bs', env, (ih hrest).mpr hbs', rfl⟩⟩

/-- Two passes over a list relate its elements to the results as one pass does. -/
theorem exists_forall₂_iff {R : α → β → Prop} {S : β → γ → Prop} {as : List α} {cs : List γ} :
    (∃ bs, List.Forall₂ R as bs ∧ List.Forall₂ S bs cs)
      ↔ List.Forall₂ (fun a c => ∃ b, R a b ∧ S b c) as cs := by
  constructor
  · rintro ⟨bs, hR, hS⟩
    induction hR generalizing cs with
    | nil =>
      cases hS
      exact .nil
    | cons hab _ ih =>
      cases hS with
      | cons hbc hrest => exact .cons ⟨_, hab, hbc⟩ (ih hrest)
  · intro h
    induction h with
    | nil => exact ⟨[], .nil, .nil⟩
    | cons hac _ ih =>
      obtain ⟨b, hab, hbc⟩ := hac
      obtain ⟨bs, hR, hS⟩ := ih
      exact ⟨b :: bs, .cons hab hR, .cons hbc hS⟩

/-- Relations that agree on the elements of a list relate it to the same results. -/
theorem forall₂_congr_of_mem {R S : α → β → Prop} {as : List α}
    (h : ∀ a ∈ as, ∀ b, R a b ↔ S a b) (bs : List β) :
    List.Forall₂ R as bs ↔ List.Forall₂ S as bs := by
  induction as generalizing bs with
  | nil => rw [List.forall₂_nil_left_iff, List.forall₂_nil_left_iff]
  | cons a rest ih =>
    obtain ⟨ha, hrest⟩ := List.forall_mem_cons.mp h
    rw [List.forall₂_cons_left_iff, List.forall₂_cons_left_iff]
    simp only [ha, ih hrest]

end PlotLisp
