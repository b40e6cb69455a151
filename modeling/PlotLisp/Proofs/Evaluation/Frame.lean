/-
  PlotLisp.Proofs.Evaluation.Frame
  ──────────────────────────────────────
  **WHAT AN EVALUATION MAY CHANGE.**

  A program changes the environment by `define` only, so what an expression
  may change stands in its text:

    • `Defines name e` — outside all lambdas, `e` has a definition of `name`;
    • `Extends D before after` — every name that means something new is free
      in `before`, belongs to `D`, and is bound in `after`;
    • a call changes nothing at all, whatever the body of a lambda defines.
-/
import PlotLisp.Proofs.Evaluation.Invariant

namespace PlotLisp

open EvalM Evaluation

/-! ## §1. Visible definitions. -/

/-- Somewhere in `e`, but in no node headed by `lambda`, stands a node
`(define name body)`. -/
inductive Defines (name : String) : Expr → Prop where
  | here {e target body : Expr} : e.headSymbol? = some "define" → e.tail = [target, body] →
      target.symbol? = some name → Defines name e
  | part {e c : Expr} : e.headSymbol? ≠ some "lambda" → c ∈ e.tail → Defines name c →
      Defines name e

/-! ## §2. Extensions. -/

/-- What is not reserved is no form, no constant and no procedure. -/
theorem Environment.free_of_isReserved {env : Environment} {name : String}
    (h : env.isReserved name = false) :
    SpecialForm.ofName? name = none ∧ name ∉ ["pi", "e", "I"]
      ∧ ∀ procedure, env.find? name ≠ some (.procedure procedure) := by
  unfold isReserved at h
  rw [Bool.or_eq_false_iff, Bool.or_eq_false_iff] at h
  obtain ⟨⟨hform, hconstant⟩, hprocedure⟩ := h
  refine ⟨by simpa using hform, ?_, ?_⟩
  · intro hmem
    have hcontains : constantNames.contains name = true := List.contains_iff_mem.mpr hmem
    rw [hcontains] at hconstant
    cases hconstant
  · intro procedure hp
    simp [isProcedure, procedure?, hp] at hprocedure

/-- Binding a free name reserves no name and frees none. -/
theorem Environment.isReserved_put {env : Environment} {name : String}
    (hfree : env.isReserved name = false) (v : Expr) (other : String) :
    (env.put name (.binding v)).isReserved other = env.isReserved other := by
  unfold isReserved isProcedure procedure?
  rw [find?_put]
  by_cases hname : other = name
  · subst hname
    obtain ⟨-, -, hprocedure⟩ := free_of_isReserved hfree
    rw [if_pos rfl]
    cases hfound : env.find? other with
    | none => rfl
    | some entry =>
      cases entry with
      | binding w => rfl
      | procedure procedure => exact absurd hfound (hprocedure procedure)
  · rw [if_neg hname]

theorem Environment.bind_of_free {env : Environment} {name : String}
    (hfree : env.isReserved name = false) (v : Expr) :
    env.bind name v = .ok (env.put name (.binding v)) := by
  unfold bind
  rw [if_neg (by simp [hfree])]

/-- What holds of a value and of all values bound before holds of all values bound after. -/
theorem Environment.forall_bound_of_bind {P : Expr → Prop} {env : Environment}
    (h : ∀ name v, env.find? name = some (.binding v) → P v) {name : String} {v : Expr} (hv : P v)
    {after : Environment} (hbind : env.bind name v = .ok after) :
    ∀ other w, after.find? other = some (.binding w) → P w := by
  obtain ⟨-, rfl⟩ := bind_eq_ok hbind
  intro other w hw
  rw [find?_put] at hw
  by_cases hname : other = name
  · rw [if_pos hname] at hw
    cases hw
    exact hv
  · rw [if_neg hname] at hw
    exact h other w hw

/-- `after` differs from `before` in bindings of unreserved names of `D` only. -/
def Extends (D : String → Prop) (before after : Environment) : Prop :=
  ∀ name, after.find? name ≠ before.find? name →
    (∃ v, after.find? name = some (.binding v)) ∧ before.isReserved name = false ∧ D name

namespace Extends

variable {D : String → Prop} {before after : Environment}

theorem refl (env : Environment) : Extends D env env :=
  fun _ h => absurd rfl h

/-- Procedures keep their names. -/
theorem procedure (h : Extends D before after) {name : String} {procedure : Procedure}
    (hp : before.find? name = some (.procedure procedure)) :
    after.find? name = some (.procedure procedure) := by
  by_cases hname : after.find? name = before.find? name
  · rw [hname, hp]
  · -- the name of a procedure is reserved
    obtain ⟨-, hfree, -⟩ := h name hname
    obtain ⟨-, -, hno⟩ := Environment.free_of_isReserved hfree
    exact absurd hp (hno procedure)

theorem isKnown (h : Extends D before after) {name : String} (hk : before.isKnown name = true) :
    after.isKnown name = true := by
  unfold Environment.isKnown at hk ⊢
  by_cases hname : after.find? name = before.find? name
  · rw [hname]
    exact hk
  · obtain ⟨⟨v, hv⟩, -⟩ := h name hname
    rw [hv]
    rfl

/-- What is free later was free before. -/
theorem isReserved_eq_false (h : Extends D before after) {name : String}
    (hfree : after.isReserved name = false) : before.isReserved name = false := by
  by_cases hname : after.find? name = before.find? name
  · -- reserved or not, a name is so for what it means
    unfold Environment.isReserved Environment.isProcedure Environment.procedure? at hfree ⊢
    rw [← hname]
    exact hfree
  · exact (h name hname).2.1

/-- What was free before is free later. -/
theorem isReserved_eq_false_after (h : Extends D before after) {name : String}
    (hfree : before.isReserved name = false) : after.isReserved name = false := by
  unfold Environment.isReserved Environment.isProcedure Environment.procedure? at hfree ⊢
  by_cases hname : after.find? name = before.find? name
  · rw [hname]
    exact hfree
  · -- a name that is bound on the way is no procedure
    obtain ⟨⟨v, hv⟩, -⟩ := h name hname
    rw [Bool.or_eq_false_iff] at hfree ⊢
    rw [hv]
    exact ⟨hfree.1, rfl⟩

/-- A binding of a name in `D` extends further. -/
theorem bind (h : Extends D before after) {name : String} (hD : D name) {v : Expr}
    {bound : Environment} (hbind : after.bind name v = .ok bound) : Extends D before bound := by
  obtain ⟨hfree, rfl⟩ := Environment.bind_eq_ok hbind
  intro other hother
  rw [Environment.find?_put] at hother ⊢
  by_cases hname : other = name
  · -- the name that is bound
    subst hname
    exact ⟨⟨v, if_pos rfl⟩, h.isReserved_eq_false hfree, hD⟩
  · rw [if_neg hname] at hother ⊢
    exact h other hother

end Extends

/-! ## §3. Calls. -/

/-- Nothing that the body of a lambda defines gets out. -/
theorem applyLambda_env (eval : Expr → EvalM Expr) (place : String) (lambda : Expr)
    (args : List Expr) (env : Environment) :
    ((applyLambda eval place lambda args).outcome env).2 = env := by
  unfold applyLambda
  split
  · rfl
  · rename_i params body _
    split
    · -- the body runs inside, unless a parameter is reserved
      simp only [outcome_bind, outcome_get, outcome_settle]
      cases env.bindAll (params.zip args) <;> rfl
    · rfl

/-- A call changes nothing. -/
theorem call_env (eval : Expr → EvalM Expr) (form : String) (callable : Callable)
    (args : List Expr) (env : Environment) :
    ((call eval form callable args).outcome env).2 = env := by
  cases callable with
  | procedure procedure =>
    show ((settle (procedure.run args)).outcome env).2 = env
    rw [outcome_settle]
  | lambda v => exact applyLambda_env eval form v args env

/-! ## §4. Evaluation. -/

theorem trivialValues : ClosedValues fun _ => True :=
  ⟨fun _ _ => trivial, fun _ _ => trivial, fun _ _ _ _ _ => trivial,
    fun _ _ _ _ _ => trivial, fun _ _ _ _ _ => trivial⟩

/-- Code that defines nothing outside `D` leads to extensions of `before`. -/
def extension (limit : Nat) (D : String → Prop) (before : Environment) : Invariant limit where
  env := Extends D before
  code _ e := ∀ name, Defines name e → D name
  value _ := True
  fault _ := True
  values := trivialValues
  ordinary _ _ := trivial
  cutOff _ _ := trivial
  part _ _ hcode hhead c hc name hname := hcode name (.part hhead hc hname)
  literal _ _ _ _ _ := trivial
  binding _ _ _ _ _ := trivial
  lambda _ _ _ _ _ _ _ _ _ := trivial
  define _ _ _ _ name hcode hhead htail htarget _ _ _ _ hE hbind :=
    hE.bind (hcode name (.here hhead htail htarget)) hbind
  applied _ eval place lambda args _ _ _ _ := by
    intro env henv
    rw [applyLambda_env]
    refine ⟨henv, ?_⟩
    cases ((applyLambda eval place lambda args).outcome env).1 <;> trivial

/-- With any number of evaluations left, an expression extends the environment by what it
visibly defines. -/
theorem evalWithin_extends (limit depth : Nat) (e : Expr) (env : Environment) :
    Extends (Defines · e) env ((evalWithin limit depth e).outcome env).2 := by
  have h := (extension limit (Defines · e) env).evalWithin depth e fun _ hname => hname
  exact (h env (.refl env)).1

/-- **Evaluation changes the environment at the names it visibly defines.**  They were
neither forms nor constants nor procedures before, and are bound afterwards; no name is
lost, no procedure replaced, and what a called lambda defines stays inside. -/
theorem evaluation_changes_visible_definitions_only (limit : Nat) (e : Expr)
    (env : Environment) :
    (∀ name, (evaluate limit e env).2.find? name ≠ env.find? name →
      (∃ v, (evaluate limit e env).2.find? name = some (.binding v))
      ∧ (SpecialForm.ofName? name = none ∧ name ∉ ["pi", "e", "I"]
          ∧ ∀ procedure, env.find? name ≠ some (.procedure procedure))
      ∧ Defines name e)
    ∧ (∀ name, env.isKnown name = true → (evaluate limit e env).2.isKnown name = true)
    ∧ (∀ name procedure, env.find? name = some (.procedure procedure) →
        (evaluate limit e env).2.find? name = some (.procedure procedure))
    ∧ ∀ (depth : Nat) (place : String) (callable : Callable) (args : List Expr),
        ((call (evalWithin limit depth) place callable args).outcome env).2 = env := by
  have h : Extends (Defines · e) env (evaluate limit e env).2 :=
    evalWithin_extends limit limit e env
  refine ⟨fun name hname => ?_, fun name => h.isKnown, fun name procedure => h.procedure,
    fun depth place callable args => call_env _ place callable args env⟩
  obtain ⟨hbound, hfree, hdefines⟩ := h name hname
  exact ⟨hbound, Environment.free_of_isReserved hfree, hdefines⟩

end PlotLisp
