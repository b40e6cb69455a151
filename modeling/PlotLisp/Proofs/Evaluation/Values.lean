/-
  PlotLisp.Proofs.Evaluation.Values
  ──────────────────────────────────────
  **EVALUATION YIELDS VALUES.**

  Code and values are trees of one type.  What tells values apart is an
  invariant of every run:

    • `ValueOver Body e` — `e` is a literal, a list of values or a lambda with
      bare parameter names, and its properties are values; `Body` says what
      lambda bodies are;
    • `plainValues` — in a run, all values are values over plain bodies;
    • a lambda that is a value has parameter names, so a call of one never
      misses them.
-/
import PlotLisp.Proofs.Evaluation.Programs

namespace PlotLisp

open EvalM Evaluation

/-! ## §1. Values. -/

/-- A value whose lambdas have bodies in `Body`. -/
inductive ValueOver (Body : Expr → Prop) : Expr → Prop where
  /-- Nothing, a number, a complex number or a string. -/
  | leaf {head : Atom} {props : List (String × Expr)} : head.symbol? = none →
      (∀ p ∈ props, ValueOver Body p.2) → ValueOver Body (.node head [] props)
  /-- A list of values. -/
  | list {items : List Expr} {props : List (String × Expr)} : (∀ v ∈ items, ValueOver Body v) →
      (∀ p ∈ props, ValueOver Body p.2) →
      ValueOver Body (.node (.symbol "list") items props)
  /-- Bare symbols in a list, and a body. -/
  | lambda {params : List Expr} {body : Expr} {paramsProps props : List (String × Expr)} :
      (∀ p ∈ params, p.symbol?.isSome = true) → Body body →
      (∀ p ∈ props, ValueOver Body p.2) →
      ValueOver Body
        (.node (.symbol "lambda") [.node (.symbol "list") params paramsProps, body] props)

/-- A value, whatever the bodies of its lambdas. -/
abbrev IsValue : Expr → Prop := ValueOver fun _ => True

/-- Bare symbols have names. -/
theorem Expr.exists_names {params : List Expr} (h : ∀ p ∈ params, p.symbol?.isSome = true) :
    ∃ names, params.mapM symbol? = some names := by
  induction params with
  | nil => exact ⟨[], rfl⟩
  | cons p rest ih =>
    obtain ⟨hp, hrest⟩ := List.forall_mem_cons.mp h
    obtain ⟨name, hname⟩ := Option.isSome_iff_exists.mp hp
    obtain ⟨names, hnames⟩ := ih hrest
    refine ⟨name :: names, ?_⟩
    rw [List.mapM_cons, hname, hnames]
    rfl

/-- What is looked up is in the list. -/
theorem mem_of_lookup {α : Type} {key : String} {v : α} {pairs : List (String × α)}
    (h : pairs.lookup key = some v) : (key, v) ∈ pairs := by
  obtain ⟨l, l', rfl, -⟩ := List.lookup_eq_some_iff.mp h
  simp

namespace ValueOver

variable {Body : Expr → Prop}

/-- Values over fewer bodies are values over more. -/
theorem mono {Body' : Expr → Prop} (hBody : ∀ e, Body e → Body' e) {v : Expr}
    (h : ValueOver Body v) : ValueOver Body' v := by
  induction h with
  | leaf hhead _ ih => exact .leaf hhead ih
  | list _ _ ih ih' => exact .list ih ih'
  | lambda hparams hbody _ ih => exact .lambda hparams (hBody _ hbody) ih

theorem props {v : Expr} (h : ValueOver Body v) : ∀ p ∈ v.props, ValueOver Body p.2 := by
  cases h with
  | leaf _ hp => exact hp
  | list _ hp => exact hp
  | lambda _ _ hp => exact hp

/-- Other properties make no other kind of value. -/
theorem withProps {head : Atom} {tail : List Expr} {props props' : List (String × Expr)}
    (h : ValueOver Body (.node head tail props)) (hp : ∀ p ∈ props', ValueOver Body p.2) :
    ValueOver Body (.node head tail props') := by
  cases h with
  | leaf hhead _ => exact .leaf hhead hp
  | list hitems _ => exact .list hitems hp
  | lambda hparams hbody _ => exact .lambda hparams hbody hp

theorem items {v : Expr} (h : ValueOver Body v) (hl : v.isList = true) :
    ∀ c ∈ v.tail, ValueOver Body c := by
  cases h with
  | leaf hhead _ => exact fun c hc => absurd hc List.not_mem_nil
  | list hitems _ => exact hitems
  | lambda _ _ _ => cases hl

theorem closed : ClosedValues (ValueOver Body) where
  atom _ ha := .leaf ha fun _ hp => absurd hp List.not_mem_nil
  list _ hitems := .list hitems fun _ hp => absurd hp List.not_mem_nil
  item _ hv hl := hv.items hl
  setProp v key value hv hvalue := by
    obtain ⟨head, tail, props⟩ := v
    exact hv.withProps (Expr.forall_mem_insertProp hvalue hv.props)
  prop v key value hv hprop := hv.props _ (mem_of_lookup hprop)

/-- **A lambda that is a value has parameter names.** -/
theorem lambdaParts {v : Expr} (h : ValueOver Body v) (hl : v.isLambda = true) :
    ∃ names body, v.lambdaParts? = some (names, body) ∧ Body body := by
  cases h with
  | leaf _ _ => simp [Expr.isLambda] at hl
  | list _ _ =>
    unfold Expr.isLambda at hl
    split at hl
    · rename_i heq
      cases heq
      simp [Expr.lambdaName] at hl
    · cases hl
  | @lambda params body _ _ hparams hbody _ =>
    obtain ⟨names, hnames⟩ := Expr.exists_names hparams
    refine ⟨names, body, ?_, hbody⟩
    unfold Expr.lambdaParts?
    show (if _ then (params.mapM Expr.symbol?).map _ else none) = _
    rw [if_pos hl, hnames]
    rfl

/-- At the head of a value stands no symbol but `list` and, over a lambda, `lambda`. -/
theorem headSymbol {v : Expr} (h : ValueOver Body v) {name : String}
    (hname : v.headSymbol? = some name) : name = "list" ∨ name = "lambda" ∧ v.isLambda = true := by
  cases h with
  | leaf hhead _ => cases hhead.symm.trans hname
  | list _ _ => exact Or.inl (Option.some.inj hname).symm
  | lambda _ _ _ => exact Or.inr ⟨(Option.some.inj hname).symm, rfl⟩

end ValueOver

/-! ## §2. Environments of values. -/

/-- Every binding is a value. -/
def BindsValues (Body : Expr → Prop) (env : Environment) : Prop :=
  ∀ name v, env.find? name = some (.binding v) → ValueOver Body v

namespace BindsValues

variable {Body : Expr → Prop} {env : Environment}

theorem bind (h : BindsValues Body env) {name : String} {v : Expr} (hv : ValueOver Body v)
    {after : Environment} (hbind : env.bind name v = .ok after) : BindsValues Body after :=
  Environment.forall_bound_of_bind h hv hbind

theorem bindAll (h : BindsValues Body env) {pairs : List (String × Expr)}
    (hpairs : ∀ p ∈ pairs, ValueOver Body p.2) :
    EndsWith (BindsValues Body) Fault.Ordinary (env.bindAll pairs) := by
  induction pairs generalizing env with
  | nil => exact h
  | cons first rest ih =>
    obtain ⟨name, v⟩ := first
    obtain ⟨hv, hrest⟩ := List.forall_mem_cons.mp hpairs
    unfold Environment.bindAll
    cases hbind : env.bind name v with
    | ok bound => exact ih (h.bind hv hbind) hrest
    | error fault =>
      rw [Environment.bind_eq_error hbind]
      exact .atRuntime trivial

theorem standard : BindsValues Body .standard := by
  intro name v hfind
  have hmem := mem_of_lookup hfind
  unfold Environment.standard at hmem
  rcases List.mem_append.mp hmem with hmem | hmem
  · -- a constant
    obtain ⟨⟨n, c⟩, hc, heq⟩ := List.mem_map.mp hmem
    cases heq
    simp only [Environment.constants, List.mem_cons, List.not_mem_nil, or_false] at hc
    rcases hc with hc | hc | hc
    · cases hc
      exact ValueOver.closed.atom _ rfl
    · cases hc
      exact ValueOver.closed.atom _ rfl
    · cases hc
      exact ValueOver.closed.atom _ rfl
  · -- a procedure is no binding
    obtain ⟨procedure, -, heq⟩ := List.mem_map.mp hmem
    cases heq

end BindsValues

/-! ## §3. Evaluation. -/

/-- A lambda is built over bare names, whatever they were written as. -/
theorem ValueOver.ofNames {Body : Expr → Prop} (names : List String) {body : Expr}
    (hbody : Body body) : ValueOver Body (.lambda names body) := by
  have hbare : ∀ p ∈ names.map Expr.symbol, p.symbol?.isSome = true := by
    intro p hp
    obtain ⟨name, -, rfl⟩ := List.mem_map.mp hp
    rfl
  exact .lambda hbare hbody fun _ hp => absurd hp List.not_mem_nil

/-- A call of a lambda that is a value keeps to values, if the evaluation of its body
does. -/
theorem applyLambda_keeps {Body : Expr → Prop} {Q : Fault → Prop}
    (hQ : ∀ f : Fault, f.Ordinary → Q f) {eval : Expr → EvalM Expr}
    (heval : ∀ e, Body e → Keeps (BindsValues Body) Q (ValueOver Body) (eval e)) (place : String)
    {lambda : Expr} (hv : ValueOver Body lambda) (hl : lambda.isLambda = true)
    {args : List Expr} (hargs : ∀ v ∈ args, ValueOver Body v) :
    Keeps (BindsValues Body) Q (ValueOver Body) (applyLambda eval place lambda args) := by
  obtain ⟨names, body, hparts, hbody⟩ := hv.lambdaParts hl
  unfold applyLambda
  simp only [hparts]
  split
  · refine Keeps.get.bind ?_
    intro E hE
    -- the parameters are bound in a copy of the environment of the call
    have hpairs : ∀ p ∈ names.zip args, ValueOver Body p.2 := by
      intro p hp
      exact hargs p.2 (List.of_mem_zip hp).2
    refine (Keeps.settle ((hE.bindAll hpairs).monoFault hQ)).bind ?_
    intro inner hinner
    exact Keeps.inside hinner (heval body hbody)
  · exact Keeps.throw (hQ _ (.atRuntime trivial))

/-- Plain code gives values over plain bodies, and never misses parameter names. -/
def plainValues (limit : Nat) : Invariant limit where
  env := BindsValues Plain
  code _ := Plain
  value := ValueOver Plain
  fault f := ∀ place actual, f.cause ≠ .mismatch place lambdaWanted actual
  values := ValueOver.closed
  ordinary _ hf := hf.ne_lambdaWanted
  cutOff _ _ _ _ h := by cases h
  part _ _ hcode _ _ hc := hcode.of_mem_tail hc
  literal _ e hcode hleaf hhead := by
    cases hcode with
    | @node head tail _ =>
      cases tail with
      | nil => exact .leaf hhead fun _ hp => absurd hp List.not_mem_nil
      | cons c rest => cases hleaf
  binding _ name v hE hfind := hE name v hfind
  lambda _ e params body names hcode _ htail _ := by
    refine ValueOver.ofNames names (hcode.of_mem_tail ?_)
    rw [htail]
    simp
  define _ _ _ _ _ _ _ _ _ _ _ _ hv hE hbind := hE.bind hv hbind
  applied _ eval place lambda args heval hv hl hargs := by
    exact applyLambda_keeps (fun _ hf => hf.ne_lambdaWanted) heval place hv hl hargs

/-- After any programs, whatever became of them, all bindings are values over plain
bodies. -/
theorem bindsValues_afterInputs (limit : Nat) (texts : List String) :
    BindsValues Plain ((Interpreter.fresh limit).afterInputs texts).env := by
  have hstep (interp : Interpreter) (text : String) (h : BindsValues Plain interp.env) :
      BindsValues Plain (interp.runInput text).2.env :=
    (interp.runInput_keeps (plainValues interp.limit) (fun _ he => he) h text).1
  exact Interpreter.afterInputs_keeps (I := fun interp => BindsValues Plain interp.env) hstep
    BindsValues.standard texts

/-- **Evaluation yields values.**  After any programs, whatever became of them, all
bindings are values, and so is the result of the next program: no bare symbol, no
unevaluated call, and no lambda without parameter names.  So no program fails for such
a lambda. -/
theorem programs_yield_values (limit : Nat) (texts : List String) (text : String) :
    (∀ v, (∃ name, ((Interpreter.fresh limit).afterInputs texts).env.find? name
            = some (.binding v))
          ∨ (((Interpreter.fresh limit).afterInputs texts).runInput text).1 = .ok v →
        IsValue v
        ∧ (∀ name, v.headSymbol? = some name →
            name = "list" ∨ name = "lambda" ∧ v.isLambda = true)
        ∧ (v.isLambda = true → ∃ names body, v.lambdaParts? = some (names, body)))
    ∧ ∀ d, (((Interpreter.fresh limit).afterInputs texts).runInput text).1 = .error d →
        ∀ place actual, d.cause ≠ .mismatch place "a lambda" actual := by
  have henv := bindsValues_afterInputs limit texts
  obtain ⟨-, hvalue, hfault⟩ := Interpreter.runInput_keeps
    (plainValues ((Interpreter.fresh limit).afterInputs texts).limit) (fun _ he => he) henv text
  refine ⟨?_, ?_⟩
  · intro v hv
    have hplain : ValueOver Plain v := by
      rcases hv with ⟨name, hname⟩ | hv
      · exact henv name v hname
      · exact hvalue v hv
    refine ⟨hplain.mono fun _ _ => trivial, fun name => hplain.headSymbol, ?_⟩
    intro hl
    obtain ⟨names, body, hparts, -⟩ := hplain.lambdaParts hl
    exact ⟨names, body, hparts⟩
  · intro d hd place actual hcause
    rcases hfault d hd with ⟨detail, hmalformed⟩ | ⟨f, hf, rfl⟩
    · cases hmalformed.symm.trans hcause
    · exact hf place actual (f.cause_withSource _ ▸ hcause)

end PlotLisp
