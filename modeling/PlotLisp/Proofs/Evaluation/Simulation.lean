/-
  PlotLisp.Proofs.Evaluation.Simulation
  ──────────────────────────────────────
  **SIMULATIONS OF EVALUATION.**

  A simulation says which pairs of environments an expression cannot tell
  apart.  The conditions of `Simulation` are about one name or one node each:

    • the names that code and lambdas use mean the same in both environments,
      and go on doing so when one of them is bound;
    • code hands its parts on; literals, bound values and new lambdas are
      values, and the values are closed under procedures.

  `Simulation.step` — if two evaluators of sub-expressions end alike, so do the
  steps made of them.
-/
import PlotLisp.Proofs.Evaluation.Invariant
import PlotLisp.Proofs.Evaluation.SideBySide

namespace PlotLisp

open EvalM Evaluation

/-! ## §1. Simulations. -/

/-- What two evaluations of the same code cannot tell apart. -/
structure Simulation where
  /-- The pairs of environments. -/
  envs : Environment → Environment → Prop
  /-- The names that are looked up and bound. -/
  name : String → Prop
  /-- What is evaluated. -/
  code : Expr → Prop
  /-- What evaluation gives. -/
  value : Expr → Prop
  /-- How the first evaluation alone may fail. -/
  cut : Fault → Prop
  values : ClosedValues value
  find : ∀ {E E' : Environment} {x : String}, envs E E' → name x → E.find? x = E'.find? x
  put : ∀ {E E' : Environment} {x : String} {v : Expr}, envs E E' → name x → value v →
    envs (E.put x (.binding v)) (E'.put x (.binding v))
  binding : ∀ {E E' : Environment} {x : String} {v : Expr}, envs E E' → name x →
    E.find? x = some (.binding v) → value v
  head : ∀ {e : Expr} {x : String}, code e → e.headSymbol? = some x → name x
  part : ∀ {e c : Expr}, code e → c ∈ e.tail → code c
  literal : ∀ {e : Expr}, code e → e.isLeaf = true → e.headSymbol? = none → value e
  lambda : ∀ {names : List String} {body : Expr}, (∀ x ∈ names, name x) → code body →
    value (.lambda names body)
  lambdaParts : ∀ {v body : Expr} {names : List String}, value v →
    v.lambdaParts? = some (names, body) → (∀ x ∈ names, name x) ∧ code body

/-- A bare symbol is its own head. -/
theorem Expr.headSymbol?_of_symbol? {e : Expr} {name : String} (h : e.symbol? = some name) :
    e.headSymbol? = some name := by
  unfold symbol? at h
  split at h
  · exact h
  · cases h

/-- A head that is a symbol is looked up under its name. -/
theorem Expr.headSymbol?_of_head {e : Expr} {name : String} (h : e.head = .symbol name) :
    e.headSymbol? = some name := by
  unfold headSymbol?
  rw [h]
  rfl

namespace Simulation

variable (sim : Simulation) {α : Type} {P : α → Prop}

/-- The evaluations end alike, with something in `P` if they give anything. -/
abbrev Tracks (P : α → Prop) (action other : EvalM α) : Prop :=
  EvalM.Tracks sim.envs sim.cut P action other

/-- Evaluators that end alike on code. -/
def Simulates (eval eval' : Expr → EvalM Expr) : Prop :=
  ∀ e, sim.code e → sim.Tracks sim.value (eval e) (eval' e)

/-- What may be called: a procedure, or a value. -/
def callable : Callable → Prop
  | .procedure _ => True
  | .lambda v => sim.value v

/-- A result that is settled does not look at the environment. -/
theorem settle {Q : Fault → Prop} {r : Except Fault α} (h : EndsWith P Q r) :
    sim.Tracks P (settle r) (settle r) :=
  Tracks.settle (h.monoFault fun _ _ => trivial)

variable {sim} {E E' : Environment} {eval eval' : Expr → EvalM Expr}

/-! ## §2. Environments. -/

/-- A name is reserved in both environments or in neither. -/
theorem isReserved_eq {x : String} (hE : sim.envs E E') (hx : sim.name x) :
    E.isReserved x = E'.isReserved x := by
  unfold Environment.isReserved Environment.isProcedure Environment.procedure?
  rw [sim.find hE hx]

/-- Binding a name fails in both environments, or in neither. -/
theorem bind_cases {x : String} {v : Expr} (hE : sim.envs E E') (hx : sim.name x)
    (hv : sim.value v) :
    (∃ fault, E.bind x v = .error fault ∧ E'.bind x v = .error fault)
    ∨ ∃ after after', E.bind x v = .ok after ∧ E'.bind x v = .ok after'
        ∧ sim.envs after after' := by
  unfold Environment.bind
  rw [isReserved_eq hE hx]
  by_cases hreserved : E'.isReserved x = true
  · rw [if_pos hreserved, if_pos hreserved]
    exact Or.inl ⟨_, rfl, rfl⟩
  · rw [if_neg hreserved, if_neg hreserved]
    exact Or.inr ⟨_, _, rfl, rfl, sim.put hE hx hv⟩

/-- So does binding one name after the other. -/
theorem bindAll_cases {pairs : List (String × Expr)} (hE : sim.envs E E')
    (hpairs : ∀ p ∈ pairs, sim.name p.1 ∧ sim.value p.2) :
    (∃ fault, E.bindAll pairs = .error fault ∧ E'.bindAll pairs = .error fault)
    ∨ ∃ after after', E.bindAll pairs = .ok after ∧ E'.bindAll pairs = .ok after'
        ∧ sim.envs after after' := by
  induction pairs generalizing E E' with
  | nil => exact Or.inr ⟨E, E', rfl, rfl, hE⟩
  | cons first rest ih =>
    obtain ⟨x, v⟩ := first
    obtain ⟨⟨hx, hv⟩, hrest⟩ := List.forall_mem_cons.mp hpairs
    unfold Environment.bindAll
    rcases bind_cases hE hx hv with ⟨fault, h, h'⟩ | ⟨after, after', h, h', hafter⟩
    · rw [h, h']
      exact Or.inl ⟨fault, rfl, rfl⟩
    · rw [h, h']
      exact ih hafter hrest

/-- Binding leaves environments that are still not told apart. -/
theorem bindName {x : String} {v : Expr} (hx : sim.name x) (hv : sim.value v) :
    sim.Tracks (fun _ => True) (bindName x v) (bindName x v) := by
  intro E E' hE
  rw [outcome_bindName, outcome_bindName]
  rcases bind_cases hE hx hv with ⟨fault, h, h'⟩ | ⟨after, after', h, h', hafter⟩
  · rw [h, h']
    exact .fault hE
  · rw [h, h']
    exact .value trivial hafter

/-! ## §3. Calls. -/

/-- A body is evaluated where its parameters mean the same, and the scopes that are left are those
of the callers. -/
theorem applyLambda (heval : sim.Simulates eval eval') (place : String) {v : Expr}
    (hv : sim.value v) {args : List Expr} (hargs : ∀ a ∈ args, sim.value a) :
    sim.Tracks sim.value (applyLambda eval place v args) (applyLambda eval' place v args) := by
  unfold Evaluation.applyLambda
  cases hparts : v.lambdaParts? with
  | none => exact Tracks.throw
  | some parts =>
    obtain ⟨names, body⟩ := parts
    obtain ⟨hnames, hbody⟩ := sim.lambdaParts hv hparts
    by_cases hlength : names.length = args.length
    · simp only [if_pos hlength]
      refine Tracks.get_bind ?_
      intro E E' hE
      have hpairs : ∀ p ∈ names.zip args, sim.name p.1 ∧ sim.value p.2 := by
        intro p hp
        have hmem := List.of_mem_zip hp
        exact ⟨hnames p.1 hmem.1, hargs p.2 hmem.2⟩
      -- the parameters are bound in copies of the two environments
      rcases bindAll_cases hE hpairs with ⟨fault, h, h'⟩ | ⟨inner, inner', h, h', hinner⟩
      · rw [h, h']
        exact Tracks.throw
      · rw [h, h']
        exact Tracks.inside hinner (heval body hbody)
    · simp only [if_neg hlength]
      exact Tracks.throw

theorem call (heval : sim.Simulates eval eval') (form : String) {callable : Callable}
    (hcallable : sim.callable callable) {args : List Expr} (hargs : ∀ a ∈ args, sim.value a) :
    sim.Tracks sim.value (call eval form callable args) (call eval' form callable args) := by
  cases callable with
  | procedure procedure => exact sim.settle (sim.values.run procedure hargs)
  | lambda v => exact applyLambda heval form hcallable hargs

/-- A name is called for what it means in both environments, or refused in both. -/
theorem resolve (form : String) {e : Expr} (hcode : sim.code e) :
    sim.Tracks sim.callable (resolve form e) (resolve form e) := by
  unfold Evaluation.resolve
  cases hsymbol : e.symbol? with
  | none => exact Tracks.throw
  | some x =>
    have hx : sim.name x := sim.head hcode (Expr.headSymbol?_of_symbol? hsymbol)
    refine Tracks.get_bind ?_
    intro E E' hE
    rw [← sim.find hE hx]
    split
    · exact Tracks.pure trivial
    · rename_i v hfound
      split
      · exact Tracks.pure (sim.binding hE hx hfound)
      · exact Tracks.throw
    · exact Tracks.throw

/-- A leaf stands for itself, or is a name that means the same in both environments. -/
theorem evalLeaf {e : Expr} (hcode : sim.code e) (hleaf : e.isLeaf = true) :
    sim.Tracks sim.value (evalLeaf e) (evalLeaf e) := by
  unfold Evaluation.evalLeaf
  split
  · rename_i x hhead
    have hx : sim.name x := sim.head hcode (Expr.headSymbol?_of_head hhead)
    refine Tracks.get_bind ?_
    intro E E' hE
    rw [← sim.find hE hx]
    split
    · rename_i v hfound
      exact Tracks.pure (sim.binding hE hx hfound)
    · -- a procedure is called without arguments
      rename_i procedure _
      exact sim.settle (sim.values.run procedure (List.forall_mem_nil _))
    · split
      · exact Tracks.throw
      · exact Tracks.throw
  · rename_i hhead
    refine Tracks.pure (sim.literal hcode hleaf ?_)
    show e.head.symbol? = none
    cases h : e.head with
    | symbol x => exact absurd h (hhead x)
    | _ => rfl

theorem evalAll {args : List Expr}
    (hargs : ∀ c ∈ args, sim.Tracks sim.value (eval c) (eval' c)) :
    sim.Tracks (fun vs => ∀ v ∈ vs, sim.value v) (evalAll eval args) (evalAll eval' args) :=
  Tracks.mapM hargs

/-- The head is looked up first, then the arguments are evaluated from left to right. -/
theorem evalCall (heval : sim.Simulates eval eval') {e : Expr} (hcode : sim.code e) :
    sim.Tracks sim.value (evalCall eval e) (evalCall eval' e) := by
  have hargs := evalAll fun c hc => heval c (sim.part hcode hc)
  unfold Evaluation.evalCall
  cases hhead : e.headSymbol? with
  | none => exact Tracks.throw
  | some x =>
    have hx : sim.name x := sim.head hcode hhead
    refine Tracks.get_bind ?_
    intro E E' hE
    rw [← sim.find hE hx]
    cases hfound : E.find? x with
    | none => exact Tracks.throw
    | some entry =>
      cases entry with
      | procedure procedure =>
        exact hargs.bind fun args hargs => sim.settle (sim.values.run procedure hargs)
      | binding v =>
        by_cases hlambda : v.isLambda = true
        · simp only [if_pos hlambda]
          refine hargs.bind ?_
          intro args hargs
          exact applyLambda heval x (sim.binding hE hx hfound) hargs
        · simp only [if_neg hlambda]
          exact Tracks.throw

/-! ## §4. Forms that bind, build and sequence. -/

/-- The parts are evaluated one after another, and all values but the last are dropped. -/
theorem evalBegin {parts : List Expr}
    (hparts : ∀ c ∈ parts, sim.Tracks sim.value (eval c) (eval' c)) :
    sim.Tracks sim.value (evalBegin eval parts) (evalBegin eval' parts) := by
  induction parts with
  | nil => exact Tracks.throw
  | cons e rest ih =>
    obtain ⟨he, hrest⟩ := List.forall_mem_cons.mp hparts
    cases rest with
    | nil => exact he
    | cons e' rest => exact he.bind fun _ _ => ih hrest

/-- The name is checked before the body is evaluated, and bound after that. -/
theorem evalDefine {parts : List Expr} (hcode : ∀ c ∈ parts, sim.code c)
    (hparts : ∀ c ∈ parts, sim.Tracks sim.value (eval c) (eval' c)) :
    sim.Tracks sim.value (evalDefine eval parts) (evalDefine eval' parts) := by
  match parts with
  | [target, e] =>
    simp only [Evaluation.evalDefine]
    cases hsymbol : target.symbol? with
    | none => exact Tracks.throw
    | some x =>
      have htarget : sim.code target := hcode target (by simp)
      have hx : sim.name x := sim.head htarget (Expr.headSymbol?_of_symbol? hsymbol)
      refine Tracks.get_bind ?_
      intro E E' hE
      -- the name is checked before the value is known, and again when it is bound
      have hcheck : E.checkBindable x = E'.checkBindable x := by
        unfold Environment.checkBindable
        rw [isReserved_eq hE hx]
      rw [hcheck]
      have hany : EndsWith (fun _ => True) (fun _ => True) (E'.checkBindable x) := by
        cases E'.checkBindable x <;> trivial
      refine (sim.settle hany).bind ?_
      intro _ _
      refine (hparts e (by simp)).bind ?_
      intro v hv
      exact (bindName hx hv).bind fun _ _ => Tracks.pure hv
  | [] | [_] | _ :: _ :: _ :: _ => exact Tracks.throw

/-- The parameters of a lambda are symbols of its text. -/
theorem parameters_names {e : Expr} (hcode : sim.code e) :
    EndsWith (fun names => ∀ x ∈ names, sim.name x) (fun _ => True) (parameters e) := by
  have hatom {e : Expr} (he : sim.code e) :
      EndsWith sim.name (fun _ => True) (parameterOfAtom e.head) := by
    cases hhead : e.head with
    | symbol x => exact sim.head he (Expr.headSymbol?_of_head hhead)
    | _ => trivial
  have hleaf : ∀ c ∈ e.tail, EndsWith sim.name (fun _ => True) (parameterOfLeaf c) := by
    intro c hc
    unfold parameterOfLeaf
    split
    · exact hatom (sim.part hcode hc)
    · trivial
  unfold parameters
  split
  · exact EndsWith.mapM hleaf
  · refine (hatom hcode).bind ?_
    intro first hfirst
    refine (EndsWith.mapM hleaf).bind ?_
    intro rest hrest
    exact List.forall_mem_cons.mpr ⟨hfirst, hrest⟩

/-- Making a lambda looks at the parameters and not at the environment. -/
theorem evalLambda {parts : List Expr} (hcode : ∀ c ∈ parts, sim.code c) :
    sim.Tracks sim.value (evalLambda parts) (evalLambda parts) := by
  match parts with
  | [params, body] =>
    unfold Evaluation.evalLambda
    refine (sim.settle (parameters_names (hcode params (by simp)))).bind ?_
    intro names hnames
    exact Tracks.pure (sim.lambda hnames (hcode body (by simp)))
  | [] | [_] | _ :: _ :: _ :: _ => exact Tracks.throw

/-! ## §5. Forms that call. -/

/-- The value of the operand is the list of arguments of one call. -/
theorem evalApply (heval : sim.Simulates eval eval') {parts : List Expr}
    (hcode : ∀ c ∈ parts, sim.code c) :
    sim.Tracks sim.value (evalApply eval parts) (evalApply eval' parts) := by
  match parts with
  | [target, e] =>
    unfold Evaluation.evalApply
    refine (resolve _ (hcode target (by simp))).bind ?_
    intro callable hcallable
    refine (heval e (hcode e (by simp))).bind ?_
    intro args hargs
    by_cases hlist : args.isList = true
    · simp only [if_pos hlist]
      exact call heval _ hcallable (sim.values.item args hargs hlist)
    · simp only [if_neg hlist]
      exact Tracks.throw
  | [] | [_] | _ :: _ :: _ :: _ => exact Tracks.throw

/-- Each element of the list is the argument of one call, from left to right. -/
theorem evalMap (heval : sim.Simulates eval eval') {parts : List Expr}
    (hcode : ∀ c ∈ parts, sim.code c) :
    sim.Tracks sim.value (evalMap eval parts) (evalMap eval' parts) := by
  match parts with
  | [target, e] =>
    unfold Evaluation.evalMap
    refine (resolve _ (hcode target (by simp))).bind ?_
    intro callable hcallable
    refine (heval e (hcode e (by simp))).bind ?_
    intro items hitems
    by_cases hlist : items.isList = true
    · simp only [if_pos hlist]
      have hcalls : ∀ item ∈ items.tail, sim.Tracks sim.value
          (Evaluation.call eval SpecialForm.map.name callable [item])
          (Evaluation.call eval' SpecialForm.map.name callable [item]) := by
        intro item hitem
        have hvalue := sim.values.item items hitems hlist item hitem
        exact call heval _ hcallable (List.forall_mem_singleton.mpr hvalue)
      exact (Tracks.mapM hcalls).bind fun results hresults =>
        Tracks.pure (sim.values.list results hresults)
    · simp only [if_neg hlist]
      exact Tracks.throw
  | [] | [_] | _ :: _ :: _ :: _ => exact Tracks.throw

/-! ## §6. Properties. -/

theorem literalKey (form : String) (e : Expr) :
    sim.Tracks (fun _ => True) (literalKey form e) (literalKey form e) := by
  unfold Evaluation.literalKey
  split
  · exact Tracks.pure trivial
  · exact Tracks.throw

/-- The key is as it is written; the target comes back with one more property. -/
theorem evalSetProperty {parts : List Expr}
    (hparts : ∀ c ∈ parts, sim.Tracks sim.value (eval c) (eval' c)) :
    sim.Tracks sim.value (evalSetProperty eval parts) (evalSetProperty eval' parts) := by
  match parts with
  | [key, e, e'] =>
    unfold Evaluation.evalSetProperty
    refine (literalKey _ key).bind ?_
    intro key _
    refine (hparts e (by simp)).bind ?_
    intro value hvalue
    refine (hparts e' (by simp)).bind ?_
    intro target htarget
    exact Tracks.pure (sim.values.setProp target key value htarget hvalue)
  | [] | [_] | [_, _] | _ :: _ :: _ :: _ :: _ => exact Tracks.throw

/-- A property of a value is a value. -/
theorem evalGetProperty {parts : List Expr}
    (hparts : ∀ c ∈ parts, sim.Tracks sim.value (eval c) (eval' c)) :
    sim.Tracks sim.value (evalGetProperty eval parts) (evalGetProperty eval' parts) := by
  match parts with
  | [key, e] =>
    unfold Evaluation.evalGetProperty
    refine (literalKey _ key).bind ?_
    intro key _
    refine (hparts e (by simp)).bind ?_
    intro target htarget
    exact Tracks.pure (sim.values.propertyOf htarget key)
  | [] | [_] | _ :: _ :: _ :: _ => exact Tracks.throw

/-! ## §7. Plots. -/

/-- Options that are not given are the defaults. -/
theorem evalOptions {options : Option Expr}
    (hoptions : ∀ e ∈ options, sim.Tracks sim.value (eval e) (eval' e)) :
    sim.Tracks (fun _ => True) (evalOptions eval options) (evalOptions eval' options) := by
  cases options with
  | none => exact Tracks.pure trivial
  | some e => exact (hoptions e rfl).bind fun v _ => sim.settle (PlotOptions.ofExpr_ends v)

/-- The data are evaluated before the options. -/
theorem plotData {data : Expr} {options : Option Expr}
    (hdata : sim.Tracks sim.value (eval data) (eval' data))
    (hoptions : ∀ e ∈ options, sim.Tracks sim.value (eval e) (eval' e)) :
    sim.Tracks sim.value (plotData eval data options) (plotData eval' data options) := by
  unfold Evaluation.plotData
  refine hdata.bind ?_
  intro data _
  refine (evalOptions hoptions).bind ?_
  intro options _
  refine (sim.settle (readSamples_ends _ data)).bind ?_
  intro samples _
  exact sim.settle (sim.values.plotOf .discrete options samples)

/-- What is to be plotted is resolved by its name, or evaluated to a lambda. -/
theorem plottedFunction (heval : sim.Simulates eval eval') {function : Expr}
    (hcode : sim.code function) :
    sim.Tracks sim.callable (plottedFunction eval function) (plottedFunction eval' function) := by
  unfold Evaluation.plottedFunction
  by_cases hsymbol : function.symbol?.isSome = true
  · simp only [if_pos hsymbol]
    exact resolve _ hcode
  · -- a function that has no name is evaluated to a lambda
    simp only [if_neg hsymbol]
    refine (heval function hcode).bind ?_
    intro v hv
    split
    · exact Tracks.pure hv
    · exact Tracks.throw

/-- A sample is one call with one number, and only a number is taken back. -/
theorem sampleAt (heval : sim.Simulates eval eval') {function : Callable}
    (hfunction : sim.callable function) (x : Float) :
    sim.Tracks (fun _ => True) (sampleAt eval function x) (sampleAt eval' function x) := by
  unfold Evaluation.sampleAt
  have hargs : ∀ v ∈ [Expr.number x], sim.value v :=
    List.forall_mem_singleton.mpr (sim.values.atom (.number x) rfl)
  refine (call heval _ hfunction hargs).bind ?_
  intro y _
  split
  · exact Tracks.pure trivial
  · exact Tracks.throw

/-- Function, range and options are evaluated before the first sample is taken. -/
theorem plotFunction (heval : sim.Simulates eval eval') {function range : Expr}
    {options : Option Expr} (hfunction : sim.code function) (hrange : sim.code range)
    (hoptions : ∀ e ∈ options, sim.Tracks sim.value (eval e) (eval' e)) :
    sim.Tracks sim.value (plotFunction eval function range options)
      (plotFunction eval' function range options) := by
  unfold Evaluation.plotFunction
  refine (plottedFunction heval hfunction).bind ?_
  intro callable hcallable
  refine (heval range hrange).bind ?_
  intro range _
  refine (sim.settle (readRange_ends range)).bind ?_
  intro bounds _
  refine (evalOptions hoptions).bind ?_
  intro options _
  have hsamples : ∀ x ∈ abscissas bounds.1 bounds.2, sim.Tracks (fun _ => True)
      (Evaluation.sampleAt eval callable x) (Evaluation.sampleAt eval' callable x) :=
    fun x _ => sampleAt heval hcallable x
  refine (Tracks.mapM hsamples).bind ?_
  intro samples _
  exact sim.settle (sim.values.plotOf .continuous options samples)

theorem evalDiscretePlot {parts : List Expr}
    (hparts : ∀ c ∈ parts, sim.Tracks sim.value (eval c) (eval' c)) :
    sim.Tracks sim.value (evalDiscretePlot eval parts) (evalDiscretePlot eval' parts) := by
  match parts with
  | [data] => exact plotData (hparts data (by simp)) (by simp)
  | [data, options] =>
    refine plotData (hparts data (by simp)) ?_
    intro e he
    obtain rfl := Option.some.inj he
    exact hparts options (by simp)
  | [] | _ :: _ :: _ :: _ => exact Tracks.throw

theorem evalContinuousPlot (heval : sim.Simulates eval eval') {parts : List Expr}
    (hcode : ∀ c ∈ parts, sim.code c) :
    sim.Tracks sim.value (evalContinuousPlot eval parts) (evalContinuousPlot eval' parts) := by
  match parts with
  | [function, range] =>
    exact plotFunction heval (hcode function (by simp)) (hcode range (by simp)) (by simp)
  | [function, range, options] =>
    refine plotFunction heval (hcode function (by simp)) (hcode range (by simp)) ?_
    intro e he
    obtain rfl := Option.some.inj he
    exact heval options (hcode options (by simp))
  | [] | [_] | _ :: _ :: _ :: _ :: _ => exact Tracks.throw

/-! ## §8. Steps. -/

theorem evalForm (heval : sim.Simulates eval eval') (form : SpecialForm) {parts : List Expr}
    (hcode : ∀ c ∈ parts, sim.code c) :
    sim.Tracks sim.value (evalForm eval form parts) (evalForm eval' form parts) := by
  have hparts : ∀ c ∈ parts, sim.Tracks sim.value (eval c) (eval' c) :=
    fun c hc => heval c (hcode c hc)
  cases form with
  | define => exact evalDefine hcode hparts
  | begin => exact evalBegin hparts
  | lambda => exact evalLambda hcode
  | apply => exact evalApply heval hcode
  | map => exact evalMap heval hcode
  | setProperty => exact evalSetProperty hparts
  | getProperty => exact evalGetProperty hparts
  | plot kind =>
    cases kind with
    | discrete => exact evalDiscretePlot hparts
    | continuous => exact evalContinuousPlot heval hcode

/-- **Steps end alike if their parts do.** -/
theorem step (heval : sim.Simulates eval eval') : sim.Simulates (step eval) (step eval') := by
  intro e hcode
  have hparts : ∀ c ∈ e.tail, sim.code c := fun c hc => sim.part hcode hc
  unfold Evaluation.step
  by_cases hleaf : (e.isLeaf && !e.isList) = true
  · simp only [if_pos hleaf]
    have hevalLeaf := evalLeaf hcode (Bool.and_eq_true_iff.mp hleaf).1
    split
    · -- `apply` without parts
      exact evalApply heval hparts
    · exact hevalLeaf
  · simp only [if_neg hleaf]
    cases hform : e.headSymbol?.bind SpecialForm.ofName? with
    | none => exact evalCall heval hcode
    | some form =>
      cases form with
      | apply => exact evalApply heval hparts
      | _ => exact evalForm heval _ hparts

/-- **With as many evaluations left, evaluation cannot tell the environments apart.** -/
theorem evalWithin (sim : Simulation) (limit depth : Nat) :
    sim.Simulates (evalWithin limit depth) (evalWithin limit depth) := by
  induction depth with
  | zero => exact fun e _ => Tracks.throw
  | succ depth ih => exact step ih

end Simulation

end PlotLisp
