/-
  PlotLisp.Proofs.Evaluation.Refusals
  ──────────────────────────────────────
  **WHAT FORMS REFUSE.**

  A form refuses some parts as they are written, and some values of the parts that it
  evaluates, its operands:

    • `RefusesParts` — the count of parts, the name of a target or of something to call,
      the kind of a part that is not evaluated;
    • `Yields` — the first operands have values, and leave an environment;
    • `RefusesValues` — the values of the first operands, checked as soon as they are there.

  Either refusal makes the form fail: the first in the environment as it is, the second in
  the one that these operands left.
-/
import PlotLisp.Proofs.Evaluation.ProcedureForms

namespace PlotLisp

open EvalM Evaluation

variable {eval : Expr → EvalM Expr} {env after : Environment} {form : SpecialForm}
  {parts values : List Expr} {fault : Fault}

/-! ## §1. Parts and operands. -/

/-- The counts of parts that a form takes. -/
def SpecialForm.arity : SpecialForm → ArgCount
  | .begin => .atLeast 1
  | .setProperty => .exactly 3
  | .plot .discrete => .between 1 2
  | .plot .continuous => .between 2 3
  | _ => .exactly 2

/-- The parts that a form evaluates, in order; `lambda` keeps its body for a call. -/
def SpecialForm.operands : SpecialForm → List Expr → List Expr
  | .lambda, _ => []
  | .begin, parts => parts
  | .plot .discrete, parts => parts
  | .plot .continuous, function :: rest =>
      -- a name is looked up, not evaluated
      if function.symbol?.isSome then rest else function :: rest
  | _, parts => parts.tail

theorem SpecialForm.operands_nil (form : SpecialForm) : form.operands [] = [] := by
  cases form with
  | plot kind => cases kind <;> rfl
  | _ => rfl

theorem SpecialForm.operands_of_name {function : Expr} {name : String}
    (hname : function.symbol? = some name) (rest : List Expr) :
    operands (.plot .continuous) (function :: rest) = rest := by
  simp only [operands, hname, Option.isSome_some, if_true]

theorem SpecialForm.operands_of_no_name {function : Expr} (hname : function.symbol? = none)
    (rest : List Expr) : operands (.plot .continuous) (function :: rest) = function :: rest := by
  simp only [operands, hname, Option.isSome_none, Bool.false_eq_true, if_false]

/-! ## §2. Values of operands. -/

variable {operands : List Expr}

/-- Evaluated one after the other, the first operands have these values and leave the
environment `after`. -/
inductive Yields (eval : Expr → EvalM Expr) :
    List Expr → Environment → List Expr → Environment → Prop where
  | nil {operands : List Expr} {env : Environment} : Yields eval operands env [] env
  | cons {e v : Expr} {rest values : List Expr} {env between after : Environment} :
      (eval e).outcome env = (.ok v, between) → Yields eval rest between values after →
      Yields eval (e :: rest) env (v :: values) after

theorem Yields.eq_of_nil (h : Yields eval operands env [] after) : env = after := by
  cases h
  rfl

theorem Yields.of_evalAll (h : (evalAll eval operands).outcome env = (.ok values, after)) :
    Yields eval operands env values after := by
  unfold evalAll at h
  induction operands generalizing env values with
  | nil =>
    cases h
    exact .nil
  | cons e rest ih =>
    rw [List.mapM_cons] at h
    obtain ⟨v, between, hv, h⟩ := outcome_bind_eq_ok_iff.mp h
    obtain ⟨vs, after', hvs, hpure⟩ := outcome_bind_eq_ok_iff.mp h
    cases hpure
    exact .cons hv (ih hvs)

theorem Yields.outcome_evalAll (h : Yields eval operands env values after)
    (hlength : values.length = operands.length) :
    (evalAll eval operands).outcome env = (.ok values, after) := by
  unfold evalAll
  induction h with
  | nil =>
    obtain rfl := List.length_eq_zero_iff.mp hlength.symm
    rfl
  | cons hv _ ih =>
    rw [List.mapM_cons, outcome_bind, hv]
    simp only [outcome_bind, ih (Nat.succ.inj hlength)]
    rfl

/-- Operands that define nothing leave the environment as it is. -/
theorem Yields.env_eq {limit depth : Nat}
    (h : Yields (evalWithin limit depth) operands env values after)
    (hdefines : ∀ e ∈ operands, ∀ name, ¬ Defines name e) : after = env := by
  induction h with
  | nil => rfl
  | cons hv _ ih =>
    obtain ⟨he, hrest⟩ := List.forall_mem_cons.mp hdefines
    rw [ih hrest]
    exact (congrArg Prod.snd hv).symm.trans (evalWithin_env_of_not_defines he limit depth _)

/-! ## §3. Steps of forms. -/

/-- With parts, a form follows its rule; `apply` does so even without. -/
theorem step_of_form {e : Expr} (hhead : e.headSymbol? = some form.name)
    (hparts : e.tail ≠ [] ∨ form = .apply) : step eval e = evalForm eval form e.tail := by
  have hform : e.headSymbol?.bind SpecialForm.ofName? = some form := by
    rw [hhead]
    exact SpecialForm.ofName?_name form
  unfold step
  rw [hform]
  rcases hparts with htail | rfl
  · have hleaf : e.isLeaf = false := List.isEmpty_eq_false_iff.mpr htail
    simp only [hleaf, Bool.false_and, Bool.false_eq_true, if_false]
    cases form <;> rfl
  · rfl

/-- Without, the name of any other form is a leaf. -/
theorem step_of_bare {e : Expr} (hhead : e.headSymbol? = some form.name) (htail : e.tail = [])
    (happly : form ≠ .apply) : step eval e = evalLeaf e := by
  have hform : e.headSymbol?.bind SpecialForm.ofName? = some form := by
    rw [hhead]
    exact SpecialForm.ofName?_name form
  have hleaf : e.isLeaf = true := List.isEmpty_iff.mpr htail
  -- only a list is no leaf although it is empty, and no form has its name
  have hlist : e.isList = false := by
    unfold Expr.isList
    rw [hhead]
    cases form with
    | plot kind => cases kind <;> decide
    | _ => decide
  unfold step
  rw [hform]
  simp only [hleaf, hlist, Bool.not_false, Bool.and_self, if_true]
  cases form with
  | apply => exact absurd rfl happly
  | _ => rfl

theorem outcome_evalLeaf {e : Expr} (hhead : e.headSymbol? = some form.name) :
    (evalLeaf e).outcome env
      = match env.find? form.name with
        | some (.binding v) => (.ok v, env)
        | some (.procedure procedure) => (procedure.run [], env)
        | none => (.error (runtime.fault (.argument form.name (.atLeast 1) 0)), env) := by
  have hsymbol : e.head = .symbol form.name := by
    unfold Expr.headSymbol? at hhead
    cases hatom : e.head <;> rw [hatom] at hhead <;> cases hhead
    rfl
  unfold evalLeaf
  rw [hsymbol]
  show (get >>= _ : EvalM Expr).outcome env = _
  rw [outcome_bind, outcome_get]
  cases hfound : env.find? form.name with
  | none =>
    simp only [hfound, SpecialForm.ofName?_name, Option.isSome_some, if_true, outcome_throw]
  | some entry => cases entry <;> simp only [hfound, outcome_pure, outcome_settle]

/-- A wrong count of parts is refused before anything else. -/
theorem evalForm_eq_throw (hcount : form.arity.admits parts.length = false) :
    evalForm eval form parts
      = throw (runtime.fault (.argument form.name form.arity parts.length)) := by
  -- every rule names the shapes of parts that it takes; what is left is refused
  cases form with
  | define =>
    show evalDefine eval parts = _
    unfold evalDefine
    split
    · cases hcount
    · rfl
  | begin =>
    cases parts with
    | nil => rfl
    | cons e rest => simp [SpecialForm.arity, ArgCount.admits] at hcount
  | lambda =>
    show evalLambda parts = _
    unfold evalLambda
    split
    · cases hcount
    · rfl
  | apply =>
    show evalApply eval parts = _
    unfold evalApply
    split
    · cases hcount
    · rfl
  | map =>
    show evalMap eval parts = _
    unfold evalMap
    split
    · cases hcount
    · rfl
  | setProperty =>
    show evalSetProperty eval parts = _
    unfold evalSetProperty
    split
    · cases hcount
    · rfl
  | getProperty =>
    show evalGetProperty eval parts = _
    unfold evalGetProperty
    split
    · cases hcount
    · rfl
  | plot kind =>
    cases kind with
    | discrete =>
      show evalDiscretePlot eval parts = _
      unfold evalDiscretePlot
      split
      · cases hcount
      · cases hcount
      · rfl
    | continuous =>
      show evalContinuousPlot eval parts = _
      unfold evalContinuousPlot
      split
      · cases hcount
      · cases hcount
      · rfl

/-! ## §4. Names to call. -/

/-- The name that should be called is none, or calls nothing. -/
inductive Uncallable (env : Environment) (place : String) (target : Expr) : Fault → Prop where
  | unnamed : target.symbol? = none →
      Uncallable env place target
        (runtime.fault (.mismatch place "a procedure name" target.typeName))
  | unknown {name : String} : target.symbol? = some name → env.find? name = none →
      Uncallable env place target (runtime.fault (.unknownProcedure name))
  | value {name : String} {v : Expr} : target.symbol? = some name →
      env.find? name = some (.binding v) → v.isLambda = false →
      Uncallable env place target
        (runtime.fault (.mismatch place "a procedure or lambda" v.typeName))

namespace Uncallable

variable {place : String} {target : Expr}

theorem outcome_resolve (h : Uncallable env place target fault) :
    (resolve place target).outcome env = (.error fault, env) := by
  unfold resolve
  cases h with
  | unnamed hname =>
    rw [hname]
    rfl
  | unknown hname hfound =>
    rw [hname]
    simp only [outcome_bind, outcome_get, hfound, outcome_throw]
  | value hname hfound hlambda =>
    rw [hname]
    simp only [outcome_bind, outcome_get, hfound, hlambda, Bool.false_eq_true, if_false,
      outcome_throw]

/-- What stands for the name of a callable is one or is not. -/
theorem denotes_or_uncallable (env : Environment) (place : String) (target : Expr) :
    (∃ name callable, target.symbol? = some name ∧ Denotes env name callable)
      ∨ ∃ fault, Uncallable env place target fault := by
  cases hname : target.symbol? with
  | none => exact .inr ⟨_, .unnamed hname⟩
  | some name =>
    cases hfound : env.find? name with
    | none => exact .inr ⟨_, .unknown hname hfound⟩
    | some entry =>
      cases entry with
      | procedure procedure => exact .inl ⟨name, _, rfl, .procedure hfound⟩
      | binding v =>
        cases hlambda : v.isLambda with
        | true => exact .inl ⟨name, _, rfl, .lambda hfound hlambda⟩
        | false => exact .inr ⟨_, .value hname hfound hlambda⟩

end Uncallable

/-- What a form that calls something under a name asks its list to be. -/
def SpecialForm.wantedList? : SpecialForm → Option String
  | .apply => some "a list of arguments"
  | .map => some "a list"
  | _ => none

theorem SpecialForm.operands_calling {wanted : String} (hwanted : form.wantedList? = some wanted)
    (target e : Expr) : form.operands [target, e] = [e] := by
  cases form with
  | apply => rfl
  | map => rfl
  | _ => cases hwanted

/-- What such a form does with the elements of its list. -/
def SpecialForm.callOn (form : SpecialForm) (eval : Expr → EvalM Expr) (callable : Callable)
    (items : List Expr) : EvalM Expr :=
  match form with
  | .map => (items.mapM fun item => call eval form.name callable [item]) >>= fun vs =>
      pure (.list vs)
  | _ => call eval form.name callable items

/-- Calling changes nothing, once or many times. -/
theorem SpecialForm.callOn_env (form : SpecialForm) (callable : Callable) (items : List Expr)
    (env : Environment) : ((form.callOn eval callable items).outcome env).2 = env := by
  unfold callOn
  cases form with
  | map =>
    have hcalls := outcome_mapM_env fun item (_ : item ∈ items) =>
      call_env eval SpecialForm.map.name callable [item] env
    rw [outcome_bind]
    generalize outcome (items.mapM fun item => call eval _ callable [item]) env = x at hcalls ⊢
    obtain ⟨r, after⟩ := x
    obtain rfl : after = env := hcalls
    cases r <;> rfl
  | _ => exact call_env eval _ callable items env

/-- With something to call under the name, such a form evaluates its list. -/
theorem outcome_calling {wanted name : String} {target e : Expr} {callable : Callable}
    (hwanted : form.wantedList? = some wanted) (htarget : target.symbol? = some name)
    (hdenotes : Denotes env name callable) :
    (evalForm eval form [target, e]).outcome env
      = (eval e >>= fun v => if v.isList then form.callOn eval callable v.tail
          else throw (runtime.fault (.mismatch form.name wanted v.typeName))).outcome env := by
  have hresolve : (resolve form.name target).outcome env = (.ok callable, env) :=
    outcome_resolve_eq_ok_iff.mpr ⟨rfl, name, htarget, hdenotes⟩
  cases form with
  | apply =>
    cases hwanted
    show (resolve SpecialForm.apply.name target >>= _ : EvalM Expr).outcome env = _
    rw [outcome_bind, hresolve]
    rfl
  | map =>
    cases hwanted
    show (resolve SpecialForm.map.name target >>= _ : EvalM Expr).outcome env = _
    rw [outcome_bind, hresolve]
    rfl
  | _ => cases hwanted

/-! ## §5. Refusals of parts. -/

/-- A form refuses its parts as they are written. -/
inductive RefusesParts (env : Environment) : SpecialForm → List Expr → Fault → Prop where
  /-- Without parts, the name of a form is a leaf; `apply` is a form even so. -/
  | bare {form : SpecialForm} : form ≠ .apply → env.find? form.name = none →
      RefusesParts env form [] (runtime.fault (.argument form.name (.atLeast 1) 0))
  | count {form : SpecialForm} {parts : List Expr} : parts ≠ [] ∨ form = .apply →
      form.arity.admits parts.length = false →
      RefusesParts env form parts (runtime.fault (.argument form.name form.arity parts.length))
  | target {target e : Expr} : target.symbol? = none →
      RefusesParts env .define [target, e]
        (runtime.fault (.mismatch "define" "a symbol" target.typeName))
  | reserved {target e : Expr} {name : String} : target.symbol? = some name →
      env.isReserved name = true →
      RefusesParts env .define [target, e] (runtime.fault (.redefinition name))
  | parameters {params body : Expr} {fault : Fault} : parameters params = .error fault →
      RefusesParts env .lambda [params, body] fault
  | setKey {key e e' : Expr} : key.string? = none →
      RefusesParts env .setProperty [key, e, e']
        (runtime.fault (.mismatch "set-property" "a string literal property name" key.typeName))
  | getKey {key e : Expr} : key.string? = none →
      RefusesParts env .getProperty [key, e]
        (runtime.fault (.mismatch "get-property" "a string literal property name" key.typeName))
  | called {form : SpecialForm} {wanted : String} {target e : Expr} {fault : Fault} :
      form.wantedList? = some wanted → Uncallable env form.name target fault →
      RefusesParts env form [target, e] fault
  | plotted {function range : Expr} {options : Option Expr} {fault : Fault} :
      function.symbol?.isSome = true → Uncallable env "continuous-plot" function fault →
      RefusesParts env (.plot .continuous) (function :: range :: options.toList) fault

theorem outcome_literalKey {place : String} {key : Expr} (hkey : key.string? = none) :
    (literalKey place key).outcome env
      = (.error (runtime.fault (.mismatch place "a string literal property name" key.typeName)),
        env) := by
  unfold literalKey
  rw [hkey]
  rfl

/-- What a form refuses as it is written makes it fail before anything is evaluated. -/
theorem RefusesParts.outcome_evalForm (h : RefusesParts env form parts fault)
    (hparts : parts ≠ [] ∨ form = .apply) :
    (evalForm eval form parts).outcome env = (.error fault, env) := by
  cases h with
  | bare happly =>
    rcases hparts with hparts | rfl
    · exact absurd rfl hparts
    · exact absurd rfl happly
  | count _ hcount =>
    rw [evalForm_eq_throw hcount]
    rfl
  | target htarget =>
    simp only [evalForm, evalDefine, htarget]
    rfl
  | reserved htarget hreserved =>
    simp only [evalForm, evalDefine, htarget, outcome_bind, outcome_get, outcome_settle,
      Environment.checkBindable, if_pos hreserved]
  | parameters hparameters =>
    simp only [evalForm, evalLambda, hparameters]
    rfl
  | setKey hkey =>
    simp only [evalForm, evalSetProperty, outcome_bind]
    rw [outcome_literalKey hkey]
    rfl
  | getKey hkey =>
    simp only [evalForm, evalGetProperty, outcome_bind]
    rw [outcome_literalKey hkey]
    rfl
  | called hwanted huncallable =>
    cases form with
    | apply =>
      simp only [evalForm, evalApply, outcome_bind]
      rw [huncallable.outcome_resolve]
    | map =>
      simp only [evalForm, evalMap, outcome_bind]
      rw [huncallable.outcome_resolve]
    | _ => cases hwanted
  | plotted hname huncallable =>
    rw [evalForm_continuous]
    simp only [plotFunction, plottedFunction, if_pos hname, outcome_bind]
    rw [show PlotKind.continuous.name = "continuous-plot" from rfl, huncallable.outcome_resolve]

/-- For a form without parts, so does evaluation of the leaf. -/
theorem RefusesParts.outcome_evalLeaf (h : RefusesParts env form [] fault) {e : Expr}
    (hhead : e.headSymbol? = some form.name) (happly : form ≠ .apply) :
    (evalLeaf e).outcome env = (.error fault, env) := by
  rw [PlotLisp.outcome_evalLeaf hhead]
  cases h with
  | bare _ hfound => rw [hfound]
  | count hparts =>
    rcases hparts with hparts | hparts
    · exact absurd rfl hparts
    · exact absurd hparts happly

/-! ## §6. Plots of values. -/

/-- A discrete plot checks the values of its operands after it has them all. -/
theorem evalForm_discrete (data : Expr) (options : Option Expr) :
    evalForm eval (.plot .discrete) (data :: options.toList)
      = eval data >>= fun v => evalAll eval options.toList >>= fun values =>
          settle (PlotOptions.ofExpr? values.head? >>= fun plotOptions =>
            readSamples "discrete-plot" v >>= plotOf .discrete plotOptions) := by
  have hplot : evalForm eval (.plot .discrete) (data :: options.toList)
      = plotData eval data options := by cases options <;> rfl
  rw [hplot]
  unfold plotData
  simp only [evalOptions_eq, bind_assoc, settle_bind]
  rfl

/-- A continuous plot of a function that it was given. -/
def plotCallable (eval : Expr → EvalM Expr) (callable : Callable) (range : Expr)
    (options : Option Expr) : EvalM Expr :=
  eval range >>= fun v => settle (readRange v) >>= fun bounds =>
    evalAll eval options.toList >>= fun values => settle (PlotOptions.ofExpr? values.head?) >>=
      fun plotOptions => (abscissas bounds.1 bounds.2).mapM (sampleAt eval callable) >>=
        fun samples => settle (plotOf .continuous plotOptions samples)

theorem outcome_plotFunction {function range : Expr} {options : Option Expr}
    {callable : Callable} {between : Environment}
    (h : Supplies eval env function callable between) :
    (evalForm eval (.plot .continuous) (function :: range :: options.toList)).outcome env
      = (plotCallable eval callable range options).outcome between := by
  rw [evalForm_continuous]
  unfold plotFunction plotCallable
  rw [outcome_bind, outcome_plottedFunction_eq_ok_iff.mpr h]
  simp only [evalOptions_eq, bind_assoc]

/-- The function of a continuous plot is the name of a callable, or the values in front are
that of the function, a lambda. -/
inductive IsFunction (env : Environment) (function : Expr) : List Expr → Callable → Prop where
  | named {name : String} {callable : Callable} : function.symbol? = some name →
      Denotes env name callable → IsFunction env function [] callable
  | computed {v : Expr} : function.symbol? = none → v.isLambda = true →
      IsFunction env function [v] (.lambda v)

/-! ## §7. Refusals of values. -/

/-- A form refuses the values of its first operands. -/
inductive RefusesValues (env : Environment) :
    SpecialForm → List Expr → List Expr → Fault → Prop where
  | list {form : SpecialForm} {wanted name : String} {target e v : Expr} {callable : Callable} :
      form.wantedList? = some wanted → target.symbol? = some name → Denotes env name callable →
      v.isList = false →
      RefusesValues env form [target, e] [v] (runtime.fault (.mismatch form.name wanted v.typeName))
  | dataOptions {data v : Expr} {options : Option Expr} {values : List Expr} {fault : Fault} :
      values.length = options.toList.length → PlotOptions.ofExpr? values.head? = .error fault →
      RefusesValues env (.plot .discrete) (data :: options.toList) (v :: values) fault
  | data {data v : Expr} {options : Option Expr} {values : List Expr}
      {plotOptions : PlotOptions Float} {fault : Fault} : values.length = options.toList.length →
      PlotOptions.ofExpr? values.head? = .ok plotOptions →
      readSamples "discrete-plot" v = .error fault →
      RefusesValues env (.plot .discrete) (data :: options.toList) (v :: values) fault
  | function {function range v : Expr} {options : Option Expr} :
      function.symbol? = none → v.isLambda = false →
      RefusesValues env (.plot .continuous) (function :: range :: options.toList) [v]
        (runtime.fault (.mismatch "continuous-plot" "a function" v.typeName))
  | range {function range v : Expr} {options : Option Expr} {front : List Expr}
      {callable : Callable} {fault : Fault} :
      IsFunction env function front callable → readRange v = .error fault →
      RefusesValues env (.plot .continuous) (function :: range :: options.toList)
        (front ++ [v]) fault
  | rangeOptions {function range v : Expr} {options : Option Expr} {front values : List Expr}
      {callable : Callable} {bounds : Float × Float} {fault : Fault} :
      IsFunction env function front callable → readRange v = .ok bounds →
      values.length = options.toList.length → PlotOptions.ofExpr? values.head? = .error fault →
      RefusesValues env (.plot .continuous) (function :: range :: options.toList)
        (front ++ v :: values) fault

theorem Yields.outcome_discrete {data v : Expr} {options : Option Expr}
    (h : Yields eval (data :: options.toList) env (v :: values) after)
    (hlength : values.length = options.toList.length) :
    (evalForm eval (.plot .discrete) (data :: options.toList)).outcome env
      = (PlotOptions.ofExpr? values.head? >>= fun plotOptions =>
          readSamples "discrete-plot" v >>= plotOf .discrete plotOptions, after) := by
  cases h with
  | cons hv hvalues =>
    rw [evalForm_discrete, outcome_bind, hv]
    simp only [outcome_bind, hvalues.outcome_evalAll hlength, outcome_settle]

/-- The operands of a continuous plot begin with its function, unless that is a name. -/
theorem IsFunction.exists_supplies {function : Expr} {front rest : List Expr}
    {callable : Callable} (h : IsFunction env function front callable)
    (hyields : Yields eval (SpecialForm.operands (.plot .continuous) (function :: rest)) env
      (front ++ values) after) :
    ∃ between, Supplies eval env function callable between
      ∧ Yields eval rest between values after := by
  cases h with
  | named hname hdenotes =>
    rw [SpecialForm.operands_of_name hname] at hyields
    exact ⟨env, .named hname hdenotes, hyields⟩
  | computed hname hlambda =>
    rw [SpecialForm.operands_of_no_name hname] at hyields
    cases hyields with
    | cons hv hrest => exact ⟨_, .computed hname hv hlambda, hrest⟩

/-- What a form refuses of the values of its operands makes it fail in the environment that
these operands left. -/
theorem RefusesValues.outcome_evalForm (h : RefusesValues env form parts values fault)
    (hyields : Yields eval (form.operands parts) env values after) :
    (evalForm eval form parts).outcome env = (.error fault, after) := by
  cases h with
  | list hwanted htarget hdenotes hlist =>
    rw [SpecialForm.operands_calling hwanted] at hyields
    obtain _ | ⟨hv, _ | _⟩ := hyields
    rw [outcome_calling hwanted htarget hdenotes, outcome_bind, hv]
    simp only [hlist, Bool.false_eq_true, if_false, outcome_throw]
  | dataOptions hlength hoptions =>
    rw [hyields.outcome_discrete hlength, hoptions]
    rfl
  | data hlength hoptions hsamples =>
    rw [hyields.outcome_discrete hlength, hoptions, hsamples]
    rfl
  | function hname hlambda =>
    -- nothing but the function has been evaluated
    rw [SpecialForm.operands_of_no_name hname] at hyields
    obtain _ | ⟨hv, _ | _⟩ := hyields
    rw [evalForm_continuous]
    simp only [plotFunction, plottedFunction, hname, Option.isSome_none, Bool.false_eq_true,
      if_false, outcome_bind, hv, hlambda, outcome_throw]
    rfl
  | range hfunction hrange =>
    obtain ⟨between, hsupplies, hrest⟩ := hfunction.exists_supplies hyields
    obtain _ | ⟨hv, hnil⟩ := hrest
    obtain rfl := hnil.eq_of_nil
    rw [outcome_plotFunction hsupplies]
    simp only [plotCallable, outcome_bind, hv, hrange, outcome_settle]
  | rangeOptions hfunction hrange hlength hoptions =>
    -- the options are evaluated behind a range that was accepted
    obtain ⟨between, hsupplies, hrest⟩ := hfunction.exists_supplies hyields
    obtain _ | ⟨hv, hvalues⟩ := hrest
    rw [outcome_plotFunction hsupplies]
    simp only [plotCallable, outcome_bind, hv, hrange, outcome_settle,
      hvalues.outcome_evalAll hlength, hoptions]

/-- Only forms that call or plot look at the values of their operands. -/
theorem RefusesValues.form_eq (h : RefusesValues env form parts values fault) :
    form = .apply ∨ form = .map ∨ ∃ kind, form = .plot kind := by
  cases h with
  | list hwanted =>
    cases form with
    | apply => exact .inl rfl
    | map => exact .inr (.inl rfl)
    | _ => cases hwanted
  | _ => exact .inr (.inr ⟨_, rfl⟩)

end PlotLisp
