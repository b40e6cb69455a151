/-
  PlotLisp.Proofs.Evaluation.Invariant
  ──────────────────────────────────────
  **INVARIANTS OF EVALUATION.**

  An invariant says what may be evaluated with how many evaluations left
  inside one another, which values and faults come of it, and which
  environments it runs in.  The conditions of `Invariant` are about one node
  each:

    • code hands its parts on, except for what stands in a lambda;
    • literals, bound values and new lambdas are values, and the values are
      closed under procedures;
    • a definition that code makes may be made.

  `Invariant.evalWithin` — evaluation keeps every invariant.
-/
import PlotLisp.Evaluation.Evaluate
import PlotLisp.Proofs.Evaluation.Procedures

namespace PlotLisp

open EvalM Evaluation

/-! ## §1. Heads of forms. -/

/-- A form is found under its own name. -/
theorem SpecialForm.name_of_ofName? {name : String} {form : SpecialForm}
    (h : ofName? name = some form) : form.name = name := by
  unfold ofName? at h
  simpa using List.find?_some h

/-- What evaluation dispatches on is the name at the head. -/
theorem Expr.headSymbol?_of_form {e : Expr} {form : SpecialForm}
    (h : e.headSymbol?.bind SpecialForm.ofName? = some form) :
    e.headSymbol? = some form.name := by
  obtain ⟨name, hname, hform⟩ := Option.bind_eq_some_iff.mp h
  rw [hname, SpecialForm.name_of_ofName? hform]

/-- Lambdas are built by their form only. -/
theorem SpecialForm.name_eq_lambda {form : SpecialForm} (h : form.name = Expr.lambdaName) :
    form = .lambda := by
  have hform : ofName? Expr.lambdaName = some form := by rw [← h, ofName?_name]
  exact Option.some.inj (hform.symm.trans (ofName?_name .lambda))

/-! ## §2. Invariants. -/

/-- An invariant of evaluation under a limit. -/
structure Invariant (limit : Nat) where
  /-- The environments that evaluation runs in. -/
  env : Environment → Prop
  /-- What is evaluated with so many evaluations left. -/
  code : Nat → Expr → Prop
  /-- What evaluation gives. -/
  value : Expr → Prop
  /-- How evaluation fails. -/
  fault : Fault → Prop
  values : ClosedValues value
  ordinary : ∀ f : Fault, f.Ordinary → fault f
  cutOff : ∀ e : Expr, code 0 e → fault (runtime.fault (.recursionLimit limit))
  part : ∀ (depth : Nat) (e : Expr), code (depth + 1) e →
    e.headSymbol? ≠ some Expr.lambdaName → ∀ c ∈ e.tail, code depth c
  literal : ∀ (depth : Nat) (e : Expr), code depth e → e.isLeaf = true →
    e.headSymbol? = none → value e
  binding : ∀ (E : Environment) (name : String) (v : Expr), env E →
    E.find? name = some (.binding v) → value v
  lambda : ∀ (depth : Nat) (e params body : Expr) (names : List String), code (depth + 1) e →
    e.headSymbol? = some Expr.lambdaName → e.tail = [params, body] →
    parameters params = .ok names → value (.lambda names body)
  define : ∀ (depth : Nat) (e target body : Expr) (name : String), code (depth + 1) e →
    e.headSymbol? = some SpecialForm.define.name → e.tail = [target, body] →
    target.symbol? = some name → ∀ (v : Expr) (E after : Environment), value v → env E →
    E.bind name v = .ok after → env after
  applied : ∀ (depth : Nat) (eval : Expr → EvalM Expr) (place : String) (lambda : Expr)
    (args : List Expr), (∀ e, code depth e → Keeps env fault value (eval e)) →
    value lambda → lambda.isLambda = true → (∀ v ∈ args, value v) →
    Keeps env fault value (applyLambda eval place lambda args)

namespace Invariant

variable {limit : Nat} (inv : Invariant limit) {α : Type} {P : α → Prop}

/-- The evaluation keeps the invariant and gives something in `P`. -/
abbrev Keeps (P : α → Prop) (action : EvalM α) : Prop := EvalM.Keeps inv.env inv.fault P action

/-- What may be called: a procedure, or a lambda that is a value. -/
def callable : Callable → Prop
  | .procedure _ => True
  | .lambda v => inv.value v ∧ v.isLambda = true

/-- A value of a kind that is not wanted, where something other than a lambda is. -/
theorem mismatch {place expected actual : String} (h : expected ≠ lambdaWanted) :
    inv.Keeps P (throw (runtime.fault (.mismatch place expected actual))) :=
  Keeps.throw (inv.ordinary _ (.mismatch h))

theorem throw {cause : Cause} (h : cause.Ordinary) : inv.Keeps P (throw (runtime.fault cause)) :=
  Keeps.throw (inv.ordinary _ (.atRuntime h))

/-- A check that fails ordinarily keeps every invariant. -/
theorem settle {r : Except Fault α} (h : EndsWith P Fault.Ordinary r) :
    inv.Keeps P (settle r) :=
  Keeps.settle (h.monoFault inv.ordinary)

/-- Evaluations that keep the invariant as long as they are given code for `depth`. -/
def Evaluates (depth : Nat) (eval : Expr → EvalM Expr) : Prop :=
  ∀ e, inv.code depth e → inv.Keeps inv.value (eval e)

variable {depth : Nat} {eval : Expr → EvalM Expr}

/-! ## §3. Calls. -/

/-- What is called is a procedure, or a lambda that a name was bound to. -/
theorem resolve (form : String) (e : Expr) : inv.Keeps inv.callable (resolve form e) := by
  unfold Evaluation.resolve
  split
  · exact inv.mismatch (by decide)
  · rename_i name _
    refine Keeps.get.bind ?_
    intro E hE
    split
    · exact Keeps.pure trivial
    · rename_i v hfound
      split
      · rename_i hlambda
        exact Keeps.pure ⟨inv.binding E name v hE hfound, hlambda⟩
      · exact inv.mismatch (by decide)
    · exact inv.throw trivial

theorem call (heval : inv.Evaluates depth eval) (form : String) {callable : Callable}
    (hcallable : inv.callable callable) {args : List Expr} (hargs : ∀ v ∈ args, inv.value v) :
    inv.Keeps inv.value (call eval form callable args) := by
  cases callable with
  | procedure procedure => exact inv.settle (inv.values.run procedure hargs)
  | lambda v => exact inv.applied depth eval form v args heval hcallable.1 hcallable.2 hargs

/-- A leaf stands for itself, for the value bound to it, or for a call without arguments. -/
theorem evalLeaf {e : Expr} (hcode : inv.code depth e) (hleaf : e.isLeaf = true) :
    inv.Keeps inv.value (evalLeaf e) := by
  unfold Evaluation.evalLeaf
  split
  · rename_i name _
    refine Keeps.get.bind ?_
    intro E hE
    split
    · rename_i v hfound
      exact Keeps.pure (inv.binding E name v hE hfound)
    · -- a procedure is called without arguments
      rename_i procedure _
      exact inv.settle (inv.values.run procedure fun v hv => absurd hv List.not_mem_nil)
    · split
      · exact inv.throw trivial
      · exact inv.throw trivial
  · rename_i hhead
    refine Keeps.pure (inv.literal depth e hcode hleaf ?_)
    show e.head.symbol? = none
    cases hh : e.head with
    | symbol name => exact absurd hh (hhead name)
    | _ => rfl

/-- The values of the arguments are what a procedure or a lambda gets. -/
theorem evalCall (heval : inv.Evaluates depth eval) {e : Expr}
    (hargs : ∀ c ∈ e.tail, inv.Keeps inv.value (eval c)) :
    inv.Keeps inv.value (evalCall eval e) := by
  unfold Evaluation.evalCall
  split
  · exact inv.throw trivial
  · rename_i name _
    refine Keeps.get.bind ?_
    intro E hE
    split
    · rename_i v hfound
      split
      · -- a bound lambda; the arguments may rebind its name, the value found stays
        rename_i hlambda
        refine (Keeps.mapM hargs).bind ?_
        intro args hargs
        have hv := inv.binding E name v hE hfound
        exact inv.applied depth eval name v args heval hv hlambda hargs
      · exact inv.throw trivial
    · rename_i procedure _
      refine (Keeps.mapM hargs).bind ?_
      intro args hargs
      exact inv.settle (inv.values.run procedure hargs)
    · exact inv.throw trivial

/-! ## §4. Forms that bind, build and sequence. -/

/-- The value of the last part is the value of them all. -/
theorem evalBegin {parts : List Expr} (hparts : ∀ c ∈ parts, inv.Keeps inv.value (eval c)) :
    inv.Keeps inv.value (evalBegin eval parts) := by
  induction parts with
  | nil => exact inv.throw trivial
  | cons e rest ih =>
    have he := hparts e List.mem_cons_self
    have hrest := ih fun c hc => hparts c (List.mem_cons_of_mem e hc)
    -- the last expression gives the value
    cases rest with
    | nil => exact he
    | cons e' rest => exact he.bind fun _ _ => hrest

/-- What is bound is a value, and code may bind it. -/
theorem evalDefine {e : Expr} (hcode : inv.code (depth + 1) e)
    (hhead : e.headSymbol? = some SpecialForm.define.name)
    (hparts : ∀ c ∈ e.tail, inv.Keeps inv.value (eval c)) :
    inv.Keeps inv.value (evalDefine eval e.tail) := by
  unfold Evaluation.evalDefine
  split
  · rename_i target body htail
    split
    · exact inv.mismatch (by decide)
    · rename_i name hname
      refine Keeps.get.bind ?_
      intro E hE
      have hcheck : FailsOrdinarily (E.checkBindable name) := by
        unfold Environment.checkBindable
        split
        · exact .atRuntime trivial
        · trivial
      refine (inv.settle hcheck).bind ?_
      intro _ _
      -- the body may change the environment before the name is bound in it
      have hbody : body ∈ e.tail := by rw [htail]; simp
      refine (hparts body hbody).bind ?_
      intro v hv
      have hbind : inv.Keeps (fun _ => True) (bindName name v) := by
        refine Keeps.bindName (fun _ => inv.ordinary _ (.atRuntime trivial)) ?_
        intro E after hE hafter
        exact inv.define depth e target body name hcode hhead htail hname v E after hv hE hafter
      exact hbind.bind fun _ _ => Keeps.pure hv
  · exact inv.throw trivial

/-- The names of parameters are taken, or an ordinary fault says what stands there. -/
theorem parameters_ends (params : Expr) :
    FailsOrdinarily (parameters params) := by
  have hatom (a : Atom) : FailsOrdinarily (parameterOfAtom a) := by
    cases a with
    | symbol name => trivial
    | _ => exact .mismatch (by decide)
  have hleaf : ∀ e ∈ params.tail,
      FailsOrdinarily (parameterOfLeaf e) := by
    intro e _
    unfold parameterOfLeaf
    split
    · exact hatom e.head
    · exact .mismatch (by decide)
  have hrest := (EndsWith.mapM hleaf).mono (R := fun _ => True) fun _ _ => trivial
  unfold parameters
  split
  · exact hrest
  · exact (hatom params.head).bind fun _ _ => hrest.bind fun _ _ => trivial

/-- A lambda with parameters that are names is a value. -/
theorem evalLambda {e : Expr} (hcode : inv.code (depth + 1) e)
    (hhead : e.headSymbol? = some Expr.lambdaName) :
    inv.Keeps inv.value (evalLambda e.tail) := by
  unfold Evaluation.evalLambda
  split
  · rename_i params body htail
    refine (inv.settle (parameters_ends params).attach).bind ?_
    intro names hnames
    refine Keeps.pure ?_
    exact inv.lambda depth e params body names hcode hhead htail hnames.1
  · exact inv.throw trivial

/-! ## §5. Forms that call. -/

/-- The elements of a value that is a list are values. -/
theorem evalApply (heval : inv.Evaluates depth eval) {parts : List Expr}
    (hparts : ∀ c ∈ parts, inv.Keeps inv.value (eval c)) :
    inv.Keeps inv.value (evalApply eval parts) := by
  unfold Evaluation.evalApply
  split
  · rename_i target e
    refine (inv.resolve _ target).bind ?_
    intro callable hcallable
    refine (hparts e (by simp)).bind ?_
    intro args hargs
    split
    · rename_i hlist
      exact inv.call heval _ hcallable (inv.values.item args hargs hlist)
    · exact inv.mismatch (by decide)
  · exact inv.throw trivial

/-- Each element is a value, and so is the list of what the calls give. -/
theorem evalMap (heval : inv.Evaluates depth eval) {parts : List Expr}
    (hparts : ∀ c ∈ parts, inv.Keeps inv.value (eval c)) :
    inv.Keeps inv.value (evalMap eval parts) := by
  unfold Evaluation.evalMap
  split
  · rename_i target e
    refine (inv.resolve _ target).bind ?_
    intro callable hcallable
    refine (hparts e (by simp)).bind ?_
    intro items hitems
    split
    · rename_i hlist
      have hcalls : ∀ item ∈ items.tail,
          inv.Keeps inv.value (Evaluation.call eval SpecialForm.map.name callable [item]) := by
        intro item hitem
        refine inv.call heval _ hcallable ?_
        intro v hv
        rw [List.mem_singleton.mp hv]
        exact inv.values.item items hitems hlist item hitem
      exact (Keeps.mapM hcalls).bind fun results hresults =>
        Keeps.pure (inv.values.list results hresults)
    · exact inv.mismatch (by decide)
  · exact inv.throw trivial

/-! ## §6. Properties. -/

/-- Keys are not evaluated. -/
theorem literalKey (form : String) (e : Expr) :
    inv.Keeps (fun _ => True) (literalKey form e) := by
  unfold Evaluation.literalKey
  split
  · exact Keeps.pure trivial
  · exact inv.mismatch (by decide)

/-- A value with one more property is a value. -/
theorem evalSetProperty {parts : List Expr}
    (hparts : ∀ c ∈ parts, inv.Keeps inv.value (eval c)) :
    inv.Keeps inv.value (evalSetProperty eval parts) := by
  unfold Evaluation.evalSetProperty
  split
  · rename_i key e e'
    refine (inv.literalKey _ key).bind ?_
    intro key _
    refine (hparts e (by simp)).bind ?_
    intro value hvalue
    refine (hparts e' (by simp)).bind ?_
    intro target htarget
    exact Keeps.pure (inv.values.setProp target key value htarget hvalue)
  · exact inv.throw trivial

theorem evalGetProperty {parts : List Expr}
    (hparts : ∀ c ∈ parts, inv.Keeps inv.value (eval c)) :
    inv.Keeps inv.value (evalGetProperty eval parts) := by
  unfold Evaluation.evalGetProperty
  split
  · rename_i key e
    refine (inv.literalKey _ key).bind ?_
    intro key _
    exact (hparts e (by simp)).bind fun target htarget =>
      Keeps.pure (inv.values.propertyOf htarget key)
  · exact inv.throw trivial

/-! ## §7. Plots. -/

/-- Nothing is kept of the options but what they set. -/
theorem evalOptions {options : Option Expr}
    (hoptions : ∀ e ∈ options, inv.Keeps inv.value (eval e)) :
    inv.Keeps (fun _ => True) (evalOptions eval options) := by
  cases options with
  | none => exact Keeps.pure trivial
  | some e =>
    exact (hoptions e rfl).bind fun value _ => inv.settle (PlotOptions.ofExpr_ends value)

/-- Plots of data are values. -/
theorem plotData {data : Expr} {options : Option Expr}
    (hdata : inv.Keeps inv.value (eval data))
    (hoptions : ∀ e ∈ options, inv.Keeps inv.value (eval e)) :
    inv.Keeps inv.value (plotData eval data options) := by
  unfold Evaluation.plotData
  refine hdata.bind ?_
  intro data _
  refine (inv.evalOptions hoptions).bind ?_
  intro options _
  refine (inv.settle (readSamples_ends _ data)).bind ?_
  intro samples _
  exact inv.settle (inv.values.plotOf .discrete options samples)

/-- What is plotted can be called. -/
theorem plottedFunction {function : Expr} (hfunction : inv.Keeps inv.value (eval function)) :
    inv.Keeps inv.callable (plottedFunction eval function) := by
  unfold Evaluation.plottedFunction
  split
  · exact inv.resolve _ function
  · refine hfunction.bind ?_
    intro value hvalue
    split
    · rename_i hlambda
      exact Keeps.pure ⟨hvalue, hlambda⟩
    · exact inv.mismatch (by decide)

/-- A sample is a call, of which a number is kept. -/
theorem sampleAt (heval : inv.Evaluates depth eval) {function : Callable}
    (hfunction : inv.callable function) (x : Float) :
    inv.Keeps (fun _ => True) (sampleAt eval function x) := by
  unfold Evaluation.sampleAt
  have hargs : ∀ v ∈ [Expr.number x], inv.value v := by
    intro v hv
    rw [List.mem_singleton.mp hv]
    exact inv.values.atom (.number x) rfl
  refine (inv.call heval _ hfunction hargs).bind ?_
  intro y _
  split
  · exact Keeps.pure trivial
  · exact inv.mismatch (by decide)

/-- Plots of functions are values. -/
theorem plotFunction (heval : inv.Evaluates depth eval) {function range : Expr}
    {options : Option Expr} (hfunction : inv.Keeps inv.value (eval function))
    (hrange : inv.Keeps inv.value (eval range))
    (hoptions : ∀ e ∈ options, inv.Keeps inv.value (eval e)) :
    inv.Keeps inv.value (plotFunction eval function range options) := by
  unfold Evaluation.plotFunction
  refine (inv.plottedFunction hfunction).bind ?_
  intro callable hcallable
  refine hrange.bind ?_
  intro range _
  refine (inv.settle (readRange_ends range)).bind ?_
  intro bounds _
  refine (inv.evalOptions hoptions).bind ?_
  intro options _
  have hsamples : ∀ x ∈ abscissas bounds.1 bounds.2,
      inv.Keeps (fun _ => True) (Evaluation.sampleAt eval callable x) :=
    fun x _ => inv.sampleAt heval hcallable x
  refine (Keeps.mapM hsamples).bind ?_
  intro samples _
  exact inv.settle (inv.values.plotOf .continuous options samples)

theorem evalDiscretePlot {parts : List Expr}
    (hparts : ∀ c ∈ parts, inv.Keeps inv.value (eval c)) :
    inv.Keeps inv.value (evalDiscretePlot eval parts) := by
  unfold Evaluation.evalDiscretePlot
  split
  · exact inv.plotData (hparts _ (by simp)) (by simp)
  · refine inv.plotData (hparts _ (by simp)) ?_
    intro e he
    obtain rfl := Option.some.inj he
    exact hparts _ (by simp)
  · exact inv.throw trivial

theorem evalContinuousPlot (heval : inv.Evaluates depth eval) {parts : List Expr}
    (hparts : ∀ c ∈ parts, inv.Keeps inv.value (eval c)) :
    inv.Keeps inv.value (evalContinuousPlot eval parts) := by
  unfold Evaluation.evalContinuousPlot
  split
  · exact inv.plotFunction heval (hparts _ (by simp)) (hparts _ (by simp)) (by simp)
  · refine inv.plotFunction heval (hparts _ (by simp)) (hparts _ (by simp)) ?_
    intro e he
    obtain rfl := Option.some.inj he
    exact hparts _ (by simp)
  · exact inv.throw trivial

/-! ## §8. Evaluation. -/

/-- **Every form keeps every invariant**, if the evaluations inside it do. -/
theorem evalForm (heval : inv.Evaluates depth eval) {e : Expr} {form : SpecialForm}
    (hcode : inv.code (depth + 1) e) (hhead : e.headSymbol? = some form.name) :
    inv.Keeps inv.value (evalForm eval form e.tail) := by
  by_cases hform : form = .lambda
  · subst hform
    exact inv.evalLambda hcode hhead
  · have hnot : e.headSymbol? ≠ some Expr.lambdaName := by
      rw [hhead]
      exact fun h => hform (SpecialForm.name_eq_lambda (Option.some.inj h))
    have hparts : ∀ c ∈ e.tail, inv.Keeps inv.value (eval c) :=
      fun c hc => heval c (inv.part depth e hcode hnot c hc)
    cases form with
    | define => exact inv.evalDefine hcode hhead hparts
    | begin => exact inv.evalBegin hparts
    | lambda => exact absurd rfl hform
    | apply => exact inv.evalApply heval hparts
    | map => exact inv.evalMap heval hparts
    | setProperty => exact inv.evalSetProperty hparts
    | getProperty => exact inv.evalGetProperty hparts
    | plot kind =>
      cases kind with
      | discrete => exact inv.evalDiscretePlot hparts
      | continuous => exact inv.evalContinuousPlot heval hparts

/-- One step keeps what its parts keep. -/
theorem step (heval : inv.Evaluates depth eval) {e : Expr} (hcode : inv.code (depth + 1) e) :
    inv.Keeps inv.value (step eval e) := by
  unfold Evaluation.step
  split
  · -- `apply`, a leaf or not
    rename_i hform
    exact inv.evalForm heval hcode (Expr.headSymbol?_of_form hform)
  · split
    · rename_i hleaf
      exact inv.evalLeaf hcode (Bool.and_eq_true_iff.mp hleaf).1
    · split
      · rename_i form hform
        exact inv.evalForm heval hcode (Expr.headSymbol?_of_form hform)
      · rename_i hform
        refine inv.evalCall heval fun c hc => heval c (inv.part depth e hcode ?_ c hc)
        -- a lambda is a form
        intro hlambda
        rw [hlambda] at hform
        cases hform.symm.trans (SpecialForm.ofName?_name .lambda)

/-- **Evaluation keeps every invariant.** -/
theorem evalWithin (depth : Nat) : inv.Evaluates depth (evalWithin limit depth) := by
  induction depth with
  | zero => exact fun e hcode => Keeps.throw (inv.cutOff e hcode)
  | succ depth ih => exact fun e hcode => inv.step ih hcode

end Invariant

end PlotLisp
