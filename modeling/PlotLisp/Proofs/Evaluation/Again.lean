/-
  PlotLisp.Proofs.Evaluation.Again
  ──────────────────────────────────────
  **EVALUATING A VALUE AGAIN.**

  A value is a tree and can stand as code.  Evaluating it gives it back, up to
  properties:

    • a list calls the procedure `list`, a name that no program can rebind;
    • a lambda is built anew over the names it has;
    • `IsValue.again` — as many nested evaluations as the value is high are
      enough.
-/
import PlotLisp.Proofs.Evaluation.Values
import PlotLisp.Proofs.Expr.Trees

namespace PlotLisp

open EvalM Evaluation

/-! ## §1. Parameters in a list. -/

namespace Expr

/-- Parameters in a list are taken for what they are. -/
theorem parameters_of_symbols {params : List Expr}
    (h : ∀ p ∈ params, p.symbol?.isSome = true) (props : List (String × Expr)) :
    ∃ names, parameters (.node (.symbol "list") params props) = .ok names
      ∧ shapeAll (names.map symbol) = shapeAll params := by
  show ∃ names, params.mapM parameterOfLeaf = .ok names ∧ _
  induction params with
  | nil => exact ⟨[], rfl, rfl⟩
  | cons p rest ih =>
    obtain ⟨hp, hrest⟩ := List.forall_mem_cons.mp h
    obtain ⟨name, hname⟩ := Option.isSome_iff_exists.mp hp
    obtain ⟨names, hnames, hshape⟩ := ih hrest
    have hleaf : parameterOfLeaf p = .ok name := by
      unfold symbol? at hname
      split at hname
      · cases hname
        rfl
      · cases hname
    refine ⟨name :: names, ?_, ?_⟩
    · rw [List.mapM_cons, hleaf, hnames]
      rfl
    · show shapeAll (symbol name :: names.map symbol) = shapeAll (p :: rest)
      unfold shapeAll
      rw [hshape, shape_of_symbol? hname]
      rfl

end Expr

/-! ## §2. Values as code. -/

/-- In `env`, the evaluation gives something of the shape of `e`, and nothing else
happens. -/
def Repeats (env : Environment) (action : EvalM Expr) (e : Expr) : Prop :=
  ∃ v, action.outcome env = (.ok v, env) ∧ v.shape = e.shape

/-- Element by element, a list of values comes back. -/
theorem repeats_mapM {env : Environment} {eval : Expr → EvalM Expr} {items : List Expr}
    (h : ∀ e ∈ items, Repeats env (eval e) e) :
    ∃ vs, (items.mapM eval).outcome env = (.ok vs, env)
      ∧ Expr.shapeAll vs = Expr.shapeAll items := by
  induction items with
  | nil => exact ⟨[], rfl, rfl⟩
  | cons e rest ih =>
    obtain ⟨⟨v, hv, hshape⟩, hrest⟩ := List.forall_mem_cons.mp h
    obtain ⟨vs, hvs, hshapes⟩ := ih hrest
    refine ⟨v :: vs, ?_, ?_⟩
    · rw [List.mapM_cons, outcome_bind, hv]
      show ((rest.mapM eval >>= fun vs => pure (v :: vs)) : EvalM (List Expr)).outcome env = _
      rw [outcome_bind, hvs]
      rfl
    · unfold Expr.shapeAll
      rw [hshape, hshapes]

/-- A list is a call, even an empty one. -/
theorem step_list (eval : Expr → EvalM Expr) (items : List Expr)
    (props : List (String × Expr)) :
    step eval (.node (.symbol "list") items props)
      = evalCall eval (.node (.symbol "list") items props) := by
  have hform : SpecialForm.ofName? "list" = none := by decide
  have hl : (Expr.node (.symbol "list") items props).isList = true := rfl
  unfold step
  simp only [Expr.headSymbol?, Expr.head, Atom.symbol?, Option.bind_some, hform, hl,
    Bool.not_true, Bool.and_false, Bool.false_eq_true, if_false]

theorem outcome_evalCall_list {env : Environment}
    (hlist : env.find? "list" = some (.procedure .list)) (eval : Expr → EvalM Expr)
    (items : List Expr) (props : List (String × Expr)) :
    (evalCall eval (.node (.symbol "list") items props)).outcome env =
      match (items.mapM eval).outcome env with
      | (.ok vs, after) => (.ok (.list vs), after)
      | (.error fault, after) => (.error fault, after) := by
  unfold evalCall
  simp only [Expr.headSymbol?, Expr.head, Expr.tail, Atom.symbol?, outcome_bind, outcome_get,
    hlist, outcome_settle, evalAll]
  rcases (items.mapM eval).outcome env with ⟨r, after⟩
  cases r <;> rfl

/-- A list comes back when its elements do: its call gives a list of what they give. -/
theorem repeats_list {env : Environment} (hlist : env.find? "list" = some (.procedure .list))
    {eval : Expr → EvalM Expr} {items : List Expr} (h : ∀ e ∈ items, Repeats env (eval e) e)
    (props : List (String × Expr)) :
    Repeats env (step eval (.node (.symbol "list") items props))
      (.node (.symbol "list") items props) := by
  obtain ⟨vs, hvs, hshape⟩ := repeats_mapM h
  refine ⟨.list vs, ?_, ?_⟩
  · rw [step_list, outcome_evalCall_list hlist, hvs]
  · unfold Expr.list Expr.shape
    rw [hshape]
    rfl

/-- A lambda is built again from the names and the body it has; its body does not run. -/
theorem repeats_lambda (env : Environment) (eval : Expr → EvalM Expr) {params : List Expr}
    (h : ∀ p ∈ params, p.symbol?.isSome = true) (body : Expr)
    (paramsProps props : List (String × Expr)) :
    Repeats env
      (step eval
        (.node (.symbol "lambda") [.node (.symbol "list") params paramsProps, body] props))
      (.node (.symbol "lambda") [.node (.symbol "list") params paramsProps, body] props) := by
  obtain ⟨names, hnames, hshape⟩ := Expr.parameters_of_symbols h paramsProps
  refine ⟨.lambda names body, ?_, ?_⟩
  · show ((settle (parameters (.node (.symbol "list") params paramsProps)) >>=
      fun names => pure (Expr.lambda names body)) : EvalM Expr).outcome env = _
    rw [hnames]
    rfl
  · show Expr.node (.symbol "lambda")
        (Expr.shapeAll [.node (.symbol "list") (names.map Expr.symbol) [], body]) [] = _
    simp only [Expr.shapeAll, Expr.shape, hshape]

/-- **A value evaluates to itself**, where `list` means the procedure and as many nested
evaluations are left as the value is high. -/
theorem IsValue.again {limit : Nat} {v : Expr} (hv : IsValue v) {env : Environment}
    (hlist : env.find? "list" = some (.procedure .list)) (depth : Nat) (hd : v.height ≤ depth) :
    Repeats env (evalWithin limit depth v) v := by
  -- the children of a list are evaluated with one evaluation less
  induction hv generalizing depth with
  | @leaf head props hhead _ _ =>
    obtain ⟨depth, rfl, -⟩ := Expr.exists_depth hd
    refine ⟨_, ?_, rfl⟩
    cases head with
    | symbol name => cases hhead
    | _ => rfl
  | @list items props _ _ ih _ =>
    obtain ⟨depth, rfl, hdepth⟩ := Expr.exists_depth hd
    refine repeats_list hlist ?_ props
    intro e he
    have hheight := Expr.height_le_heightAll he
    exact ih e he depth (hheight.trans hdepth)
  | @lambda params body paramsProps props hparams _ _ _ =>
    obtain ⟨depth, rfl, -⟩ := Expr.exists_depth hd
    exact repeats_lambda env _ hparams body paramsProps props

/-! ## §3. Results of programs. -/

/-- **Evaluating a result again changes nothing.**  Whatever a program gave, and whatever
ran before and after it: as an expression, it evaluates to a tree of its own atoms and
shape and leaves the environment as it is. -/
theorem results_evaluate_to_themselves {limit : Nat} {texts : List String} {text : String}
    {v : Expr}
    (hv : (((Interpreter.fresh limit).afterInputs texts).runInput text).1 = .ok v)
    (later : List String) {limit' : Nat} (hlimit : v.height ≤ limit') :
    ∃ v', evaluate limit' v ((Interpreter.fresh limit).afterInputs (texts ++ text :: later)).env
        = (.ok v', ((Interpreter.fresh limit).afterInputs (texts ++ text :: later)).env)
      ∧ v'.shape = v.shape := by
  have hvalue : IsValue v := by
    have hkeeps := Interpreter.runInput_keeps
      (plainValues ((Interpreter.fresh limit).afterInputs texts).limit) (fun _ he => he)
      (bindsValues_afterInputs limit texts) text
    exact (hkeeps.2.1 v hv).mono fun _ _ => trivial
  have hlist : (Interpreter.fresh limit).env.find? "list" = some (.procedure .list) := by rfl
  have hafter := Interpreter.procedure_afterInputs hlist (texts ++ text :: later)
  exact hvalue.again hafter limit' hlimit

theorem results_evaluate_to_themselves_nested :
    (((Interpreter.fresh 9).afterInputs []).runInput "(list \"a\" (list))").1
        = .ok (.list [.string "a", .list []])
      ∧ ∃ v', evaluate 2 (.list [.string "a", .list []])
          ((Interpreter.fresh 9).afterInputs ["(list \"a\" (list))", "(define x \"b\")"]).env
            = (.ok v', ((Interpreter.fresh 9).afterInputs
                ["(list \"a\" (list))", "(define x \"b\")"]).env)
        ∧ v'.shape = (Expr.list [.string "a", .list []]).shape := by
  have hv : (((Interpreter.fresh 9).afterInputs []).runInput "(list \"a\" (list))").1
      = .ok (.list [.string "a", .list []]) := by
    decide +kernel
  have hheight : (Expr.list [.string "a", .list []]).height ≤ 2 := by decide
  exact ⟨hv, results_evaluate_to_themselves hv ["(define x \"b\")"] hheight⟩

end PlotLisp
