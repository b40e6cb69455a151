/-
  PlotLisp.Proofs.Evaluation.Nesting
  ──────────────────────────────────────
  **NESTING ALONE IS NEVER CUT OFF.**

  Without lambdas, the evaluations inside one another are those of an expression, of
  its parts, of their parts and so on:

    • `Omits.closed` — procedures make no symbol but `list` that was not there, so
      no lambda is ever computed, bound or found in a property;
    • `lambdaFree` — hence no lambda is ever called, and as many evaluations as an
      expression is high are left for it when its turn comes;
    • calls of procedures, however long the lists they run over, evaluate nothing.
-/
import PlotLisp.Proofs.Evaluation.Limit
import PlotLisp.Proofs.Evaluation.Unmentioned

namespace PlotLisp

open EvalM Evaluation

/-! ## §1. Values without lambdas. -/

namespace Omits

variable {z : String} {e : Expr}

theorem node_iff {head : Atom} {tail : List Expr} {props : List (String × Expr)} :
    Omits z (.node head tail props)
      ↔ head ≠ .symbol z ∧ (∀ c ∈ tail, Omits z c) ∧ ∀ p ∈ props, Omits z p.2 := by
  constructor
  · rintro ⟨hhead, htail, hprops⟩
    exact ⟨hhead, htail, hprops⟩
  · rintro ⟨hhead, htail, hprops⟩
    exact .node hhead htail hprops

/-- No procedure makes a symbol other than `list`. -/
theorem closed (hz : z ≠ Expr.listName) : ClosedValues (Omits z) where
  atom a ha := by
    refine .atom ?_
    rintro rfl
    cases ha
  list items hitems := .node (fun hlist => hz (Atom.symbol.inj hlist).symm) hitems
    (List.forall_mem_nil _)
  item v hv _ c hc := hv.of_mem_tail hc
  setProp v key value hv hvalue := by
    cases hv with
    | node hhead htail hprops =>
      exact .node hhead htail (Expr.forall_mem_insertProp hvalue hprops)
  prop v key value hv hprop := by
    cases hv with
    | node _ _ hprops => exact hprops _ (mem_of_lookup hprop)

/-- Without the symbol there is no lambda. -/
theorem isLambda_eq_false (h : Omits Expr.lambdaName e) : e.isLambda = false := by
  unfold Expr.isLambda
  split
  · rename_i name params body props
    have hname : name ≠ Expr.lambdaName := h.headSymbol_ne rfl
    rw [beq_false_of_ne hname]
    rfl
  · rfl

end Omits

/-- Values in which no lambda is reached have none. -/
theorem ValueOver.omits_lambda {v : Expr} (h : ValueOver (fun _ => False) v) :
    Omits Expr.lambdaName v := by
  induction h with
  | @leaf head props hhead _ ih =>
    refine .node ?_ (List.forall_mem_nil _) ih
    rintro rfl
    cases hhead
  | list _ _ ih ihProps => exact .node (by decide) ih ihProps
  | lambda _ hbody _ _ => exact hbody.elim

/-! ## §2. Evaluation without lambdas. -/

/-- Nothing bound in the environment has a lambda in it. -/
def BindsLambdaFree (env : Environment) : Prop :=
  ∀ name v, env.find? name = some (.binding v) → Omits Expr.lambdaName v

theorem bindsLambdaFree_standard : BindsLambdaFree .standard :=
  fun name v hfound => (BindsValues.standard name v hfound).omits_lambda

/-- Code without lambdas that is no higher than the evaluations left is not cut off. -/
def lambdaFree (limit : Nat) : Invariant limit where
  env := BindsLambdaFree
  code depth e := Omits Expr.lambdaName e ∧ e.height ≤ depth
  value := Omits Expr.lambdaName
  fault f := ∀ reported, f.cause ≠ .recursionLimit reported
  values := Omits.closed (by decide)
  ordinary _ hf := hf.ne_recursionLimit
  cutOff e hcode := by
    -- nothing is of height zero
    obtain ⟨d, hd, -⟩ := Expr.exists_depth hcode.2
    cases hd
  part depth e hcode _ c hc := by
    -- one evaluation is spent on `e`, which is higher than its parts
    obtain ⟨d, hd, htail⟩ := Expr.exists_depth hcode.2
    cases hd
    exact ⟨hcode.1.of_mem_tail hc, (Expr.height_le_heightAll hc).trans htail⟩
  literal _ _ hcode _ _ := hcode.1
  binding E name v hE hfound := hE name v hfound
  -- a lambda form would have the symbol at its head
  lambda _ _ _ _ _ hcode hhead _ _ := absurd rfl (hcode.1.headSymbol_ne hhead)
  define _ _ _ _ _ _ _ _ _ _ _ _ hv hE hbind := Environment.forall_bound_of_bind hE hv hbind
  applied _ _ _ lambda _ _ hv hl _ := by
    -- so there is none to be called
    rw [hv.isLambda_eq_false] at hl
    cases hl

/-- **NESTING ALONE IS NEVER CUT OFF.**  Let no lambda stand in an expression nor in what the
environment binds, properties included.  Then every limit that is at least the height of the
expression is enough, whatever the expression calls and however large the lists are: the
evaluation is not cut off, and ends as it does under the limit that is its height.  No lambda
comes of it either, as its value or bound in the environment, so the next evaluation can rely
on the same. -/
theorem nesting_alone_is_never_cut_off {e : Expr} {env : Environment} (he : Omits "lambda" e)
    (henv : ∀ name v, env.find? name = some (.binding v) → Omits "lambda" v) {limit : Nat}
    (hlimit : e.height ≤ limit) :
    ¬ CutOff (evaluate limit e env).1
    ∧ evaluate limit e env = evaluate e.height e env
    ∧ (∀ v, (evaluate limit e env).1 = .ok v → Omits "lambda" v)
    ∧ ∀ name v, (evaluate limit e env).2.find? name = some (.binding v) → Omits "lambda" v := by
  have hkeeps (limit : Nat) (hlimit : e.height ≤ limit) :
      BindsLambdaFree (evaluate limit e env).2
        ∧ EndsWith (Omits "lambda") (lambdaFree limit).fault (evaluate limit e env).1 :=
    (lambdaFree limit).evalWithin limit e ⟨he, hlimit⟩ env henv
  -- at every limit that is enough, for the two evaluations that are compared
  have hnot (limit : Nat) (hlimit : e.height ≤ limit) : ¬ CutOff (evaluate limit e env).1 := by
    rintro ⟨f, reported, hcut, hcause⟩
    have hends := (hkeeps limit hlimit).2
    rw [hcut] at hends
    exact hends reported hcause
  obtain ⟨hafter, hends⟩ := hkeeps limit hlimit
  refine ⟨hnot limit hlimit, evaluate_of_le hlimit (hnot _ le_rfl), ?_, hafter⟩
  intro v hv
  rw [hv] at hends
  exact hends

/-- Binds a list of lists and puts their first elements in front of it. -/
def Expr.listProgram : Expr :=
  .call "begin"
    [ .call "define"
        [.symbol "x", .call "list" [.call "list" [.string "a"], .call "list" [.string "b"]]],
      .call "apply"
        [.symbol "join", .call "list" [.call "map" [.symbol "first", .symbol "x"], .symbol "x"]] ]

/-- The height is a limit that is enough here, and the least one. -/
theorem nesting_alone_is_never_cut_off_by_lists :
    Expr.listProgram.height = 5
    ∧ (evaluate 4 .listProgram .standard).1 = .error (runtime.fault (.recursionLimit 4))
    ∧ ¬ CutOff (evaluate 5 .listProgram .standard).1
    ∧ (∀ v, (evaluate 5 .listProgram .standard).1 = .ok v → Omits "lambda" v)
    ∧ ∀ name v, (evaluate 5 .listProgram .standard).2.find? name = some (.binding v) →
        Omits "lambda" v := by
  have hheight : Expr.listProgram.height = 5 := by decide
  have he : Omits "lambda" .listProgram := by
    simp [Expr.listProgram, Expr.call, Expr.symbol, Expr.string, Expr.atom, Omits.node_iff]
  obtain ⟨hnot, -, hvalue, hbound⟩ :=
    nesting_alone_is_never_cut_off he bindsLambdaFree_standard hheight.le
  exact ⟨hheight, by decide +kernel, hnot, hvalue, hbound⟩

end PlotLisp
