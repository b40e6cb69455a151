/-
  PlotLisp.Evaluation.Evaluate
  ──────────────────────────────────────
  **EVALUATION.**

  One step of evaluation dispatches on an expression's head:

    1. `apply`, even without parts;
    2. leaves, apart from the empty list;
    3. the other special forms;
    4. calls of lambdas and procedures.

  `evalWithin limit depth` allows `depth` nested evaluations; the limit is what
  a fault reports.  An evaluation at the top starts with all of its limit.
-/
import PlotLisp.Evaluation.Form

namespace PlotLisp

namespace Evaluation

/-- One step: `eval` evaluates the sub-expressions. -/
def step (eval : Expr → EvalM Expr) (e : Expr) : EvalM Expr :=
  match e.headSymbol?.bind SpecialForm.ofName? with
  -- a form even as a leaf
  | some .apply => evalApply eval e.tail
  | form? =>
      if e.isLeaf && !e.isList then evalLeaf e
      else
        match form? with
        | some form => evalForm eval form e.tail
        | none => evalCall eval e

/-- Evaluate with at most `depth` evaluations inside one another. -/
def evalWithin (limit : Nat) : Nat → Expr → EvalM Expr
  | 0, _ => throw (runtime.fault (.recursionLimit limit))
  | depth + 1, e => step (evalWithin limit depth) e

end Evaluation

/-- The limit on nested evaluations unless another is set. -/
def defaultLimit : Nat := 1000

/-- Evaluate an expression in an environment. -/
def evaluate (limit : Nat) (e : Expr) (env : Environment) : Except Fault Expr × Environment :=
  (Evaluation.evalWithin limit limit e).outcome env

end PlotLisp
