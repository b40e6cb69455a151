/-
  PlotLisp.Expr.Same
  ──────────────────────────────────────
  **SAMENESS OF VALUES.**

  Two values are the same when their heads are the same (numbers up to one
  `epsilon`) and their children are the same in order.  Properties play no
  part.
-/
import PlotLisp.Expr.Basic

namespace PlotLisp.Expr

mutual

/-- Are the trees the same value? -/
def same : Expr → Expr → Bool
  | .node h t _, .node h' t' _ => h.same h' && sameAll t t'

/-- Are the lists of trees the same, element by element? -/
def sameAll : List Expr → List Expr → Bool
  | [], [] => true
  | a :: as, b :: bs => same a b && sameAll as bs
  | _, _ => false

end

end PlotLisp.Expr
