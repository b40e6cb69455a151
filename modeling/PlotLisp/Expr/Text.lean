/-
  PlotLisp.Expr.Text
  ──────────────────────────────────────
  **PRINTED EXPRESSIONS.**

  How a result is shown:

    • nothing prints as `NONE`, a leaf as its atom in parentheses (a complex
      number brings its own);
    • a list shows its elements only, a lambda its parameters and its body;
    • anything else shows its head, then its children.
-/
import PlotLisp.Expr.Basic

namespace PlotLisp.Expr

/-! ## §1. Parts. -/

/-- Texts with one blank between neighbours. -/
def spaced (texts : List String) : String := String.intercalate " " texts

/-- A text in parentheses. -/
def parenthesised (text : String) : String := "(" ++ text ++ ")"

/-- The heads of the nodes, as a parameter list shows them. -/
def headTexts (nodes : List Expr) : String := spaced (nodes.map fun e => e.head.text)

/-- The printed leaf. -/
def leafText : Atom → String
  | .none => Atom.text .none
  | .complex z => Atom.text (.complex z)
  | head => parenthesised head.text

/-! ## §2. The printer. -/

mutual

/-- The printed expression. -/
def text : Expr → String
  | .node head tail props =>
      let shape := Expr.node head tail props
      if shape.isLambda then
        match tail with
        | [params, body] =>
            parenthesised (parenthesised (headTexts params.tail) ++ " " ++ text body)
        | _ => leafText head
      else if shape.isList then parenthesised (spaced (texts tail))
      else if shape.isLeaf then leafText head
      else parenthesised (head.text ++ " " ++ spaced (texts tail))

/-- The printed expressions. -/
def texts : List Expr → List String
  | [] => []
  | e :: es => text e :: texts es

end

end PlotLisp.Expr
