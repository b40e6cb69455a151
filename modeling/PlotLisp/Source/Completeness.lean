/-
  PlotLisp.Source.Completeness
  ──────────────────────────────────────
  **IS A TEXT READY TO BE EVALUATED?**

  Someone who types a program line by line is asked for more as long as a
  parenthesis or a string is open.  The test counts parentheses outside
  strings and comments; it does not parse.
-/
import PlotLisp.Source.Whitespace

namespace PlotLisp.Source

/-- Where the count is. -/
inductive Region where
  | code
  | comment
  | string
  | escape
deriving DecidableEq, Repr

/-- Open parentheses less closing ones so far, and where the count is. -/
structure Balance where
  depth : Int
  region : Region
deriving DecidableEq, Repr

namespace Balance

/-- Nothing counted yet. -/
def initial : Balance := ⟨0, .code⟩

/-- Count one character. -/
def push (b : Balance) (c : Char) : Balance :=
  match b.region with
  | .comment => if c = '\n' then { b with region := .code } else b
  | .escape => { b with region := .string }
  | .string =>
      if c = '\\' then { b with region := .escape }
      else if c = '"' then { b with region := .code }
      else b
  | .code =>
      if c = '"' then { b with region := .string }
      else if c = ';' then { b with region := .comment }
      else if c = '(' then { b with depth := b.depth + 1 }
      else if c = ')' then { b with depth := b.depth - 1 }
      else b

/-- Is nothing open? -/
def isClosed (b : Balance) : Bool :=
  b.depth ≤ 0 && b.region != .string && b.region != .escape

end Balance

/-- Is something typed, and nothing left open? -/
def isComplete (chars : List Char) : Bool :=
  let typed := trim chars
  !typed.isEmpty && (typed.foldl Balance.push .initial).isClosed

end PlotLisp.Source
