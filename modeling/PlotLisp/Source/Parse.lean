/-
  PlotLisp.Source.Parse
  ──────────────────────────────────────
  **PROGRAMS.**

  A program is one expression: an opening parenthesis, a head atom, any
  number of atoms and expressions, and a closing parenthesis.

  The parser is a fold over the tokens with the open expressions on a stack.
  The first token that cannot continue a program decides the error: where it
  starts, and what should have stood there.
-/
import PlotLisp.Expr.Basic
import PlotLisp.Source.Token

namespace PlotLisp.Source

/-! ## §1. Errors. -/

/-- What should have stood where a text stops being a program. -/
inductive Expectation where
  /-- The opening parenthesis of the program. -/
  | expression
  /-- The head of the expression just opened. -/
  | head
  /-- A child of an open expression. -/
  | child
  /-- Nothing more. -/
  | nothing
deriving DecidableEq, Repr

/-- Where a text stops being a program, and why. -/
structure ParseError where
  offset : Nat
  expected : Expectation
deriving DecidableEq, Repr

/-! ## §2. The parser. -/

/-- An open expression: its head, and its children so far, last one first. -/
structure Open where
  head : Atom
  children : List Expr
deriving DecidableEq, Repr

/-- How far a program has been read. -/
inductive Progress where
  /-- Before the program. -/
  | before
  /-- Right after an opening parenthesis inside these open expressions. -/
  | opened (outer : List Open)
  /-- Among the children of `current`, inside these open expressions. -/
  | inside (current : Open) (outer : List Open)
  /-- After the program. -/
  | after (program : Expr)
  /-- Past the first error. -/
  | failed (error : ParseError)
deriving DecidableEq, Repr

/-- The atom that a lexeme spells. -/
def Lexeme.atom? : Lexeme → Option Atom
  | .number x => some (.number x)
  | .symbol name => some (.symbol name)
  | .string contents => some (.string contents)
  | .opening | .closing | .invalid => none

namespace Progress

/-- A finished expression becomes the last child of the one around it, or the
program. -/
def close (e : Expr) : List Open → Progress
  | [] => .after e
  | ⟨head, children⟩ :: outer => .inside ⟨head, e :: children⟩ outer

/-- What should come next. -/
def expected : Progress → Expectation
  | .before => .expression
  | .opened _ => .head
  | .inside _ _ => .child
  | .after _ => .nothing
  | .failed error => error.expected

/-- Read one lexeme, unless it cannot stand here. -/
def take? : Progress → Lexeme → Option Progress
  | .before, .opening => some (.opened [])
  | .opened outer, lexeme => lexeme.atom?.map fun head => .inside ⟨head, []⟩ outer
  | .inside current outer, .opening => some (.opened (current :: outer))
  | .inside ⟨head, children⟩ outer, .closing =>
      some (close (.node head children.reverse []) outer)
  | .inside ⟨head, children⟩ outer, lexeme =>
      lexeme.atom?.map fun a => .inside ⟨head, .atom a :: children⟩ outer
  | .before, _ | .after _, _ | .failed _, _ => none

/-- Read one token. -/
def push (p : Progress) (token : Token) : Progress :=
  match p with
  | .failed error => .failed error
  | p => (p.take? token.lexeme).getD (.failed ⟨token.offset, p.expected⟩)

/-- The program of a text that ends here, at the offset `size`. -/
def finish (size : Nat) : Progress → Except ParseError Expr
  | .after program => .ok program
  | .failed error => .error error
  | p => .error ⟨size, p.expected⟩

end Progress

/-- Read a program. -/
def parseChars (chars : List Char) : Except ParseError Expr :=
  ((tokens chars).foldl Progress.push .before).finish (byteLength chars)

/-- Read a program text. -/
def parse (text : String) : Except ParseError Expr := parseChars text.toList

end PlotLisp.Source
