/-
  PlotLisp.Source.Report
  ──────────────────────────────────────
  **REPORTING TEXTS THAT ARE NO PROGRAM.**

  A text that is no program is blamed at the offset where it stops being one.
  The detail of the report is picked by searching for a phrase in the
  expectation together with the quoted source line.
-/
import PlotLisp.Fault
import PlotLisp.Source.Parse

namespace PlotLisp

/-! ## §1. Details. -/

namespace Source

/-- The line around the byte `offset`; `line` holds the characters of the line
before it, last one first. -/
def lineFrom : Nat → List Char → List Char → List Char
  | _, line, [] => line.reverse
  | offset, line, c :: rest =>
      -- the offset is reached: the rest of its line
      if offset = 0 then line.reverse ++ (c :: rest).takeWhile (· ≠ '\n')
      else lineFrom (offset - c.utf8Size) (if c = '\n' then [] else c :: line) rest

/-- The line around the byte `offset` as it is quoted, without carriage
returns. -/
def quotedLine (chars : List Char) (offset : Nat) : List Char :=
  (lineFrom offset [] chars).filter (· ≠ '\r')

/-- Does `phrase` occur in the text? -/
def occurs (phrase : List Char) : List Char → Bool
  | [] => phrase.isEmpty
  | c :: rest => phrase.isPrefixOf (c :: rest) || occurs phrase rest

/-- The phrase of an expectation. -/
def Expectation.phrase : Expectation → String
  | .nothing => "expected EOI"
  | .head => "expected number, string, or symbol"
  | .expression => "expected expression"
  | .child => "expected expression, number, string, or symbol"

/-- Does a phrase occur in the quoted line or in the expectation's own phrase? -/
def ParseError.mentions (error : ParseError) (chars : List Char) (phrase : Expectation) : Bool :=
  occurs phrase.phrase.toList (quotedLine chars error.offset)
    || occurs phrase.phrase.toList error.expected.phrase.toList

/-- The detail of a parse error, by the first phrase that is found. -/
def ParseError.detail (error : ParseError) (chars : List Char) : ParseDetail :=
  if error.mentions chars .nothing then .oneExpression
  else if error.mentions chars .head then .atom
  else .expression

end Source

/-! ## §2. Reports. -/

namespace Fault

/-- A text that is no program, blamed where it stops being one. -/
def ofParseError (source : SourceText) (error : Source.ParseError) : Fault :=
  (parsing source).report (.malformed (error.detail source.text.toList)) ⟨error.offset, 0⟩

/-- An evaluation asked for without a program. -/
def noProgram : Fault := (parsing ⟨inputName, ""⟩).fault (.malformed .noProgram)

end Fault

/-- Read a program from a source. -/
def SourceText.parse (source : SourceText) : Except Fault Expr :=
  match Source.parse source.text with
  | .ok program => .ok program
  | .error error => .error (.ofParseError source error)

end PlotLisp
