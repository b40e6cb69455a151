/-
  PlotLisp.Source.Token
  ──────────────────────────────────────
  **TOKENS.**

  A program text is blanks, comments and tokens:

    • blanks are space, tab, carriage return and line feed; a comment runs
      from `;` to the next line feed or the end;
    • a word is a maximal run of other characters than blanks, parentheses,
      `"` and `;`; it is a number, or a symbol when it does not start like a
      number, or else invalid;
    • a string runs to the next `"` that no backslash precedes; one that
      does not end is invalid.

  The scanner is a fold over the characters.  Offsets count UTF-8 bytes.
-/
import PlotLisp.Number.Reading

namespace PlotLisp.Source

/-! ## §1. Characters. -/

/-- May the character stand between tokens? -/
def isBlank (c : Char) : Bool := c = ' ' || c = '\t' || c = '\r' || c = '\n'

/-- Does the character end a word? -/
def isDelimiter (c : Char) : Bool :=
  isBlank c || c = '(' || c = ')' || c = '"' || c = ';'

/-! ## §2. Tokens. -/

/-- A smallest unit of a program text. -/
inductive Lexeme where
  | opening
  | closing
  | number (value : Float)
  | symbol (name : String)
  | string (contents : String)
  | invalid
deriving DecidableEq, Repr

/-- A lexeme and the offset at which it starts. -/
structure Token where
  offset : Nat
  lexeme : Lexeme
deriving DecidableEq, Repr

/-- What a word is. -/
def Lexeme.ofWord (word : List Char) : Lexeme :=
  match readNumber? word with
  | some x => .number x
  | none => if startsLikeNumber word then .invalid else .symbol (String.ofList word)

/-- What a backslash and the character after it stand for, last character
first; an unknown escape stands for itself. -/
def unescape (c : Char) : List Char :=
  if c = 'n' then ['\n']
  else if c = 't' then ['\t']
  else if c = '\\' then ['\\']
  else if c = '"' then ['"']
  else [c, '\\']

/-! ## §3. The scanner. -/

/-- Where the scanner is.  Characters read so far are held last one first. -/
inductive Mode where
  | between
  | comment
  | word (start : Nat) (chars : List Char)
  | string (start : Nat) (chars : List Char)
  | escape (start : Nat) (chars : List Char)
deriving DecidableEq, Repr

/-- A scan in progress: the offset of the next character, and the tokens found
so far, last one first. -/
structure Scanner where
  mode : Mode
  offset : Nat
  found : List Token
deriving DecidableEq, Repr

namespace Scanner

/-- Nothing read yet. -/
def initial : Scanner := ⟨.between, 0, []⟩

/-- The scan at a character that belongs to no token before it. -/
def beginAt (s : Scanner) (c : Char) : Scanner :=
  if isBlank c then { s with mode := .between }
  else if c = ';' then { s with mode := .comment }
  else if c = '(' then { s with mode := .between, found := ⟨s.offset, .opening⟩ :: s.found }
  else if c = ')' then { s with mode := .between, found := ⟨s.offset, .closing⟩ :: s.found }
  else if c = '"' then { s with mode := .string s.offset [] }
  else { s with mode := .word s.offset [c] }

/-- Take a finished word into the tokens. -/
def endWord (s : Scanner) (start : Nat) (chars : List Char) : Scanner :=
  { s with mode := .between, found := ⟨start, .ofWord chars.reverse⟩ :: s.found }

/-- Take a finished string into the tokens. -/
def endString (s : Scanner) (start : Nat) (chars : List Char) : Scanner :=
  { s with
    mode := .between
    found := ⟨start, .string (String.ofList chars.reverse)⟩ :: s.found }

/-- Read one character without counting it. -/
def take (s : Scanner) (c : Char) : Scanner :=
  match s.mode with
  | .between => s.beginAt c
  | .comment => if c = '\n' then { s with mode := .between } else s
  | .word start chars =>
      if isDelimiter c then (s.endWord start chars).beginAt c
      else { s with mode := .word start (c :: chars) }
  | .string start chars =>
      if c = '"' then s.endString start chars
      else if c = '\\' then { s with mode := .escape start chars }
      else { s with mode := .string start (c :: chars) }
  | .escape start chars => { s with mode := .string start (unescape c ++ chars) }

/-- Read one character. -/
def push (s : Scanner) (c : Char) : Scanner :=
  { s.take c with offset := s.offset + c.utf8Size }

/-- The tokens of a text that ends here, first one first. -/
def finish (s : Scanner) : List Token :=
  match s.mode with
  | .between | .comment => s.found.reverse
  | .word start chars => (s.endWord start chars).found.reverse
  | .string start _ | .escape start _ => (⟨start, .invalid⟩ :: s.found).reverse

end Scanner

/-- The tokens of a text. -/
def tokens (chars : List Char) : List Token := (chars.foldl Scanner.push .initial).finish

/-- The length of a text in bytes. -/
def byteLength (chars : List Char) : Nat := chars.foldl (fun n c => n + c.utf8Size) 0

end PlotLisp.Source
