/-
  PlotLisp.Json.Token
  ──────────────────────────────────────
  **TOKENS OF JSON.**

  Brackets, braces, colons and commas stand for themselves; a string runs to
  the next quote that no backslash precedes and holds no control character; a
  word is a maximal run of other characters than blanks and these, and is a
  numeral or one of `null`, `true` and `false`.
-/
import PlotLisp.Json.Value

namespace PlotLisp.Json

/-! ## §1. Tokens. -/

/-- A smallest unit of a JSON text. -/
inductive Token where
  | openArray
  | closeArray
  | openObject
  | closeObject
  | colon
  | comma
  | string (codes : Codes)
  | literal (value : Json)
  | invalid
deriving Repr

/-- May the character stand between tokens? -/
def isBlank (c : Char) : Bool := c = ' ' || c = '\t' || c = '\n' || c = '\r'

/-- The token of a character that stands for itself. -/
def punctuation? (c : Char) : Option Token :=
  if c = '[' then some .openArray
  else if c = ']' then some .closeArray
  else if c = '\x7b' then some .openObject
  else if c = '\x7d' then some .closeObject
  else if c = ':' then some .colon
  else if c = ',' then some .comma
  else none

/-- What a word is. -/
def Token.ofWord (word : List Char) : Token :=
  if word = "null".toList then .literal .null
  else if word = "true".toList then .literal (.bool true)
  else if word = "false".toList then .literal (.bool false)
  else
    match Numeral.ofWord? word with
    | some value => .literal (.number value)
    | none => .invalid

/-- The code of a one-letter escape. -/
def escaped? (c : Char) : Option Nat :=
  if c = '"' || c = '\\' || c = '/' then some c.toNat
  else if c = 'b' then some 0x08
  else if c = 'f' then some 0x0C
  else if c = 'n' then some 0x0A
  else if c = 'r' then some 0x0D
  else if c = 't' then some 0x09
  else none

/-- The value of a hexadecimal digit. -/
def hexDigit? (c : Char) : Option Nat :=
  if '0' ≤ c && c ≤ '9' then some (c.toNat - '0'.toNat)
  else if 'a' ≤ c && c ≤ 'f' then some (c.toNat - 'a'.toNat + 10)
  else if 'A' ≤ c && c ≤ 'F' then some (c.toNat - 'A'.toNat + 10)
  else none

/-! ## §2. The scanner. -/

/-- Where the scanner is.  Characters and codes read so far are held last one
first; `code` counts the hexadecimal digits still missing. -/
inductive Mode where
  | between
  | word (chars : List Char)
  | string (codes : Codes)
  | escape (codes : Codes)
  | code (codes : Codes) (missing value : Nat)
  | broken
deriving DecidableEq, Repr

/-- A scan in progress: the tokens found so far, last one first. -/
structure Scanner where
  mode : Mode
  found : List Token
deriving Repr

namespace Scanner

/-- Nothing read yet. -/
def initial : Scanner := ⟨.between, []⟩

/-- The scan at a character that belongs to no token before it. -/
def beginAt (found : List Token) (c : Char) : Scanner :=
  if isBlank c then ⟨.between, found⟩
  else if c = '"' then ⟨.string [], found⟩
  else
    match punctuation? c with
    | some token => ⟨.between, token :: found⟩
    | none => ⟨.word [c], found⟩

/-- Read one character. -/
def push (s : Scanner) (c : Char) : Scanner :=
  match s.mode with
  | .between => beginAt s.found c
  | .word chars =>
      if isBlank c || c = '"' || (punctuation? c).isSome then
        beginAt (.ofWord chars.reverse :: s.found) c
      else { s with mode := .word (c :: chars) }
  | .string codes =>
      if c = '"' then ⟨.between, .string codes.reverse :: s.found⟩
      else if c = '\\' then { s with mode := .escape codes }
      else if c.toNat < 0x20 then { s with mode := .broken }
      else { s with mode := .string (c.toNat :: codes) }
  | .escape codes =>
      if c = 'u' then { s with mode := .code codes 4 0 }
      else
        match escaped? c with
        | some code => { s with mode := .string (code :: codes) }
        | none => { s with mode := .broken }
  | .code codes missing value =>
      match hexDigit? c with
      | some digit =>
          let value := 16 * value + digit
          if missing ≤ 1 then { s with mode := .string (value :: codes) }
          else { s with mode := .code codes (missing - 1) value }
      | none => { s with mode := .broken }
  | .broken => s

/-- The tokens of a text that ends here, first one first. -/
def finish (s : Scanner) : List Token :=
  match s.mode with
  | .between => s.found.reverse
  | .word chars => (.ofWord chars.reverse :: s.found).reverse
  | _ => (.invalid :: s.found).reverse

end Scanner

/-- The tokens of a text. -/
def tokens (chars : List Char) : List Token := (chars.foldl Scanner.push .initial).finish

end PlotLisp.Json
