/-
  PlotLisp.Json.Value
  ──────────────────────────────────────
  **JSON VALUES.**

  A JSON text denotes a tree of numerals, strings, arrays and objects.
  Strings are kept as the codes they spell: `\u` escapes can spell halves of a
  character (surrogates), and only a use of the string decides whether they
  pair up.
-/
import PlotLisp.Json.Numeral

namespace PlotLisp

/-! ## §1. The type. -/

/-- The codes of a string: code points, or halves of one. -/
abbrev Codes := List Nat

/-- A JSON value.  Members of an object stay in order, repeated keys
included. -/
inductive Json where
  | null
  | bool (value : Bool)
  | number (value : Numeral)
  | string (codes : Codes)
  | array (items : List Json)
  | object (members : List (Codes × Json))
deriving Repr, Inhabited

/-! ## §2. Strings. -/

namespace Codes

/-- The codes of a text. -/
def ofString (text : String) : Codes := text.toList.map Char.toNat

/-- First halves of a character. -/
def isLeading (code : Nat) : Bool := 0xD800 ≤ code && code < 0xDC00

/-- Second halves of a character. -/
def isTrailing (code : Nat) : Bool := 0xDC00 ≤ code && code < 0xE000

/-- The character of two halves. -/
def joined (leading trailing : Nat) : Char :=
  Char.ofNat (0x10000 + (leading - 0xD800) * 0x400 + (trailing - 0xDC00))

/-- The characters that the codes spell, if all halves pair up. -/
def chars? : Codes → Option (List Char)
  | [] => some []
  | [code] => if isLeading code || isTrailing code then none else some [Char.ofNat code]
  | code :: next :: rest =>
      if isLeading code then
        if isTrailing next then (chars? rest).map (joined code next :: ·) else none
      else if isTrailing code then none
      else (chars? (next :: rest)).map (Char.ofNat code :: ·)

/-- The text that the codes spell, if all halves pair up. -/
def text? (codes : Codes) : Option String := (chars? codes).map String.ofList

end Codes

/-- A string value. -/
def Json.ofString (text : String) : Json := .string (Codes.ofString text)

end PlotLisp
