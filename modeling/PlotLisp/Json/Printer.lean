/-
  PlotLisp.Json.Printer
  ──────────────────────────────────────
  **WRITING JSON.**

  Two layouts of the same tokens:

    • compact — no blanks at all;
    • pretty  — one member or item a line, two blanks a level; nothing inside
      an empty array or object.

  Only quotes, backslashes and control characters are escaped.
-/
import PlotLisp.Json.Value

namespace PlotLisp.Json

/-! ## §1. Strings. -/

/-- A code as four hexadecimal digits. -/
def hexText (code : Nat) : String :=
  let digits := Nat.toDigits 16 code
  String.ofList (List.replicate (4 - digits.length) '0' ++ digits)

/-- A code inside a string. -/
def codeText (code : Nat) : String :=
  if code = 0x22 then "\\\""
  else if code = 0x5C then "\\\\"
  else if code = 0x08 then "\\b"
  else if code = 0x09 then "\\t"
  else if code = 0x0A then "\\n"
  else if code = 0x0C then "\\f"
  else if code = 0x0D then "\\r"
  else if code < 0x20 || Codes.isLeading code || Codes.isTrailing code then "\\u" ++ hexText code
  else String.singleton (Char.ofNat code)

/-- A string with its quotes. -/
def quoted (codes : Codes) : String := "\"" ++ String.join (codes.map codeText) ++ "\""

/-! ## §2. Compact. -/

mutual

/-- The value without blanks. -/
def compact : Json → String
  | .null => "null"
  | .bool value => if value then "true" else "false"
  | .number value => String.ofList value.chars
  | .string codes => quoted codes
  | .array items => "[" ++ String.intercalate "," (compactItems items) ++ "]"
  | .object members => "\x7b" ++ String.intercalate "," (compactMembers members) ++ "\x7d"

/-- The items of an array. -/
def compactItems : List Json → List String
  | [] => []
  | item :: rest => compact item :: compactItems rest

/-- The members of an object. -/
def compactMembers : List (Codes × Json) → List String
  | [] => []
  | (key, value) :: rest => (quoted key ++ ":" ++ compact value) :: compactMembers rest

end

/-! ## §3. Pretty. -/

/-- A new line at a depth of nesting. -/
def newline (depth : Nat) : String := "\n" ++ String.ofList (List.replicate (2 * depth) ' ')

/-- Parts between brackets, each on a line of its own. -/
def bracketed (depth : Nat) (opening closing : String) : List String → String
  | [] => opening ++ closing
  | parts =>
      opening ++ newline (depth + 1) ++ String.intercalate ("," ++ newline (depth + 1)) parts
        ++ newline depth ++ closing

mutual

/-- The value in lines, inside `depth` brackets. -/
def prettyAt (depth : Nat) : Json → String
  | .array items => bracketed depth "[" "]" (prettyItems depth items)
  | .object members => bracketed depth "\x7b" "\x7d" (prettyMembers depth members)
  | .null => "null"
  | .bool value => if value then "true" else "false"
  | .number value => String.ofList value.chars
  | .string codes => quoted codes

/-- The items of an array inside `depth` brackets. -/
def prettyItems (depth : Nat) : List Json → List String
  | [] => []
  | item :: rest => prettyAt (depth + 1) item :: prettyItems depth rest

/-- The members of an object inside `depth` brackets. -/
def prettyMembers (depth : Nat) : List (Codes × Json) → List String
  | [] => []
  | (key, value) :: rest =>
      (quoted key ++ ": " ++ prettyAt (depth + 1) value) :: prettyMembers depth rest

end

/-- The value in lines. -/
def pretty (value : Json) : String := prettyAt 0 value

end PlotLisp.Json
