/-
  PlotLisp.Json.Parse
  ──────────────────────────────────────
  **READING JSON.**

  A JSON text is one value with blanks around it.  The parser is a fold over
  the tokens with the open arrays and objects on a stack, so no nesting is
  too deep for it.
-/
import PlotLisp.Json.Token

namespace PlotLisp.Json

/-! ## §1. States. -/

/-- An open array or object, what it holds so far last one first; an object
waits for the value of `key`. -/
inductive Open where
  | array (items : List Json)
  | object (members : List (Codes × Json)) (key : Codes)
deriving Repr

/-- How far a text has been read. -/
inductive Progress where
  /-- A value must follow. -/
  | awaitValue (outer : List Open)
  /-- A value or the end of the array just opened. -/
  | awaitItem (outer : List Open)
  /-- After an item of an array. -/
  | afterItem (items : List Json) (outer : List Open)
  /-- A key or the end of the object just opened. -/
  | awaitMember (outer : List Open)
  /-- A key must follow. -/
  | awaitKey (members : List (Codes × Json)) (outer : List Open)
  /-- A colon must follow the key. -/
  | awaitColon (members : List (Codes × Json)) (key : Codes) (outer : List Open)
  /-- After a member of an object. -/
  | afterMember (members : List (Codes × Json)) (outer : List Open)
  /-- After the whole value. -/
  | done (value : Json)
  | failed
deriving Repr

namespace Progress

/-! ## §2. Steps. -/

/-- A finished value goes into the array or object around it. -/
def close (value : Json) : List Open → Progress
  | [] => .done value
  | .array items :: outer => .afterItem (value :: items) outer
  | .object members key :: outer => .afterMember ((key, value) :: members) outer

/-- Read the first token of a value. -/
def beginValue (outer : List Open) : Token → Progress
  | .openArray => .awaitItem outer
  | .openObject => .awaitMember outer
  | .string codes => close (.string codes) outer
  | .literal value => close value outer
  | _ => .failed

/-- Read one token. -/
def push : Progress → Token → Progress
  | .awaitValue outer, token => beginValue outer token
  | .awaitItem outer, .closeArray => close (.array []) outer
  | .awaitItem outer, token => beginValue (.array [] :: outer) token
  | .afterItem items outer, .comma => .awaitValue (.array items :: outer)
  | .afterItem items outer, .closeArray => close (.array items.reverse) outer
  | .awaitMember outer, .closeObject => close (.object []) outer
  | .awaitMember outer, .string codes => .awaitColon [] codes outer
  | .awaitKey members outer, .string codes => .awaitColon members codes outer
  | .awaitColon members key outer, .colon => .awaitValue (.object members key :: outer)
  | .afterMember members outer, .comma => .awaitKey members outer
  | .afterMember members outer, .closeObject => close (.object members.reverse) outer
  | _, _ => .failed

/-- The value of a text that ends here. -/
def finish? : Progress → Option Json
  | .done value => some value
  | _ => none

end Progress

/-- Read a JSON text. -/
def parse? (text : String) : Option Json :=
  ((tokens text.toList).foldl Progress.push (.awaitValue [])).finish?

end PlotLisp.Json
