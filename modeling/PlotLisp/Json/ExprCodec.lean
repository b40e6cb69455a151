/-
  PlotLisp.Json.ExprCodec
  ──────────────────────────────────────
  **EXPRESSIONS AS JSON.**

  A node is an object with a `head`, a `tail` unless it is a leaf, and
  `properties` if it has any; an atom is an object with a `type` and, unless
  it is none, a `value`.  A number that is not finite is written as `null`
  and cannot be read back.

  Reading is more liberal than writing:

    • keys come in any order, unknown ones are ignored, known ones may not be
      repeated; of a repeated property key the last value counts;
    • a node or an atom may be an array of its fields instead;
    • nesting is limited: reading opens at most 127 brackets inside one
      another.
-/
import PlotLisp.Expr.Basic
import PlotLisp.Json.Parse
import PlotLisp.Json.Printer

namespace PlotLisp

namespace Json

/-! ## §1. Writing. -/

/-- The order in which the fields of a node are written. -/
inductive FieldOrder where
  /-- Head, tail, properties. -/
  | declared
  /-- By name: head, properties, tail. -/
  | sorted
deriving DecidableEq, Repr

/-- A member with a text for a key. -/
def member (key : String) (value : Json) : Codes × Json := (Codes.ofString key, value)

/-- A number, or `null` if it is not finite. -/
def ofFloat (x : Float) : Json :=
  match Numeral.ofFloat? x with
  | some n => .number n
  | none => .null

/-- An object that tells its type, with a value if there is one. -/
def typed (typeName : String) (value : Option Json) : Json :=
  .object (member "type" (ofString typeName) :: (value.map (member "value")).toList)

/-- An atom with its type. -/
def ofAtom : Atom → Json
  | .none => typed "none" none
  | .number x => typed "number" (some (ofFloat x))
  | .complex z => typed "complex" (some (.array [ofFloat z.re, ofFloat z.im]))
  | .symbol name => typed "symbol" (some (ofString name))
  | .string contents => typed "string" (some (ofString contents))

mutual

/-- A node with its fields. -/
def ofExpr (order : FieldOrder) : Expr → Json
  | .node head tail props =>
      let head := [member "head" (ofAtom head)]
      let tail := if tail.isEmpty then [] else [member "tail" (.array (ofExprs order tail))]
      let props :=
        if props.isEmpty then [] else [member "properties" (.object (ofProps order props))]
      match order with
      | .declared => .object (head ++ tail ++ props)
      | .sorted => .object (head ++ props ++ tail)

/-- Nodes, in order. -/
def ofExprs (order : FieldOrder) : List Expr → List Json
  | [] => []
  | e :: es => ofExpr order e :: ofExprs order es

/-- Properties, in order. -/
def ofProps (order : FieldOrder) : List (String × Expr) → List (Codes × Json)
  | [] => []
  | (key, e) :: rest => member key (ofExpr order e) :: ofProps order rest

end

/-! ## §2. Reading fields. -/

/-- How many brackets may be open inside one another. -/
def nestingLimit : Nat := 127

/-- The text of a string value. -/
def text? : Json → Option String
  | .string codes => codes.text?
  | _ => none

/-- The double of a number value. -/
def float? : Json → Option Float
  | .number n => n.toFloat?
  | _ => none

/-- The members with their keys as texts, if all keys are. -/
def keyed? (members : List (Codes × Json)) : Option (List (String × Json)) :=
  members.mapM fun (key, value) => key.text?.map fun key => (key, value)

/-- The values under a key, which may occur once at most. -/
def field? (key : String) (members : List (String × Json)) : Option (Option Json) :=
  match members.filter fun m => m.1 == key with
  | [] => some none
  | [(_, value)] => some (some value)
  | _ => none

/-! ## §3. Reading atoms. -/

/-- The name of a type: a string, or an object with that name alone for a key,
over `null`. -/
def typeName? (depth : Nat) : Json → Option String
  | .string codes => codes.text?
  | .object [(key, .null)] => if depth = 0 then none else key.text?
  | _ => none

/-- The atom of a type and a value, inside which `depth` brackets may be
opened. -/
def atomOf? (depth : Nat) (typeName : String) (value : Option Json) : Option Atom :=
  match typeName, value with
  | "none", none | "none", some .null => some .none
  | "number", some value => value.float?.map .number
  | "complex", some (.array [re, im]) =>
      if depth = 0 then none
      else
        match re.float?, im.float? with
        | some re, some im => some (.complex ⟨re, im⟩)
        | _, _ => none
  | "symbol", some value => value.text?.map .symbol
  | "string", some value => value.text?.map .string
  | _, _ => none

/-- Read an atom where `depth` brackets may be opened. -/
def atom? (depth : Nat) (j : Json) : Option Atom :=
  match depth, j with
  | depth + 1, .object members => do
      let members ← keyed? members
      let typeName ← (← field? "type" members).bind (typeName? depth)
      atomOf? depth typeName (← field? "value" members)
  | depth + 1, .array [typeName, value] => do
      atomOf? depth (← typeName? depth typeName) (some value)
  | _, _ => none

/-! ## §4. Reading nodes. -/

/-- Properties from their members; a repeated key has its last value. -/
def propsOf (members : List (String × Expr)) : List (String × Expr) :=
  members.foldl (fun props (key, value) => Expr.insertProp key value props) []

/-- The items of a field that is an array; a missing field has none.  `read?` reads
what stands inside a bracket, if one may be opened at all. -/
def tailOf? (read? : Option (Json → Option Expr)) : Option Json → Option (List Expr)
  | none => some []
  | some (.array items) => do items.mapM (← read?)
  | some _ => none

/-- The properties of a field that is an object; a missing field and `null` have
none. -/
def propsOf? (read? : Option (Json → Option Expr)) :
    Option Json → Option (List (String × Expr))
  | none | some .null => some []
  | some (.object members) => do
      let read ← read?
      let members ← keyed? members
      return propsOf (← members.mapM fun (key, value) => (read value).map fun e => (key, e))
  | some _ => none

/-- The fields of a node: head, tail and properties as far as they are given. -/
def fields? : Json → Option (Json × Option Json × Option Json)
  | .object members => do
      let members ← keyed? members
      return (← (← field? "head" members), ← field? "tail" members, ← field? "properties" members)
  | .array [head] => some (head, none, none)
  | .array [head, tail] => some (head, some tail, none)
  | .array [head, tail, props] => some (head, some tail, some props)
  | _ => none

/-- Read a node where `depth` brackets may be opened. -/
def expr? : Nat → Json → Option Expr
  | 0, _ => none
  | depth + 1, j => do
      -- a field opens a bracket of its own before its nodes do
      let read? : Option (Json → Option Expr) :=
        match depth with
        | 0 => none
        | depth + 1 => some (expr? depth)
      let (head, tail, props) ← fields? j
      return .node (← atom? depth head) (← tailOf? read? tail) (← propsOf? read? props)

end Json

/-! ## §5. Expressions. -/

/-- The JSON text of an expression, fields by name. -/
def Expr.toJson (e : Expr) : String := (Json.ofExpr .sorted e).compact

/-- The JSON text of an expression in lines, fields as declared. -/
def Expr.toPrettyJson (e : Expr) : String := (Json.ofExpr .declared e).pretty

/-- Read an expression from a JSON text. -/
def Expr.ofJson? (text : String) : Option Expr :=
  (Json.parse? text).bind (Json.expr? Json.nestingLimit)

end PlotLisp
