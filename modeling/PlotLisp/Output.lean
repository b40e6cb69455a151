/-
  PlotLisp.Output
  ──────────────────────────────────────
  **OUTPUTS.**

  What a session answers a program with: its result, or an error message.
  As JSON it is an object with the one key `result` or `error`.
-/
import PlotLisp.Fault
import PlotLisp.Json.ExprCodec

namespace PlotLisp

/-- The answer to a program. -/
inductive Output where
  | result (value : Expr)
  | error (message : String)
deriving DecidableEq, Repr

namespace Output

/-- Is it an error message? -/
def isError : Output → Bool
  | .result _ => false
  | .error _ => true

/-- The answer that an evaluation's outcome makes. -/
def ofOutcome : Except Fault Expr → Output
  | .ok value => .result value
  | .error f => .error f.message

/-- The JSON text of an answer. -/
def toJson (output : Output) : String :=
  let member :=
    match output with
    | .result value => Json.member "result" (Json.ofExpr .sorted value)
    | .error message => Json.member "error" (Json.ofString message)
  (Json.object [member]).compact

/-- Read an answer from a JSON value. -/
def ofValue? : Json → Option Output
  | .object [(key, value)] =>
      match key.text? with
      | some "result" => (Json.expr? (Json.nestingLimit - 1) value).map .result
      | some "error" => value.text?.map .error
      | _ => none
  | _ => none

/-- Read an answer from a JSON text. -/
def ofJson? (text : String) : Option Output := (Json.parse? text).bind ofValue?

end Output

end PlotLisp
