/-
  PlotLisp.Procedure.Lists
  ──────────────────────────────────────
  **LISTS.**

  Procedures that take lists apart and put them together.  Each gives a new
  list; properties of the elements stay, those of the list itself do not.
-/
import PlotLisp.Number.Grid
import PlotLisp.Number.Shortest
import PlotLisp.Procedure.Arguments

namespace PlotLisp.Lists

/-! ## §1. Taking apart. -/

/-- The first element. -/
def first : List Expr → Except Fault Expr
  | [e] => (e.asNonempty "first").map Prod.fst
  | args => .error (runtime.fault (.argument "first" (.exactly 1) args.length))

/-- All elements but the first. -/
def rest : List Expr → Except Fault Expr
  | [e] => (e.asNonempty "rest").map fun items => .list items.2
  | args => .error (runtime.fault (.argument "rest" (.exactly 1) args.length))

/-- The count of elements. -/
def length : List Expr → Except Fault Expr
  | [e] => (e.asItems "length").map fun items => .number (Float.ofNat items.length)
  | args => .error (runtime.fault (.argument "length" (.exactly 1) args.length))

/-! ## §2. Putting together. -/

/-- A list with at least one element and, at its end, one more value; the
elements of a list are added one by one. -/
def append : List Expr → Except Fault Expr
  | [e, value] => do
      let (first, rest) ← e.asNonempty "append"
      let added := if value.isList then value.tail else [value]
      return .list (first :: rest ++ added)
  | args => .error (runtime.fault (.argument "append" (.exactly 2) args.length))

/-- Two lists, one after the other. -/
def join : List Expr → Except Fault Expr
  | [e, e'] => do
      let items ← e.asItems "join"
      let items' ← e'.asItems "join"
      return .list (items ++ items')
  | args => .error (runtime.fault (.argument "join" (.exactly 2) args.length))

/-! ## §3. Grids. -/

/-- The fault of a refused grid. -/
def gridFault : GridRefusal Float → Fault
  | .noInterval => runtime.fault (.mismatch "range" "begin less than end" "begin >= end")
  | .badStep step => runtime.fault (.mismatch "range" "a positive increment" (plainText step))
  | .tooLong steps =>
      runtime.fault (.mismatch "range" ("fewer than " ++ toString gridLimit ++ " elements")
        (plainText steps ++ " steps"))

/-- Evenly spaced numbers from the first argument up to the second. -/
def range : List Expr → Except Fault Expr
  | [start, stop, step] => do
      let start ← start.asNumber "range"
      let stop ← stop.asNumber "range"
      let step ← step.asNumber "range"
      match grid start stop step with
      | .ok xs => return .list (xs.map .number)
      | .error refusal => throw (gridFault refusal)
  | args => .error (runtime.fault (.argument "range" (.exactly 3) args.length))

end PlotLisp.Lists
