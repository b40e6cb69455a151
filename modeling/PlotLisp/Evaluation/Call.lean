/-
  PlotLisp.Evaluation.Call
  ──────────────────────────────────────
  **CALLING PROCEDURES AND LAMBDAS.**

  Every rule here takes the evaluator of sub-expressions as its argument
  `eval`, so that the depth limit is a matter of one definition only.

    • a lambda's body is evaluated in a copy of the calling environment with
      the parameters bound; nothing that the body defines gets out;
    • `resolve` finds what `map`, `apply` and `continuous-plot` may call under
      a bare name.
-/
import PlotLisp.Evaluation.Monad
import PlotLisp.Procedure.Run

namespace PlotLisp

/-- Something that can be called with values. -/
inductive Callable where
  | procedure (procedure : Procedure)
  | lambda (value : Expr)
deriving DecidableEq, Repr

namespace Evaluation

open EvalM

/-! ## §1. Arguments and lambdas. -/

/-- Evaluate arguments from left to right. -/
def evalAll (eval : Expr → EvalM Expr) (args : List Expr) : EvalM (List Expr) := args.mapM eval

/-- Call a lambda; `place` is the name that faults mention. -/
def applyLambda (eval : Expr → EvalM Expr) (place : String) (lambda : Expr)
    (args : List Expr) : EvalM Expr :=
  match lambda.lambdaParts? with
  | none => throw (runtime.fault (.mismatch place "a lambda" lambda.typeName))
  | some (params, body) =>
      if params.length = args.length then do
        inside (← settle ((← get).bindAll (params.zip args))) (eval body)
      else throw (runtime.fault (.argument place (.exactly params.length) args.length))

/-! ## §2. Callables. -/

/-- What a bare name may be called as, on behalf of the form `form`. -/
def resolve (form : String) (e : Expr) : EvalM Callable := do
  match e.symbol? with
  | none => throw (runtime.fault (.mismatch form "a procedure name" e.typeName))
  | some name =>
      match (← get).find? name with
      | some (.procedure procedure) => return .procedure procedure
      | some (.binding value) =>
          if value.isLambda then return .lambda value
          else throw (runtime.fault (.mismatch form "a procedure or lambda" value.typeName))
      | none => throw (runtime.fault (.unknownProcedure name))

/-- Call a callable with values, on behalf of the form `form`. -/
def call (eval : Expr → EvalM Expr) (form : String) (callable : Callable)
    (args : List Expr) : EvalM Expr :=
  match callable with
  | .procedure procedure => settle (procedure.run args)
  | .lambda value => applyLambda eval form value args

/-! ## §3. Leaves and calls. -/

/-- Evaluate a leaf: a symbol means what the environment says (a procedure is
called without arguments), anything else means itself. -/
def evalLeaf (e : Expr) : EvalM Expr := do
  match e.head with
  | .symbol name =>
      match (← get).find? name with
      | some (.binding value) => return value
      | some (.procedure procedure) => settle (procedure.run [])
      | none =>
          -- a form without parts
          if (SpecialForm.ofName? name).isSome then
            throw (runtime.fault (.argument name (.atLeast 1) 0))
          else throw (runtime.fault (.unboundSymbol name))
  | _ => return e

/-- Evaluate a call: first what is called, then the arguments, then the call. -/
def evalCall (eval : Expr → EvalM Expr) (e : Expr) : EvalM Expr := do
  match e.headSymbol? with
  | none => throw (runtime.fault (.unknownProcedure e.head.text))
  | some name =>
      match (← get).find? name with
      | some (.binding value) =>
          if value.isLambda then applyLambda eval name value (← evalAll eval e.tail)
          else throw (runtime.fault (.unknownProcedure name))
      | some (.procedure procedure) => settle (procedure.run (← evalAll eval e.tail))
      | none => throw (runtime.fault (.unknownProcedure name))

end Evaluation

end PlotLisp
