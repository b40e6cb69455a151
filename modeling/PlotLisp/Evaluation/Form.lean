/-
  PlotLisp.Evaluation.Form
  ──────────────────────────────────────
  **THE RULES OF THE SPECIAL FORMS.**

  Each form checks the count of its parts, and the kinds of those that it
  takes as they are written, before it evaluates any of them; kinds of values
  are checked once the values are there.  `evalForm` is the rule of a form on
  its parts, with the evaluator of sub-expressions as an argument.
-/
import PlotLisp.Evaluation.Call

namespace PlotLisp.Evaluation

open EvalM

/-! ## §1. Sequencing and binding. -/

/-- Evaluate in order; the last value counts. -/
def evalBegin (eval : Expr → EvalM Expr) : List Expr → EvalM Expr
  | [] => throw (runtime.fault (.argument SpecialForm.begin.name (.atLeast 1) 0))
  | [e] => eval e
  | e :: e' :: rest => do
      let _ ← eval e
      evalBegin eval (e' :: rest)

/-- `(define name e)` binds the value of `e` and gives it. -/
def evalDefine (eval : Expr → EvalM Expr) : List Expr → EvalM Expr
  | [target, e] => do
      match target.symbol? with
      | none =>
          throw (runtime.fault (.mismatch SpecialForm.define.name "a symbol" target.typeName))
      | some name =>
          -- refused before anything is evaluated
          settle ((← get).checkBindable name)
          let value ← eval e
          bindName name value
          return value
  | parts => throw (runtime.fault (.argument SpecialForm.define.name (.exactly 2) parts.length))

/-- The name that an atom gives a parameter. -/
def parameterOfAtom : Atom → Except Fault String
  | .symbol name => .ok name
  | head =>
      .error (runtime.fault (.mismatch SpecialForm.lambda.name "parameter names" head.typeName))

/-- The name that a leaf gives a parameter. -/
def parameterOfLeaf (e : Expr) : Except Fault String :=
  if e.isLeaf then parameterOfAtom e.head
  else .error (runtime.fault (.mismatch SpecialForm.lambda.name "parameter names" e.typeName))

/-- The parameters of a lambda as it is written, `(x y)`, or as a lambda value
holds them, in a list. -/
def parameters (e : Expr) : Except Fault (List String) :=
  if e.isList then e.tail.mapM parameterOfLeaf
  else do
    -- the first parameter is in head position
    let first ← parameterOfAtom e.head
    let rest ← e.tail.mapM parameterOfLeaf
    return first :: rest

/-- `(lambda (params …) body)` makes a lambda value; the body waits for a call. -/
def evalLambda : List Expr → EvalM Expr
  | [params, body] => do return .lambda (← settle (parameters params)) body
  | parts => throw (runtime.fault (.argument SpecialForm.lambda.name (.exactly 2) parts.length))

/-! ## §2. Higher-order forms. -/

/-- `(apply name (list args …))` -/
def evalApply (eval : Expr → EvalM Expr) : List Expr → EvalM Expr
  | [target, e] => do
      let form := SpecialForm.apply.name
      let callable ← resolve form target
      let args ← eval e
      if args.isList then call eval form callable args.tail
      else throw (runtime.fault (.mismatch form "a list of arguments" args.typeName))
  | parts => throw (runtime.fault (.argument SpecialForm.apply.name (.exactly 2) parts.length))

/-- `(map name list)` calls with each element in turn. -/
def evalMap (eval : Expr → EvalM Expr) : List Expr → EvalM Expr
  | [target, e] => do
      let form := SpecialForm.map.name
      let callable ← resolve form target
      let items ← eval e
      if items.isList then
        return .list (← items.tail.mapM fun item => call eval form callable [item])
      else throw (runtime.fault (.mismatch form "a list" items.typeName))
  | parts => throw (runtime.fault (.argument SpecialForm.map.name (.exactly 2) parts.length))

/-! ## §3. Properties. -/

/-- A string that stands literally in the place of a key. -/
def literalKey (form : String) (e : Expr) : EvalM String :=
  match e.string? with
  | some key => pure key
  | none => throw (runtime.fault (.mismatch form "a string literal property name" e.typeName))

/-- `(set-property "key" value target)` -/
def evalSetProperty (eval : Expr → EvalM Expr) : List Expr → EvalM Expr
  | [key, e, e'] => do
      let key ← literalKey SpecialForm.setProperty.name key
      let value ← eval e
      let target ← eval e'
      return target.setProp key value
  | parts =>
      throw (runtime.fault (.argument SpecialForm.setProperty.name (.exactly 3) parts.length))

/-- `(get-property "key" target)` -/
def evalGetProperty (eval : Expr → EvalM Expr) : List Expr → EvalM Expr
  | [key, e] => do
      let key ← literalKey SpecialForm.getProperty.name key
      return Procedure.propertyOf key (← eval e)
  | parts =>
      throw (runtime.fault (.argument SpecialForm.getProperty.name (.exactly 2) parts.length))

/-! ## §4. Plots. -/

/-- The value of options that may be left out. -/
def evalOptions (eval : Expr → EvalM Expr) : Option Expr → EvalM (PlotOptions Float)
  | some e => do settle (PlotOptions.ofExpr (← eval e))
  | none => pure .default

/-- Plot the value of `data`. -/
def plotData (eval : Expr → EvalM Expr) (data : Expr) (options : Option Expr) : EvalM Expr := do
  let data ← eval data
  let options ← evalOptions eval options
  let samples ← settle (readSamples PlotKind.discrete.name data)
  settle (plotOf .discrete options samples)

/-- `(discrete-plot data [options])` -/
def evalDiscretePlot (eval : Expr → EvalM Expr) : List Expr → EvalM Expr
  | [data] => plotData eval data none
  | [data, options] => plotData eval data (some options)
  | parts => throw (runtime.fault (.argument PlotKind.discrete.name (.between 1 2) parts.length))

/-- What a continuous plot samples: a callable under a name, or the value of an
expression that gives a lambda. -/
def plottedFunction (eval : Expr → EvalM Expr) (function : Expr) : EvalM Callable :=
  if function.symbol?.isSome then resolve PlotKind.continuous.name function
  else do
    let value ← eval function
    if value.isLambda then return .lambda value
    else throw (runtime.fault (.mismatch PlotKind.continuous.name "a function" value.typeName))

/-- The point of a function at the abscissa `x`. -/
def sampleAt (eval : Expr → EvalM Expr) (function : Callable) (x : Float) :
    EvalM (Position Float) := do
  let y ← call eval PlotKind.continuous.name function [.number x]
  match y.number? with
  | some y => return (x, y)
  | none =>
      throw (runtime.fault
        (.mismatch PlotKind.continuous.name "a function returning numbers" y.typeName))

/-- Sample a function over a range and plot it. -/
def plotFunction (eval : Expr → EvalM Expr) (function range : Expr) (options : Option Expr) :
    EvalM Expr := do
  let function ← plottedFunction eval function
  let (low, high) ← settle (readRange (← eval range))
  let options ← evalOptions eval options
  let samples ← (abscissas low high).mapM (sampleAt eval function)
  settle (plotOf .continuous options samples)

/-- `(continuous-plot f (list low high) [options])` -/
def evalContinuousPlot (eval : Expr → EvalM Expr) : List Expr → EvalM Expr
  | [function, range] => plotFunction eval function range none
  | [function, range, options] => plotFunction eval function range (some options)
  | parts => throw (runtime.fault (.argument PlotKind.continuous.name (.between 2 3) parts.length))

/-! ## §5. All forms. -/

/-- The rule of a form on its parts. -/
def evalForm (eval : Expr → EvalM Expr) (form : SpecialForm) (parts : List Expr) : EvalM Expr :=
  match form with
  | .define => evalDefine eval parts
  | .begin => evalBegin eval parts
  | .lambda => evalLambda parts
  | .apply => evalApply eval parts
  | .map => evalMap eval parts
  | .setProperty => evalSetProperty eval parts
  | .getProperty => evalGetProperty eval parts
  | .plot .discrete => evalDiscretePlot eval parts
  | .plot .continuous => evalContinuousPlot eval parts

end PlotLisp.Evaluation
