/-
  PlotLisp.Fault
  ──────────────────────────────────────
  **WHY A PROGRAM FAILS.**

  A cause is not a text: which procedure was given how many arguments, what
  kind of value stood where another was needed, which name means nothing.
  `Cause.message` words it.

    • whatever fails reports its cause from a context, which puts a phase and,
      if there is one at hand, a source to it: `Context.report`;
    • evaluation and procedures report from `runtime`, the making of plots from
      `plotting`; neither has a source, so that one is attached at the top
      (`Fault.withSource`).
-/

namespace PlotLisp

/-! ## §1. Argument counts. -/

/-- The argument counts that a form or procedure accepts. -/
inductive ArgCount where
  | exactly (n : Nat)
  | atLeast (n : Nat)
  | between (low high : Nat)
  | any
deriving DecidableEq, Repr

namespace ArgCount

/-- Is a count accepted? -/
def admits : ArgCount → Nat → Bool
  | .exactly n, k => k == n
  | .atLeast n, k => n ≤ k
  | .between low high, k => low ≤ k && k ≤ high
  | .any, _ => true

/-- The accepted counts in words. -/
def text : ArgCount → String
  | .exactly n => toString n
  | .atLeast n => "at least " ++ toString n
  | .between low high => toString low ++ " or " ++ toString high
  | .any => "any number"

end ArgCount

/-! ## §2. Data that cannot be plotted. -/

/-- Why samples or a range make no plot. -/
inductive PlotRefusal where
  | noData
  | notFinite
  | oneAbscissa
  | oneOrdinate
  | emptyRange
deriving DecidableEq, Repr

/-- The refusal in words. -/
def PlotRefusal.text : PlotRefusal → String
  | .noData => "no data to plot"
  | .notFinite => "samples must be finite"
  | .oneAbscissa => "all samples share the same x value"
  | .oneOrdinate => "all samples share the same y value"
  | .emptyRange => "the lower bound must be below the upper bound"

/-! ## §3. Causes. -/

/-- What a parse error says. -/
inductive ParseDetail where
  | oneExpression
  | atom
  | expression
  | noProgram
deriving DecidableEq, Repr

/-- The detail in words. -/
def ParseDetail.text : ParseDetail → String
  | .oneExpression => "expected exactly one expression"
  | .atom => "expected an atom"
  | .expression => "expected an expression"
  | .noProgram => "no program has been parsed"

/-- Why a program fails. -/
inductive Cause where
  /-- A text that is no program. -/
  | malformed (detail : ParseDetail)
  /-- A form or procedure got a count of arguments that it does not take. -/
  | argument (procedure : String) (expected : ArgCount) (actual : Nat)
  /-- A value of one kind stands where another kind is needed. -/
  | mismatch (procedure expected actual : String)
  /-- A symbol that nothing is bound to. -/
  | unboundSymbol (symbol : String)
  /-- A name that is called and denotes no procedure and no lambda. -/
  | unknownProcedure (name : String)
  /-- A reserved name in binding position. -/
  | redefinition (name : String)
  /-- Data that makes no plot. -/
  | plotDomain (refusal : PlotRefusal)
  /-- More nested evaluations than the limit allows. -/
  | recursionLimit (limit : Nat)
  /-- A file that cannot be read. -/
  | unreadable (path reason : String)
deriving DecidableEq, Repr

namespace Cause

/-- The cause in words. -/
def message : Cause → String
  | .malformed detail => "Error: invalid expression. could not parse: " ++ detail.text
  | .argument procedure expected actual =>
      "Error: wrong number of arguments to " ++ procedure ++ ": expected " ++ expected.text
        ++ ", got " ++ toString actual
  | .mismatch procedure expected actual =>
      "Error: " ++ procedure ++ " expected " ++ expected ++ ", got " ++ actual
  | .unboundSymbol symbol => "Error: unbound symbol '" ++ symbol ++ "'"
  | .unknownProcedure name => "Error: unknown procedure '" ++ name ++ "'"
  | .redefinition name => "Error: cannot redefine reserved name '" ++ name ++ "'"
  | .plotDomain refusal => "Error: cannot plot: " ++ refusal.text
  | .recursionLimit limit =>
      "Error: recursion limit of " ++ toString limit ++ " nested evaluations exceeded"
  | .unreadable path reason => "Error: could not read '" ++ path ++ "': " ++ reason

/-- The cause's part of an error code. -/
def codeSuffix : Cause → String
  | .malformed _ => "parse_error"
  | .argument _ _ _ => "argument_error"
  | .mismatch _ _ _ => "type_error"
  | .unboundSymbol _ => "unbound_symbol"
  | .unknownProcedure _ => "unknown_procedure"
  | .redefinition _ => "redefinition"
  | .plotDomain _ => "plot_domain"
  | .recursionLimit _ => "recursion_limit"
  | .unreadable _ _ => "io_error"

/-- Advice, where there is some. -/
def help : Cause → Option String
  | .malformed _ => some "a program is a single parenthesised expression such as (+ 1 2)"
  | .unboundSymbol symbol => some ("bind it first with (define " ++ symbol ++ " <expression>)")
  | .redefinition _ =>
      some ("built-in procedures, special forms and the constants pi, e and I "
        ++ "cannot be rebound")
  | .plotDomain _ =>
      some "plot data needs at least two distinct x values and two distinct y values"
  | _ => none

/-- What the blamed span is marked with. -/
def label : Cause → String
  | .malformed _ => "could not parse"
  | .argument _ _ _ => "wrong number of arguments"
  | .mismatch _ _ _ => "wrong argument type"
  | .unboundSymbol _ => "unbound symbol"
  | .unknownProcedure _ => "not a procedure"
  | .redefinition _ => "reserved name"
  | .plotDomain _ => "degenerate plot data"
  | .recursionLimit _ => "recursion too deep"
  | .unreadable _ _ => "unreadable"

end Cause

/-! ## §4. Faults. -/

/-- A program text and the name it goes by. -/
structure SourceText where
  name : String
  text : String
deriving DecidableEq, Repr

/-- The name of texts that come from no file. -/
def inputName : String := "<input>"

/-- A stretch of a source, in bytes. -/
structure Span where
  offset : Nat
  length : Nat
deriving DecidableEq, Repr

/-- The span of what is blamed on no part of a source. -/
def unspanned : Span := ⟨0, 0⟩

/-- Where in the life of a program a failure arises. -/
inductive Phase where
  | parse
  | runtime
  | plot
  | io
deriving DecidableEq, Repr

/-- The phase's part of an error code. -/
def Phase.name : Phase → String
  | .parse => "parse"
  | .runtime => "runtime"
  | .plot => "plot"
  | .io => "io"

/-- A failure as it is reported. -/
structure Fault where
  cause : Cause
  phase : Phase
  source : Option SourceText
  span : Span
  code : String
  help : Option String
deriving DecidableEq, Repr

namespace Fault

/-- The fault in words. -/
def message (f : Fault) : String := f.cause.message

/-- The label, once there is a source to mark. -/
def label? (f : Fault) : Option String := f.source.map fun _ => f.cause.label

/-- Blame the whole of a source, unless a source is known already. -/
def withSource (f : Fault) (source : SourceText) : Fault :=
  match f.source with
  | some _ => f
  | none => { f with source := some source, span := ⟨0, source.text.utf8ByteSize⟩ }

@[simp] theorem cause_withSource (f : Fault) (source : SourceText) :
    (f.withSource source).cause = f.cause := by
  unfold withSource
  split <;> rfl

end Fault

/-! ## §5. Contexts. -/

/-- What failures are reported from: a phase, and a source if there is one at hand. -/
structure Context where
  phase : Phase
  source : Option SourceText
deriving DecidableEq, Repr

namespace Context

/-- Report a cause, with the blame on a span. -/
def report (context : Context) (cause : Cause) (span : Span) : Fault where
  cause := cause
  phase := context.phase
  source := context.source
  span := span
  code := "plotscript::" ++ context.phase.name ++ "::" ++ cause.codeSuffix
  help := cause.help

/-- Report a cause that is tied to no part of a source. -/
def fault (context : Context) (cause : Cause) : Fault := context.report cause unspanned

@[simp] theorem cause_fault (context : Context) (cause : Cause) :
    (context.fault cause).cause = cause := rfl

@[simp] theorem message_fault (context : Context) (cause : Cause) :
    (context.fault cause).message = cause.message := rfl

/-- A context reports different causes as different faults. -/
@[simp] theorem fault_inj {context : Context} {cause cause' : Cause} :
    context.fault cause = context.fault cause' ↔ cause = cause' :=
  ⟨congrArg Fault.cause, congrArg context.fault⟩

end Context

/-- Evaluation and procedures. -/
def runtime : Context := ⟨.runtime, none⟩

/-- The making of plots. -/
def plotting : Context := ⟨.plot, none⟩

/-- The reading of a program from a source. -/
def parsing (source : SourceText) : Context := ⟨.parse, some source⟩

/-- The reading of files. -/
def fileAccess : Context := ⟨.io, none⟩

end PlotLisp
