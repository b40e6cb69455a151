/-
  PlotLisp.Repl
  ──────────────────────────────────────
  **READ, EVALUATE, PRINT.**

  Lines are collected until no parenthesis and no string is open, then the
  collected text is evaluated; an empty line forces the evaluation.  A line
  that starts with `:` or `%` at an empty prompt is a command instead.

    • `feed` — one line typed: what is written, and what comes next;
    • `transcript` — everything written for given lines of input.
-/
import PlotLisp.Expr.Text
import PlotLisp.Session
import PlotLisp.Source.Completeness

namespace PlotLisp

/-! ## §1. Writing. -/

/-- A text written to one of the two streams. -/
inductive Emission where
  | out (text : String)
  | err (text : String)
deriving DecidableEq, Repr

namespace Emission

/-- A line on the output stream. -/
def line (text : String) : Emission := .out (text ++ "\n")

/-- A line on the error stream. -/
def errorLine (text : String) : Emission := .err (text ++ "\n")

/-- All that is written to the output stream. -/
def outText (written : List Emission) : String :=
  String.join (written.map fun | .out text => text | .err _ => "")

/-- All that is written to the error stream. -/
def errText (written : List Emission) : String :=
  String.join (written.map fun | .out _ => "" | .err text => text)

/-- A result, printed or as JSON. -/
def ofResult (json : Bool) (value : Expr) : Emission :=
  line (if json then value.toPrettyJson else value.text)

/-- An answer: results on the output stream, messages on the error stream. -/
def ofOutput (json : Bool) : Output → Emission
  | .result value => ofResult json value
  | .error message => errorLine message

end Emission

namespace Repl

/-! ## §2. States. -/

/-- A session, the lines collected so far, and whether results are shown as
JSON. -/
structure State where
  session : Session
  collected : String
  json : Bool
deriving DecidableEq, Repr

/-- What follows a line: more lines, or the end. -/
inductive Next where
  | continue (state : State)
  | quit
deriving DecidableEq, Repr

/-- The program's name and version. -/
def version : String := "0.1.0"

/-- What is written at the start. -/
def banner : List Emission :=
  [ .line ("Plotscript REPL v" ++ version),
    .line "Type :help for help, :quit to exit",
    .line "" ]

/-- The state at the start. -/
def start (baseline : Interpreter) (json : Bool) : State := ⟨.fresh baseline, "", json⟩

/-- The prompt: for a new program, or for more of one. -/
def State.prompt (s : State) : Emission :=
  .out (if s.collected.isEmpty then "plotscript> " else "    -> ")

/-! ## §3. Commands. -/

/-- What a command asks for. -/
inductive Command where
  | help
  | quit
  | start
  | stop
  | reset
  | unknown (text : String)
deriving DecidableEq, Repr

/-- The command of a line; upper and lower case are the same. -/
def Command.ofLine (line : String) : Command :=
  let word := line.map Char.toLower
  if word = ":help" || word = ":h" then .help
  else if word = ":quit" || word = ":q" || word = "%exit" then .quit
  else if word = "%start" then .start
  else if word = "%stop" then .stop
  else if word = "%reset" then .reset
  else .unknown line

/-- The help text. -/
def helpLines : List String :=
  [ "Plotscript REPL Commands:",
    "  :help, :h     Show this help",
    "  :quit, :q     Exit the REPL",
    "  %start        Start the interpreter kernel if it is stopped",
    "  %stop         Stop the kernel, discarding its definitions",
    "  %reset        Restart the kernel from the startup state",
    "  %exit         Stop the kernel and exit",
    "",
    "Enter Plotscript expressions to evaluate them.",
    "Multi-line expressions are supported." ]

/-- Carry out a command. -/
def State.command (s : State) : Command → List Emission × Next
  | .help => (helpLines.map .line, .continue s)
  | .quit => ([], .quit)
  | .start => ([], .continue { s with session := s.session.start })
  | .stop => ([], .continue { s with session := s.session.stop })
  | .reset => ([], .continue { s with session := s.session.reset })
  | .unknown text =>
      ([.errorLine ("Unknown command: " ++ text ++ ". Type :help for available commands.")],
        .continue s)

/-- Is a line a command? -/
def isCommand (line : List Char) : Bool := line.head? == some ':' || line.head? == some '%'

/-! ## §4. Lines. -/

/-- Evaluate what has been collected. -/
def State.evaluate (s : State) : List Emission × Next :=
  let (output, session) := s.session.eval s.collected
  ((output.map (Emission.ofOutput s.json)).toList,
    .continue { s with session := session, collected := "" })

/-- Collect a line, already trimmed, and evaluate once nothing is open or the
line is empty. -/
def State.collect (s : State) (line : List Char) : List Emission × Next :=
  let before := if s.collected.isEmpty then "" else s.collected ++ "\n"
  let s := { s with collected := before ++ String.ofList line }
  -- an empty line settles for what there is
  if Source.isComplete s.collected.toList || line.isEmpty then s.evaluate
  else ([], .continue s)

/-- Take one line of input. -/
def State.feed (s : State) (line : String) : List Emission × Next :=
  let line := Source.trim line.toList
  if !s.collected.isEmpty then s.collect line
  else if line.isEmpty then ([], .continue s)
  else if isCommand line then s.command (.ofLine (String.ofList line))
  else s.collect line

/-- All that is written from a prompt on, for the rest of the input. -/
def State.transcript (s : State) : List String → List Emission
  | [] => [s.prompt, .line ""]
  | line :: rest =>
      match s.feed line with
      | (written, .continue s') => s.prompt :: written ++ s'.transcript rest
      | (written, .quit) => s.prompt :: written

/-- All that is written for the lines of an input. -/
def transcript (baseline : Interpreter) (json : Bool) (lines : List String) : List Emission :=
  banner ++ (start baseline json).transcript lines

/-- The lines of an input text; a line feed at the end opens no further line. -/
def linesOf (text : String) : List String :=
  let lines := text.toList.splitOn '\n'
  let lines := if lines.getLast? == some [] then lines.dropLast else lines
  lines.map String.ofList

end Repl

end PlotLisp
