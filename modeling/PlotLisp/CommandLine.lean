/-
  PlotLisp.CommandLine
  ──────────────────────────────────────
  **THE COMMAND LINE.**

  `[--startup FILE] [--json] [run FILE | eval EXPRESSION | repl]`

    • options may stand before or after the command; after `--` nothing is an
      option any more;
    • without a command an interactive session starts;
    • the exit code is 0 for success, 1 for a program that fails, and 2 for a
      command line that makes no sense.
-/
import PlotLisp.Repl

namespace PlotLisp.CommandLine

/-! ## §1. Command lines. -/

/-- What is to be run. -/
inductive Command where
  | run (path : String)
  | eval (expression : String)
  | repl
deriving DecidableEq, Repr

/-- A command with the options that hold for all of them. -/
structure Invocation where
  startup : Option String
  json : Bool
  command : Command
deriving DecidableEq, Repr

/-- The word that says which command is meant. -/
inductive Verb where
  | run
  | eval
  | repl
deriving DecidableEq, Repr

/-- The command of a word. -/
def Verb.ofWord? (word : String) : Option Verb :=
  if word = "run" then some .run
  else if word = "eval" || word = "e" then some .eval
  else if word = "repl" then some .repl
  else none

/-- What a help text is about: all of the program, one command, or help itself. -/
inductive Topic where
  | program
  | command (verb : Verb)
  | help
deriving DecidableEq, Repr

/-- What a command line asks for. -/
inductive Wish where
  | invoke (invocation : Invocation)
  | version
  | help (topic : Topic)
  | misuse
deriving DecidableEq, Repr

/-! ## §2. Pieces. -/

/-- What a word, or an option with its value, is. -/
inductive Piece where
  | startup (path : String)
  | json
  | help
  | version
  /-- A word that is no option. -/
  | word (text : String)
  /-- A word after `--`. -/
  | literal (text : String)
  /-- An option that does not exist or lacks its value. -/
  | unknown
deriving DecidableEq, Repr

/-- Does a word look like an option? -/
def isOption (word : String) : Bool := word.startsWith "-" && word != "-"

/-- What a single word is. -/
def Piece.ofWord (word : String) : Piece :=
  if word = "--json" then .json
  else if word = "--help" || word.startsWith "-h" then .help
  else if word = "--version" || word.startsWith "-V" then .version
  else
    match word.dropPrefix? "--startup=" with
    | some path => .startup path.toString
    | none => if isOption word then .unknown else .word word

/-- The pieces of a command line. -/
def pieces : List String → List Piece
  | [] => []
  | "--" :: rest => rest.map .literal
  -- an option's value is no option itself
  | "--startup" :: path :: rest =>
      (if isOption path then .unknown else .startup path) :: pieces rest
  | word :: rest => .ofWord word :: pieces rest

/-! ## §3. Wishes. -/

/-- The options on one side of the command's verb.  There each is given once at
most. -/
structure Options where
  startup : Option String
  json : Bool
deriving DecidableEq, Repr

namespace Options

/-- No options. -/
def empty : Options := ⟨none, false⟩

/-- Take an option into account; `none` for one that is given twice, for an empty
path, and for pieces that are no such option. -/
def take? (options : Options) : Piece → Option Options
  | .startup path =>
      if options.startup.isSome || path.isEmpty then none
      else some { options with startup := some path }
  | .json => if options.json then none else some { options with json := true }
  | _ => none

/-- The options of both sides; those after the verb count. -/
def merge (before after : Options) : Options :=
  ⟨after.startup <|> before.startup, before.json || after.json⟩

end Options

/-- The command of a verb and its arguments. -/
def command? : Verb → List String → Option Command
  | .run, [path] => if path.isEmpty then none else some (.run path)
  | .eval, [expression] => some (.eval expression)
  | .repl, [] => some .repl
  | _, _ => none

/-- How many arguments a command takes. -/
def Verb.places : Verb → Nat
  | .run | .eval => 1
  | .repl => 0

/-- The wish of the pieces after a verb, with the arguments read so far. -/
def wishOf (verb : Verb) (before after : Options) (arguments : List String) : List Piece → Wish
  | [] =>
      match command? verb arguments with
      | some command =>
          let options := before.merge after
          .invoke ⟨options.startup, options.json, command⟩
      | none => .misuse
  | .help :: _ => .help (.command verb)
  | .word text :: rest | .literal text :: rest =>
      if arguments.length < verb.places then wishOf verb before after (arguments ++ [text]) rest
      else .misuse
  | piece :: rest =>
      match after.take? piece with
      | some after => wishOf verb before after arguments rest
      | none => .misuse

/-- The wish of the pieces after the word `help`. -/
def helpWish : List Piece → Wish
  | [] => .help .program
  | [.word name] =>
      match Verb.ofWord? name with
      | some verb => .help (.command verb)
      | none => if name = "help" then .help .help else .misuse
  | _ => .misuse

/-- The wish of a whole command line, with the options read so far.  Without a
verb an interactive session is meant. -/
def wish (options : Options) : List Piece → Wish
  | [] => .invoke ⟨options.startup, options.json, .repl⟩
  | .help :: _ => .help .program
  | .version :: _ => .version
  | .word text :: rest =>
      match Verb.ofWord? text with
      | some verb => wishOf verb options .empty [] rest
      | none => if text = "help" then helpWish rest else .misuse
  | piece :: rest =>
      match options.take? piece with
      | some options => wish options rest
      | none => .misuse

/-- Read a command line. -/
def parse (words : List String) : Wish := wish .empty (pieces words)

/-! ## §4. Help. -/

/-- The options of every command. -/
def optionLines : List String :=
  [ "      --startup <FILE>  Script evaluated before anything else; its definitions are the "
      ++ "session baseline",
    "      --json            Print results as JSON instead of the textual form",
    "  -h, --help            Print help" ]

/-- The lines of a help text. -/
def helpLines : Topic → List String
  | .program =>
      [ "Evaluate Plotscript programs: complex arithmetic, lists, lambdas and plots.", "",
        "Usage: plotscript [OPTIONS] [COMMAND]", "",
        "Commands:",
        "  run   Evaluate a program file and print its result",
        "  eval  Evaluate a program given on the command line [aliases: e]",
        "  repl  Start the interactive read-eval-print loop",
        "  help  Print this message or the help of the given subcommand(s)", "",
        "Options:" ] ++ optionLines ++ ["  -V, --version         Print version"]
  | .command .run =>
      [ "Evaluate a program file and print its result", "",
        "Usage: plotscript run [OPTIONS] <FILE>", "",
        "Arguments:",
        "  <FILE>  The path to the Plotscript program", "",
        "Options:" ] ++ optionLines
  | .command .eval =>
      [ "Evaluate a program given on the command line", "",
        "Usage: plotscript eval [OPTIONS] <EXPRESSION>", "",
        "Arguments:",
        "  <EXPRESSION>  The program text, e.g. \"(+ 1 2)\"", "",
        "Options:" ] ++ optionLines
  | .command .repl =>
      [ "Start the interactive read-eval-print loop", "",
        "Usage: plotscript repl [OPTIONS]", "",
        "Options:" ] ++ optionLines
  | .help =>
      [ "Print this message or the help of the given subcommand(s)", "",
        "Usage: plotscript help [COMMAND]...", "",
        "Arguments:",
        "  [COMMAND]...  Print help for the subcommand(s)" ]

/-! ## §5. Carrying out. -/

/-- What a command line writes, and its exit code. -/
structure Report where
  written : List Emission
  code : Nat
deriving DecidableEq, Repr

/-- The report on a program that was run to its end. -/
def Report.ofOutcome (json : Bool) : Except Fault Expr → Report
  | .ok value => ⟨[.ofResult json value], 0⟩
  | .error f => ⟨[.errorLine f.message], 1⟩

/-- The interpreter that a command starts with, and what loading the startup
script writes; a script that fails ends nothing. -/
def prepare (contentsOf : String → Contents) (startup : Option String) :
    List Emission × Interpreter :=
  let interp := Interpreter.fresh defaultLimit
  match startup with
  | none => ([], interp)
  | some path =>
      match interp.loadStartup path (contentsOf path) with
      | (.ok (), interp) => ([], interp)
      | (.error f, interp) => ([.errorLine f.message], interp)

/-- Carry out a command; `contentsOf` gives the contents of files and `input` the
lines typed. -/
def invoke (contentsOf : String → Contents) (input : List String) (i : Invocation) : Report :=
  let (written, interp) := prepare contentsOf i.startup
  let report : Report :=
    match i.command with
    | .run path => .ofOutcome i.json (interp.runFile path (contentsOf path)).1
    | .eval expression => .ofOutcome i.json (interp.runInput expression).1
    | .repl => ⟨Repl.transcript interp i.json input, 0⟩
  { report with written := written ++ report.written }

/-- Carry out a command line. -/
def perform (contentsOf : String → Contents) (input : List String) (words : List String) :
    Report :=
  match parse words with
  | .invoke i => invoke contentsOf input i
  | .version => ⟨[.line ("plotscript " ++ Repl.version)], 0⟩
  | .help topic => ⟨(helpLines topic).map .line, 0⟩
  | .misuse => ⟨[.errorLine "Usage: plotscript [OPTIONS] [COMMAND]"], 2⟩

end PlotLisp.CommandLine
