/-
  PlotLisp.Main
  ──────────────────────────────────────
  **THE PROGRAM.**

  Reads files and typed lines, and writes what the library says is to be
  written.  An interactive session is fed one line at a time, so that each
  answer is there before the next prompt.
-/
import PlotLisp.CommandLine

namespace PlotLisp

/-- The reason why a file cannot be read. -/
def reasonOf : IO.Error → String
  | .noFileOrDirectory _ code reason => reason ++ " (os error " ++ toString code ++ ")"
  | .permissionDenied _ code reason => reason ++ " (os error " ++ toString code ++ ")"
  | e => toString e

/-- What reading a file gives. -/
def contentsOf (path : String) : IO Contents := do
  try
    return .ok (← IO.FS.readFile path)
  catch e =>
    return .error (reasonOf e)

/-- Write to the standard streams. -/
def emit (written : List Emission) : IO Unit := do
  for emission in written do
    match emission with
    | .out text => IO.print text
    | .err text => IO.eprint text
  (← IO.getStdout).flush

/-- Feed typed lines to an interactive session until it ends. -/
partial def converse (input : IO.FS.Stream) (state : Repl.State) : IO Unit := do
  emit [state.prompt]
  let line ← input.getLine
  if line.isEmpty then emit [.line ""]
  else
    match state.feed line with
    | (written, .continue state) => do
        emit written
        converse input state
    | (written, .quit) => emit written

end PlotLisp

open PlotLisp in
/-- Carry out the command line. -/
def main (words : List String) : IO UInt32 := do
  match CommandLine.parse words with
  | .invoke i =>
      let startup ←
        match i.startup with
        | some path => contentsOf path
        | none => pure (.ok "")
      match i.command with
      | .repl =>
          let (written, interp) := CommandLine.prepare (fun _ => startup) i.startup
          emit (written ++ Repl.banner)
          converse (← IO.getStdin) (Repl.start interp i.json)
          return 0
      | .run path =>
          let program ← contentsOf path
          let files := fun p => if p = path then program else startup
          let report := CommandLine.invoke files [] i
          emit report.written
          return report.code.toUInt32
      | .eval _ =>
          let report := CommandLine.invoke (fun _ => startup) [] i
          emit report.written
          return report.code.toUInt32
  | _ =>
      let report := CommandLine.perform (fun _ => .error "") [] words
      emit report.written
      return report.code.toUInt32
