/-
  PlotLisp.Interpreter
  ──────────────────────────────────────
  **INTERPRETERS.**

  An interpreter keeps an environment from one program to the next, and the
  program that was read last.

    • a failing program keeps what it defined before it failed;
    • a failing startup script defines nothing at all;
    • every failure is reported with the source it belongs to.

  Files are given as what reading them gave: their contents, or the reason
  why they cannot be read.
-/
import PlotLisp.Evaluation.Evaluate
import PlotLisp.Source.Report

namespace PlotLisp

/-- What reading a file gives: its contents, or why there are none. -/
abbrev Contents := Except String String

/-- An environment, the limit on nested evaluations, and the program that was
read last. -/
structure Interpreter where
  env : Environment
  limit : Nat
  program : Option (Expr × SourceText)
deriving DecidableEq, Repr

namespace Interpreter

/-! ## §1. One program at a time. -/

/-- An interpreter that has run nothing yet. -/
def fresh (limit : Nat) : Interpreter := ⟨.standard, limit, none⟩

/-- Read a program and keep it; what was kept before is gone either way. -/
def read (interp : Interpreter) (source : SourceText) : Except Fault Unit × Interpreter :=
  match source.parse with
  | .ok program => (.ok (), { interp with program := some (program, source) })
  | .error f => (.error f, { interp with program := none })

/-- Evaluate the program that was read last. -/
def evaluateProgram (interp : Interpreter) : Except Fault Expr × Interpreter :=
  match interp.program with
  | none => (.error .noProgram, interp)
  | some (program, source) =>
      match evaluate interp.limit program interp.env with
      | (.ok value, env) => (.ok value, { interp with env := env })
      | (.error f, env) => (.error (f.withSource source), { interp with env := env })

/-- Read a program and evaluate it. -/
def run (interp : Interpreter) (source : SourceText) : Except Fault Expr × Interpreter :=
  match interp.read source with
  | (.ok (), interp) => interp.evaluateProgram
  | (.error f, interp) => (.error f, interp)

/-- Read and evaluate a text that comes from no file. -/
def runInput (interp : Interpreter) (text : String) : Except Fault Expr × Interpreter :=
  interp.run ⟨inputName, text⟩

/-! ## §2. Files. -/

/-- Read and evaluate a program file. -/
def runFile (interp : Interpreter) (path : String) (contents : Contents) :
    Except Fault Expr × Interpreter :=
  match contents with
  | .ok text => interp.run ⟨path, text⟩
  | .error reason => (.error (fileAccess.fault (.unreadable path reason)), interp)

/-- Evaluate a startup script for its definitions; a script that fails leaves the
environment as it was. -/
def loadStartup (interp : Interpreter) (path : String) (contents : Contents) :
    Except Fault Unit × Interpreter :=
  match interp.runFile path contents with
  | (.ok _, after) => (.ok (), after)
  | (.error f, after) => (.error f, { after with env := interp.env })

/-! ## §3. Starting over. -/

/-- Forget every definition and the program. -/
def reset (interp : Interpreter) : Interpreter :=
  { interp with env := .standard, program := none }

end Interpreter

end PlotLisp
