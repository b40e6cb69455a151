/-
  PlotLisp.Proofs.Interpreter.Startup
  ──────────────────────────────────────
  **A FAILING STARTUP SCRIPT LEAVES NO TRACE.**

  A script that fails may have defined and redefined names, and it may be the
  program that the interpreter read last.  The definitions are taken back.  The
  program stays, but no call that reads its own program can tell:

    • `Agree` — interpreters that differ in the program read last only;
    • `Agree.perform` — one call is answered by both of them alike, and they
      agree afterwards;
    • `Agree.history_eq` — so is any sequence of calls;
    • `agree_of_loadStartup_error` — a failing script leaves an interpreter that
      agrees with the one before.
-/
import Mathlib.Control.Monad.Basic
import PlotLisp.Interpreter

namespace PlotLisp.Interpreter

/-! ## §1. Calls. -/

/-- What an interpreter can be asked for, but for a program that it has read before. -/
inductive Call where
  | input (text : String)
  | named (name text : String)
  | file (path : String) (contents : Contents)
  | startup (path : String) (contents : Contents)
  | reset
deriving DecidableEq

/-- What a call gives back. -/
inductive Reply where
  | evaluated (outcome : Except Fault Expr)
  | loaded (outcome : Except Fault Unit)
  | done
deriving DecidableEq

/-- Answer one call. -/
def perform (interp : Interpreter) : Call → Reply × Interpreter
  | .input text => (.evaluated (interp.runInput text).1, (interp.runInput text).2)
  | .named name text => (.evaluated (interp.run ⟨name, text⟩).1, (interp.run ⟨name, text⟩).2)
  | .file path contents =>
      (.evaluated (interp.runFile path contents).1, (interp.runFile path contents).2)
  | .startup path contents =>
      (.loaded (interp.loadStartup path contents).1, (interp.loadStartup path contents).2)
  | .reset => (.done, interp.reset)

/-- The replies to calls in a row, each with the environment after it. -/
def history (interp : Interpreter) : List Call → List (Reply × Environment)
  | [] => []
  | call :: rest =>
      ((interp.perform call).1, (interp.perform call).2.env) :: (interp.perform call).2.history rest

/-! ## §2. Interpreters that agree. -/

/-- The interpreters are the same but for the program that was read last. -/
structure Agree (a b : Interpreter) : Prop where
  env : a.env = b.env
  limit : a.limit = b.limit

theorem Agree.refl (interp : Interpreter) : Agree interp interp := ⟨rfl, rfl⟩

/-- A program to be read takes the place of the one before, whether it is one or not. -/
theorem run_withProgram (interp : Interpreter) (program : Option (Expr × SourceText))
    (source : SourceText) :
    ({ interp with program := program } : Interpreter).run source = interp.run source := by
  unfold run read
  -- the old program is overwritten in both cases
  cases source.parse <;> rfl

/-- Running programs does not change the limit. -/
theorem limit_run (interp : Interpreter) (source : SourceText) :
    (interp.run source).2.limit = interp.limit := by
  unfold run read
  cases source.parse with
  | error d => rfl
  | ok program =>
    -- an evaluation replaces the environment only, whether it fails or not
    simp only [evaluateProgram]
    rcases PlotLisp.evaluate interp.limit program interp.env with ⟨r, after⟩
    cases r <;> rfl

theorem limit_runFile (interp : Interpreter) (path : String) (contents : Contents) :
    (interp.runFile path contents).2.limit = interp.limit := by
  cases contents with
  | ok text => exact limit_run interp ⟨path, text⟩
  | error reason => rfl

namespace Agree

variable {a b : Interpreter}

/-- Reading a program makes interpreters the same that agree. -/
theorem run_eq (h : Agree a b) (source : SourceText) : a.run source = b.run source := by
  -- `b` is `a` with another program
  have hb : b = { a with program := b.program } := by
    obtain ⟨env, limit, program⟩ := b
    rw [h.env, h.limit]
  rw [hb]
  exact (run_withProgram a b.program source).symm

/-- A file that cannot be read leaves the program of either interpreter. -/
theorem runFile (h : Agree a b) (path : String) (contents : Contents) :
    (a.runFile path contents).1 = (b.runFile path contents).1
      ∧ Agree (a.runFile path contents).2 (b.runFile path contents).2 := by
  cases contents with
  | ok text =>
    show (a.run ⟨path, text⟩).1 = (b.run ⟨path, text⟩).1
      ∧ Agree (a.run ⟨path, text⟩).2 (b.run ⟨path, text⟩).2
    rw [h.run_eq]
    exact ⟨rfl, .refl _⟩
  | error reason => exact ⟨rfl, h⟩

theorem loadStartup (h : Agree a b) (path : String) (contents : Contents) :
    (a.loadStartup path contents).1 = (b.loadStartup path contents).1
      ∧ Agree (a.loadStartup path contents).2 (b.loadStartup path contents).2 := by
  obtain ⟨hreply, hafter⟩ := h.runFile path contents
  unfold Interpreter.loadStartup
  -- the script fails for both or for neither
  generalize a.runFile path contents = ran at *
  generalize b.runFile path contents = ran' at *
  obtain ⟨r, after⟩ := ran
  obtain ⟨r', after'⟩ := ran'
  cases hreply
  cases r with
  | ok v => exact ⟨rfl, hafter⟩
  | error d =>
    -- each takes its own environment back, and these were the same
    exact ⟨rfl, h.env, hafter.limit⟩

/-- **One call is answered alike.** -/
theorem perform (h : Agree a b) (call : Call) :
    (a.perform call).1 = (b.perform call).1 ∧ Agree (a.perform call).2 (b.perform call).2 := by
  cases call with
  | input text =>
    dsimp only [Interpreter.perform, runInput]
    rw [h.run_eq]
    exact ⟨rfl, .refl _⟩
  | named name text =>
    dsimp only [Interpreter.perform]
    rw [h.run_eq]
    exact ⟨rfl, .refl _⟩
  | file path contents =>
    obtain ⟨hreply, hafter⟩ := h.runFile path contents
    exact ⟨congrArg Reply.evaluated hreply, hafter⟩
  | startup path contents =>
    obtain ⟨hreply, hafter⟩ := h.loadStartup path contents
    exact ⟨congrArg Reply.loaded hreply, hafter⟩
  | reset => exact ⟨rfl, rfl, h.limit⟩

/-- **Calls in a row are answered alike**, in environments that are the same after each. -/
theorem history_eq (h : Agree a b) (calls : List Call) : a.history calls = b.history calls := by
  -- over the interpreters that each call leaves
  induction calls generalizing a b with
  | nil => rfl
  | cons call rest ih =>
    obtain ⟨hreply, hafter⟩ := h.perform call
    unfold history
    rw [hreply, hafter.env, ih hafter]

end Agree

/-! ## §3. Startup scripts. -/

/-- A script that fails has at most become the program read last. -/
theorem agree_of_loadStartup_error {interp : Interpreter} {path : String} {contents : Contents}
    {f : Fault} (h : (interp.loadStartup path contents).1 = .error f) :
    Agree (interp.loadStartup path contents).2 interp := by
  have hlimit := limit_runFile interp path contents
  unfold loadStartup at h ⊢
  split at h
  · cases h
  · -- the environment is put back, and running has left the limit alone
    rename_i after hrun
    rw [hrun] at hlimit
    exact ⟨rfl, hlimit⟩

/-- **A FAILING STARTUP SCRIPT LEAVES NO TRACE.**  Whether its file could not be read, its
text was no program, or it failed after it had defined and redefined names: the environment is
the one before, and whatever programs, files, startup scripts and resets come later, all of
their replies and the environments after each of them are as if the script had never been
loaded. -/
theorem failing_startup_leaves_no_trace {interp : Interpreter} {path : String}
    {contents : Contents} {f : Fault} (h : (interp.loadStartup path contents).1 = .error f)
    (calls : List Call) :
    (interp.loadStartup path contents).2.env = interp.env
      ∧ (interp.loadStartup path contents).2.history calls = interp.history calls := by
  have hagree := agree_of_loadStartup_error h
  exact ⟨hagree.env, hagree.history_eq calls⟩

/-- A script that gives one name a new value and defines another before it fails. -/
theorem failing_startup_leaves_no_trace_of_definitions :
    ∃ interp : Interpreter, ∃ text f,
      interp.env.binding? "x" = some (.string "a")
      ∧ (interp.runFile "startup" (.ok text)).2.env.binding? "x" = some (.string "b")
      ∧ (interp.runFile "startup" (.ok text)).2.env.binding? "y" = some (.string "c")
      ∧ (interp.loadStartup "startup" (.ok text)).1 = .error f
      ∧ ∀ calls, (interp.loadStartup "startup" (.ok text)).2.history calls
          = interp.history calls := by
  let text := "(begin (define x \"b\") (define y \"c\") radius)"
  let interp : Interpreter := ⟨⟨[("x", .binding (.string "a"))]⟩, 9, none⟩
  have hfails : (interp.loadStartup "startup" (.ok text)).1
      = .error ((runtime.fault (.unboundSymbol "radius")).withSource
          ⟨"startup", text⟩) := by
    decide +kernel
  refine ⟨interp, text, _, by decide, by decide +kernel, by decide +kernel, hfails, fun calls => ?_⟩
  exact (failing_startup_leaves_no_trace hfails calls).2

end PlotLisp.Interpreter
