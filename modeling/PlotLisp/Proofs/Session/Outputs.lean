/-
  PlotLisp.Proofs.Session.Outputs
  ──────────────────────────────────────
  **WHAT A WORKER ANSWERS.**

  `Interpreter.outputs` answers one text after the other, each with its value or
  the message of its failure, with one interpreter that goes on after failures.
  A worker does the same with the lines of its inbox, up to the first control
  word:

    • `ofOutcome_runInput` — what a worker makes of an outcome is what the text is
      to be answered with;
    • `outputs_append` — the answers to two batches of texts;
    • `Worker.settle_eq` — where a worker gets to when it takes every line;
    • `ofOutcome_ne_notRunning` — no program is answered with the text that a
      stopped session answers.
-/
import PlotLisp.Proofs.Evaluation.Programs
import PlotLisp.Session

namespace PlotLisp

/-! ## §1. Answers in a row. -/

namespace Interpreter

/-- What a text is to be answered with: its value, or the message of its failure. -/
def answerTo (interp : Interpreter) (text : String) : Output :=
  match (interp.runInput text).1 with
  | .ok value => .result value
  | .error f => .error f.cause.message

/-- The answers to texts that are given one after the other. -/
def outputs (interp : Interpreter) : List String → List Output
  | [] => []
  | text :: rest => interp.answerTo text :: (interp.runInput text).2.outputs rest

/-- **What a worker makes of an outcome is what the text is to be answered with.** -/
theorem ofOutcome_runInput (interp : Interpreter) (text : String) :
    Output.ofOutcome (interp.runInput text).1 = interp.answerTo text := by
  unfold answerTo
  cases (interp.runInput text).1 <;> rfl

@[simp] theorem outputs_nil (interp : Interpreter) : interp.outputs [] = [] := rfl

@[simp] theorem outputs_cons (interp : Interpreter) (text : String) (rest : List String) :
    interp.outputs (text :: rest)
      = interp.answerTo text :: (interp.runInput text).2.outputs rest := rfl

@[simp] theorem afterInputs_nil (interp : Interpreter) : interp.afterInputs [] = interp := rfl

@[simp] theorem afterInputs_cons (interp : Interpreter) (text : String) (rest : List String) :
    interp.afterInputs (text :: rest) = (interp.runInput text).2.afterInputs rest := rfl

/-- The interpreter carries over from one batch of programs to the next. -/
theorem afterInputs_append (interp : Interpreter) (texts rest : List String) :
    interp.afterInputs (texts ++ rest) = (interp.afterInputs texts).afterInputs rest :=
  List.foldl_append

/-- **The second batch is answered by the interpreter that the first one left.** -/
theorem outputs_append (interp : Interpreter) (texts rest : List String) :
    interp.outputs (texts ++ rest)
      = interp.outputs texts ++ (interp.afterInputs texts).outputs rest := by
  induction texts generalizing interp with
  | nil => rfl
  | cons text texts ih =>
    rw [List.cons_append, outputs_cons, outputs_cons, afterInputs_cons, ih, List.cons_append]

/-- There is one answer a text. -/
@[simp] theorem length_outputs (interp : Interpreter) (texts : List String) :
    (interp.outputs texts).length = texts.length := by
  induction texts generalizing interp with
  | nil => rfl
  | cons text texts ih => rw [outputs_cons, List.length_cons, List.length_cons, ih]

/-- Every answer is made of an outcome. -/
theorem exists_outcome_of_mem_outputs {interp : Interpreter} {texts : List String}
    {output : Output} (h : output ∈ interp.outputs texts) :
    ∃ outcome, output = .ofOutcome outcome := by
  induction texts generalizing interp with
  | nil => exact absurd h List.not_mem_nil
  | cons text texts ih =>
    rcases List.mem_cons.mp h with rfl | h
    · exact ⟨_, (interp.ofOutcome_runInput text).symm⟩
    · exact ih h

end Interpreter

/-! ## §2. Programs and control words. -/

/-- A line that a worker takes for a program. -/
def IsProgram (line : String) : Prop := line ∉ ["stop", "reset", "exit"]

instance : DecidablePred IsProgram := fun _ => inferInstanceAs (Decidable (¬ _))

/-- A program line is evaluated, whatever it holds. -/
theorem ofLine_of_isProgram {line : String} (h : IsProgram line) :
    Request.ofLine line = .eval line := by
  simp only [IsProgram, List.mem_cons, List.not_mem_nil, or_false, not_or] at h
  obtain ⟨hstop, hreset, hexit⟩ := h
  simp [Request.ofLine, hstop, hreset, hexit]

/-- The worker's own test for a word of control is the specification's. -/
theorem isControl_ofLine (line : String) :
    (Request.ofLine line).isControl = !decide (IsProgram line) := by
  by_cases h : IsProgram line
  · rw [ofLine_of_isProgram h]
    simp [Request.isControl, h]
  · have hmem := Decidable.not_not.mp h
    simp only [List.mem_cons, List.not_mem_nil, or_false] at hmem
    rcases hmem with rfl | rfl | rfl <;> simp [Request.ofLine, Request.isControl, h]

/-- The lines before the first control word. -/
def programs (lines : List String) : List String := lines.takeWhile IsProgram

@[simp] theorem programs_nil : programs [] = [] := rfl

/-- Without a word of control all lines are programs. -/
theorem programs_eq_self {lines : List String} (h : ∀ line ∈ lines, IsProgram line) :
    programs lines = lines :=
  List.takeWhile_eq_self_iff.mpr (by simpa using h)

theorem programs_cons_of_isProgram {line : String} (h : IsProgram line) (lines : List String) :
    programs (line :: lines) = line :: programs lines :=
  List.takeWhile_cons_of_pos (by simpa using h)

/-- A word of control ends the worker, so no later line is a program for it. -/
theorem programs_cons_of_not_isProgram {line : String} (h : ¬ IsProgram line)
    (lines : List String) : programs (line :: lines) = [] :=
  List.takeWhile_cons_of_neg (by simpa using h)

/-! ## §3. A worker that takes every line. -/

namespace Worker

/-- One turn of the worker on a program: one line is taken, one output is added, and the
interpreter is the one the program leaves. This is where the worker's output is found to be
`answerTo`. -/
theorem step_of_isProgram {line : String} (h : IsProgram line) (interp : Interpreter)
    (rest : List String) (outbox : List Output) :
    step ⟨interp, line :: rest, outbox, false⟩
      = ⟨(interp.runInput line).2, rest, outbox ++ [interp.answerTo line], false⟩ := by
  simp [step, ofLine_of_isProgram h, Interpreter.ofOutcome_runInput]

/-- One turn of the worker on a word of control: it ends without an output. -/
theorem step_of_not_isProgram {line : String} (h : ¬ IsProgram line) (interp : Interpreter)
    (rest : List String) (outbox : List Output) :
    step ⟨interp, line :: rest, outbox, false⟩ = ⟨interp, [], outbox, true⟩ := by
  have hcontrol := isControl_ofLine line
  cases hline : Request.ofLine line with
  | eval source => simp [hline, Request.isControl, h] at hcontrol
  | _ => simp [step, hline]

/-- A worker that has ended does nothing more, however long it is left alone. -/
theorem work_of_hasEnded {w : Worker} (h : w.hasEnded = true) (steps : Nat) :
    work steps w = w := by
  induction steps with
  | zero => rfl
  | succ steps ih => simp [work, step, h, ih]

/-- **Where a worker gets to**: it answers every line before the first control word, and
ends at that word. -/
theorem settle_eq (interp : Interpreter) (inbox : List String) (outbox : List Output) :
    settle ⟨interp, inbox, outbox, false⟩
      = ⟨interp.afterInputs (programs inbox), [], outbox ++ interp.outputs (programs inbox),
          inbox.any fun line => !decide (IsProgram line)⟩ := by
  unfold settle
  induction inbox generalizing interp outbox with
  | nil => simp [work]
  | cons line rest ih =>
    by_cases h : IsProgram line
    · show work rest.length (step ⟨interp, line :: rest, outbox, false⟩) = _
      rw [step_of_isProgram h, ih, programs_cons_of_isProgram h]
      simp [h]
    · show work rest.length (step ⟨interp, line :: rest, outbox, false⟩) = _
      rw [step_of_not_isProgram h, work_of_hasEnded rfl, programs_cons_of_not_isProgram h]
      simp [h]

/-- A worker that is fed all of the lines answers those before the first control word. -/
theorem answers_eq (interp : Interpreter) (lines : List String) :
    answers interp lines = interp.outputs (programs lines) := by
  unfold answers fresh
  rw [settle_eq]
  rfl

end Worker

/-! ## §4. Answers and the text of a stopped session. -/

/-- The letters of the text that a stopped session answers. -/
def notRunningLetters : List Char :=
  ['E', 'r', 'o', ':', ' ', 'i', 'n', 't', 'e', 'p', 'k', 'l', 'u', 'g']

/-- The reply of a session without a worker is told from an error message by one letter. -/
theorem ne_notRunning_of_mem {message : String} {c : Char} (h : c ∈ message.toList)
    (hc : c ∉ notRunningLetters) : Output.error message ≠ Session.notRunning := by
  intro hmessage
  injection hmessage with hmessage
  have hletters : ∀ d ∈ "Error: interpreter kernel not running".toList, d ∈ notRunningLetters := by
    simp [notRunningLetters]
  exact hc (hletters c (hmessage ▸ h))

/-- That letter may be looked for in the fixed start of the message. -/
theorem ne_notRunning_of_mem_left {start : String} (rest : String) {c : Char}
    (h : c ∈ start.toList) (hc : c ∉ notRunningLetters) :
    Output.error (start ++ rest) ≠ Session.notRunning :=
  ne_notRunning_of_mem (by rw [String.toList_append]; exact List.mem_append_left _ h) hc

/-- Every cause is worded with a letter that the text of a stopped session has not. -/
theorem message_ne_notRunning (cause : Cause) :
    Output.error cause.message ≠ Session.notRunning := by
  unfold Cause.message
  cases cause with
  | malformed detail =>
    exact ne_notRunning_of_mem_left detail.text (c := 'v') (by decide) (by decide)
  | mismatch procedure expected actual =>
    -- the name of the procedure comes first, and may be any text
    refine ne_notRunning_of_mem (c := 'x') ?_ (by decide)
    simp only [String.toList_append, List.mem_append]
    exact .inl (.inl (.inl (.inr (by decide))))
  | argument procedure expected actual =>
    simp only [String.append_assoc]
    exact ne_notRunning_of_mem_left _ (c := 'w') (by decide) (by decide)
  | unboundSymbol symbol =>
    simp only [String.append_assoc]
    exact ne_notRunning_of_mem_left _ (c := 'b') (by decide) (by decide)
  | unknownProcedure name =>
    simp only [String.append_assoc]
    exact ne_notRunning_of_mem_left _ (c := 'w') (by decide) (by decide)
  | redefinition name =>
    simp only [String.append_assoc]
    exact ne_notRunning_of_mem_left _ (c := 'c') (by decide) (by decide)
  | plotDomain refusal =>
    exact ne_notRunning_of_mem_left refusal.text (c := 'c') (by decide) (by decide)
  | recursionLimit limit =>
    simp only [String.append_assoc]
    exact ne_notRunning_of_mem_left _ (c := 'c') (by decide) (by decide)
  | unreadable path reason =>
    simp only [String.append_assoc]
    exact ne_notRunning_of_mem_left _ (c := 'c') (by decide) (by decide)

/-- **No program is answered like a stopped session.** -/
theorem ofOutcome_ne_notRunning (outcome : Except Fault Expr) :
    Output.ofOutcome outcome ≠ Session.notRunning := by
  cases outcome with
  | ok value => simp [Output.ofOutcome, Session.notRunning]
  | error f => exact message_ne_notRunning f.cause

end PlotLisp
