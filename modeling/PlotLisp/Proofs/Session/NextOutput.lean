/-
  PlotLisp.Proofs.Session.NextOutput
  ──────────────────────────────────────
  **EVAL ANSWERS WITH THE NEXT OUTPUT.**

  `eval` sends a program and takes the next output.  That is the output of the
  program only if the host has received every output before it:

    • `SinceStart` — what has happened since the session's worker was started;
    • `Reached.run` — after any operations, on any schedule, a running session has
      come from such a start;
    • `Serves.answers_eval` — of the outputs that are still to be received, with the
      program's own as the last one, `eval` answers with the first.
-/
import PlotLisp.Proofs.Session.Restart

namespace PlotLisp

namespace System

/-! ## §1. Since the worker was started. -/

/-- A session whose worker has just been started. -/
def started (baseline : Interpreter) (abandoned : List Thread) : System :=
  ⟨.fresh baseline, .waiting, .free, abandoned⟩

/-- The events end with `since`, which is what has happened since the session's worker was
started from the baseline. -/
def SinceStart (baseline : Interpreter) (events since : List Event) (s : System) : Prop :=
  ∃ earlier abandoned, events = earlier ++ since
    ∧ Run (fresh baseline) earlier (started baseline abandoned)
    ∧ Run (started baseline abandoned) since s
    ∧ ∀ operation ∈ operations since, operation.KeepsWorker

theorem SinceStart.serves {baseline : Interpreter} {events since : List Event} {s : System}
    (h : SinceStart baseline events since s) :
    ∃ t, s.Serves t ∧ received since ++ t.forthcoming = baseline.outputs (submitted since)
      ∧ t.afterPending = baseline.afterInputs (submitted since) := by
  obtain ⟨earlier, abandoned, -, -, hrun, hkeeps⟩ := h
  have hstarted : (started baseline abandoned).Serves ⟨.fresh baseline, .waiting⟩ :=
    ⟨rfl, rfl, Thread.serving_fresh baseline⟩
  obtain ⟨t, hserves, -, hconserves⟩ := hstarted.run hrun trivial hkeeps
  exact ⟨t, hserves, hconserves.outputs, hconserves.interp⟩

/-- How a session has come to where it is. -/
inductive Reached (baseline : Interpreter) (events : List Event) (s : System) : Prop where
  /-- Its worker was started some events ago. -/
  | working {since} : SinceStart baseline events since s → Reached baseline events s
  /-- Its worker is being started. -/
  | starting : Renewed baseline s → Reached baseline events s
  /-- It is stopped, or waits for its worker to end. -/
  | stopped : Sound false s → Reached baseline events s

/-- A worker that has been started and not been used is one that works. -/
theorem Renewed.sinceStart {baseline : Interpreter} {events : List Event} {s : System}
    (h : Renewed baseline s) (hrun : Run (fresh baseline) events s) (hfree : s.host = .free) :
    SinceStart baseline events [] s := by
  obtain ⟨session, activity, host, abandoned⟩ := s
  cases h with
  | started hsession hactivity =>
    cases hsession
    cases hactivity
    cases hfree
    exact ⟨events, abandoned, (List.append_nil events).symm, hrun, .refl,
      fun _ hmem => absurd hmem List.not_mem_nil⟩
  | restarting _ _ hhost => exact absurd (hfree.symm.trans hhost) (by simp)

theorem SinceStart.append {baseline : Interpreter} {events since later : List Event}
    {s s' : System} (h : SinceStart baseline events since s) (hrun : Run s later s')
    (hkeeps : ∀ operation ∈ operations later, operation.KeepsWorker) :
    SinceStart baseline (events ++ later) (since ++ later) s' := by
  obtain ⟨earlier, abandoned, rfl, hearlier, hsince, hkeeps'⟩ := h
  refine ⟨earlier, abandoned, List.append_assoc _ _ _, hearlier, hsince.append hrun, ?_⟩
  intro operation hmem
  rw [operations, List.flatMap_append] at hmem
  rcases List.mem_append.mp hmem with hmem | hmem
  · exact hkeeps' operation hmem
  · exact hkeeps operation hmem

theorem Reached.works {baseline : Interpreter} {events : List Event} {s s' : System}
    (h : Reached baseline events s) (hworks : Works s s') : Reached baseline events s' := by
  cases h with
  | working hsince =>
    have hlater := hsince.append (.work hworks .refl) fun _ hmem => absurd hmem List.not_mem_nil
    rw [List.append_nil] at hlater
    exact .working hlater
  | starting hrenewed => exact .starting (hrenewed.works hworks)
  | stopped hsound => exact .stopped (hsound.works hworks)

/-- An operation that takes the worker from its place starts a new one or leaves none. -/
theorem Sound.reached_call {baseline : Interpreter} {s : System} {running : Bool}
    (h : Sound running s) (hfree : s.host = .free) (hbaseline : s.session.baseline = baseline)
    {operation : Operation} (hkeeps : ¬ operation.KeepsWorker) (events : List Event) :
    Reached baseline events (s.call operation) := by
  subst hbaseline
  have hsound := h.call_of_not_keepsWorker hfree hkeeps
  cases operation with
  | submit line =>
    rw [Operation.leavesRunning?, if_neg (show ¬ IsProgram line from hkeeps)] at hsound
    exact .stopped hsound
  | eval line =>
    rw [Operation.leavesRunning?, if_neg (show ¬ IsProgram line from hkeeps)] at hsound
    exact .stopped hsound
  | stop => exact .stopped hsound
  | reset => exact .starting h.renewed_reset
  | interrupt => exact .starting (.started rfl rfl id)
  | receive => exact absurd trivial hkeeps
  | poll => exact absurd trivial hkeeps
  | isRunning => exact absurd trivial hkeeps
  | start => exact absurd trivial hkeeps

theorem Reached.call {baseline : Interpreter} {events : List Event} {s : System}
    (h : Reached baseline events s) (hrun : Run (fresh baseline) events s) (hfree : s.host = .free)
    (operation : Operation) :
    Reached baseline (events ++ [.call operation]) (s.call operation) := by
  have hbaseline : s.session.baseline = baseline := hrun.baseline
  by_cases hkeeps : operation.KeepsWorker
  · have hworking {since : List Event} (hsince : SinceStart baseline events since s) :
        Reached baseline (events ++ [.call operation]) (s.call operation) := by
      refine .working (hsince.append (.call hfree .refl) fun other hmem => ?_)
      rwa [List.mem_singleton.mp hmem]
    cases h with
    | working hsince => exact hworking hsince
    | starting hrenewed => exact hworking (hrenewed.sinceStart hrun hfree)
    | stopped hsound =>
      -- only `start` makes a difference to a session that is stopped
      by_cases hstart : operation = .start
      · subst hstart
        exact .starting (hbaseline ▸ hsound.renewed_start hfree)
      · have hleaves : operation.leavesRunning?.getD false = false := by
          cases operation with
          | submit line => simp [Operation.leavesRunning?, show IsProgram line from hkeeps]
          | eval line => simp [Operation.leavesRunning?, show IsProgram line from hkeeps]
          | receive => rfl
          | poll => rfl
          | isRunning => rfl
          | start => exact absurd rfl hstart
          | stop => exact absurd hkeeps id
          | reset => exact absurd hkeeps id
          | interrupt => exact absurd hkeeps id
        exact .stopped (hleaves ▸ hsound.call hfree operation)
  · exact (Sound.run hrun (sound_fresh baseline)).reached_call hfree hbaseline hkeeps _

theorem Reached.answer {baseline : Interpreter} {events : List Event} {s s' : System}
    (h : Reached baseline events s) {answer : Answer} (hanswer : s.answer? = some (answer, s')) :
    Reached baseline (events ++ [.answer answer]) s' := by
  cases h with
  | working hsince =>
    exact .working (hsince.append (.answer hanswer .refl) fun _ hmem =>
      absurd hmem List.not_mem_nil)
  | starting hrenewed => exact .starting (hrenewed.answer hanswer)
  | stopped hsound => exact .stopped (hsound.answer hanswer).1

/-- **How a session has come to where it is** after any operations, on any schedule. -/
theorem Reached.run {baseline : Interpreter} {s s' : System} {events : List Event}
    (hrun : Run s events s') :
    ∀ {before : List Event}, Run (fresh baseline) before s → Reached baseline before s →
      Reached baseline (before ++ events) s' := by
  -- what came before grows by the events that are taken off the run
  induction hrun with
  | refl =>
    intro before _ h
    rwa [List.append_nil]
  | work hworks _ ih =>
    intro before hbefore h
    have hbefore' := hbefore.append (.work hworks .refl)
    rw [List.append_nil] at hbefore'
    exact ih hbefore' (h.works hworks)
  | call hfree _ ih =>
    intro before hbefore h
    rw [List.append_cons]
    exact ih (hbefore.append (.call hfree .refl)) (h.call hbefore hfree _)
  | answer hanswer _ ih =>
    intro before hbefore h
    rw [List.append_cons]
    exact ih (hbefore.append (.answer hanswer .refl)) (h.answer hanswer)

theorem exists_sinceStart {baseline : Interpreter} {events : List Event} {s : System}
    (hrun : Run (fresh baseline) events s) (hfree : s.host = .free)
    (hrunning : s.session.isRunning = true) : ∃ since, SinceStart baseline events since s := by
  have hnew : Reached baseline [] (fresh baseline) := .starting (.started rfl rfl id)
  have hreached : Reached baseline events s := Reached.run hrun .refl hnew
  cases hreached with
  | working hsince => exact ⟨_, hsince⟩
  | starting hrenewed => exact ⟨[], hrenewed.sinceStart hrun hfree⟩
  | stopped hsound =>
    exact absurd (hrunning.symm.trans (hsound.isRunning (not_joins_of_free hfree))) (by simp)

/-! ## §2. What a worker gives to `eval`. -/

/-- A host that waits for an output is answered with an output. -/
theorem output_of_receiving {s s' : System} (hhost : s.host = .receiving) {answer : Answer}
    (h : s.answer? = some (answer, s')) : ∃ output, answer = .output output := by
  simp only [answer?, hhost, Option.map_eq_some_iff, Prod.exists] at h
  obtain ⟨output, session, -, h⟩ := h
  cases h
  exact ⟨output, rfl⟩

/-- **Of the outputs that are still to be received, and the program's own behind them, `eval`
answers with the first**, on every schedule. -/
theorem Serves.answers_eval {s : System} {t : Thread} (h : s.Serves t) (hfree : s.host = .free)
    {line : String} (hline : IsProgram line) :
    s.Answers (.eval line)
      (.output (t.forthcoming.headD (t.afterPending.answerTo line))) := by
  have hfirst {given : Output} {rest : List Output}
      (hgiven : [given] ++ rest = t.forthcoming ++ t.afterPending.outputs [line]) :
      given = t.forthcoming.headD (t.afterPending.answerTo line) := by
    cases hforthcoming : t.forthcoming <;> rw [hforthcoming] at hgiven
    · exact (List.cons.inj hgiven).1
    · exact (List.cons.inj hgiven).1
  have hall {answer : Answer} {s' : System} (hrun : Run s [.call (.eval line), .answer answer] s') :
      ∃ rest, answer.outputs ++ rest = t.forthcoming ++ t.afterPending.outputs [line] := by
    have hkeeps : ∀ operation ∈ operations [.call (.eval line), .answer answer],
        operation.KeepsWorker := by
      intro operation hmem
      rw [List.mem_singleton.mp hmem]
      exact hline
    obtain ⟨t', -, -, hconserves⟩ := h.run hrun (quiet_of_free hfree) hkeeps
    refine ⟨t'.forthcoming, ?_⟩
    simpa [received, submitted, operations, Operation.texts] using hconserves.outputs
  constructor
  · -- the program's own output is to come at least
    have hcalled : (s.call (.eval line)).Serves (t.submit line) := by
      simp only [System.call, h.submit hline, if_pos hline]
      exact ⟨rfl, h.activity, h.serving.submit hline⟩
    have hhost : (s.call (.eval line)).host = .receiving := by
      simp only [System.call, h.submit hline, if_pos hline, if_true]
    have hsome : (t.submit line).forthcoming ≠ [] := by
      have houtputs := (Thread.conserves_submit h.serving hline).outputs
      rw [List.nil_append] at houtputs
      simp [houtputs]
    obtain ⟨output, s', hrun, -⟩ := hcalled.exists_received hhost hsome
    obtain ⟨rest, hrest⟩ := hall (.call hfree hrun)
    exact ⟨s', hfirst hrest ▸ .call hfree hrun⟩
  · intro answer s' hrun
    obtain ⟨rest, hrest⟩ := hall hrun
    -- workers may move before the call and before the answer
    obtain ⟨s₁, hrun₁, hfree₁, hrun₂⟩ := hrun.exists_of_call
    obtain ⟨s₂, s₃, hrun₃, hanswer, -⟩ := hrun₂.exists_of_answer
    obtain ⟨t₁, h₁, -, -⟩ := h.run hrun₁ (quiet_of_free hfree) fun _ hmem =>
      absurd hmem List.not_mem_nil
    have hhost₁ : (s₁.call (.eval line)).host = .receiving := by
      simp only [System.call, h₁.submit hline, if_pos hline, if_true]
    have hhost₂ := host_of_run_nil hrun₃ (by rw [hhost₁]; exact id)
    obtain ⟨output, rfl⟩ := output_of_receiving (hhost₂.trans hhost₁) hanswer
    rw [hfirst hrest]

theorem Answers.unique {s : System} {operation : Operation} {answer answer' : Answer}
    (h : s.Answers operation answer) (h' : s.Answers operation answer') : answer' = answer := by
  obtain ⟨s', hrun⟩ := h'.1
  exact h.2 answer' s' hrun

end System

/-! ## §3. Own and earlier outputs. -/

/-- What the host has not yet received of the outputs of the texts that it has sent. -/
def unread (baseline : Interpreter) (since : List Event) : List Output :=
  (baseline.outputs (submitted since)).drop (received since).length

/-- What a program is answered with by the interpreter that the texts sent before have left. -/
def ownOutput (baseline : Interpreter) (since : List Event) (line : String) : Output :=
  (baseline.afterInputs (submitted since)).answerTo line

/-- **EVAL ANSWERS WITH THE NEXT OUTPUT.**  Whatever was called on a session, and on whatever
schedule: as long as it is running, `eval` answers a program with the first output, since the
worker was started, that the host has not received, and with the program's own if there is no
other.  So it answers the program that it was given iff every output before was received, or the
first that was not is the same. -/
theorem eval_answers_with_next_output (baseline : Interpreter) {events : List Event} {s : System}
    (hrun : System.Run (.fresh baseline) events s) (hfree : s.host = .free)
    (hrunning : s.session.isRunning = true) {line : String} (hline : IsProgram line) :
    ∃ since, System.SinceStart baseline events since s
      ∧ received since ++ unread baseline since = baseline.outputs (submitted since)
      ∧ s.Answers (.eval line)
          (.output ((unread baseline since).headD (ownOutput baseline since line)))
      ∧ (s.Answers (.eval line) (.output (ownOutput baseline since line))
          ↔ ∀ first ∈ (unread baseline since).head?, first = ownOutput baseline since line) := by
  obtain ⟨since, hsince⟩ := System.exists_sinceStart hrun hfree hrunning
  obtain ⟨t, hserves, houtputs, hinterp⟩ := hsince.serves
  have hunread : unread baseline since = t.forthcoming := by
    rw [unread, ← houtputs, List.drop_left]
  have hanswers := hserves.answers_eval hfree hline
  rw [hinterp, ← hunread] at hanswers
  refine ⟨since, hsince, by rw [hunread, houtputs], hanswers, fun hown => ?_, fun hown => ?_⟩
  · have hsame := hanswers.unique hown
    cases hcase : unread baseline since with
    | nil => simp
    | cons first rest =>
      rw [hcase] at hsame
      simpa [ownOutput, eq_comm] using hsame
  · cases hcase : unread baseline since with
    | nil => rwa [hcase] at hanswers
    | cons first rest =>
      rw [hcase] at hanswers hown
      have hfirst : first = ownOutput baseline since line := hown first rfl
      exact hfirst ▸ hanswers

/-- A session that was used, interrupted and used again, with two outputs still to be received. -/
def interruptedAndUsed : List Operation := [.submit "x", .interrupt, .submit "(", .submit "x"]

/-- The output of the first program since the interrupt is the next. -/
theorem eval_answers_with_next_output_after_interrupt :
    ∃ events s since, System.Run (.fresh (.fresh 1000)) events s
      ∧ operations events = interruptedAndUsed
      ∧ System.SinceStart (.fresh 1000) events since s
      ∧ s.Answers (.eval "(x)") (.output ((unread (.fresh 1000) since).headD
          (ownOutput (.fresh 1000) since "(x)"))) := by
  -- nothing of this depends on what the programs evaluate to
  generalize Interpreter.fresh 1000 = baseline
  obtain ⟨events, session, hperform, hoperations, hrunning⟩ :
      ∃ events session,
        (Session.fresh baseline).performAll interruptedAndUsed = some (events, session)
          ∧ operations events = interruptedAndUsed ∧ session.isRunning = true :=
    ⟨_, _, rfl, rfl, rfl⟩
  obtain ⟨s, hrun, hfree, -, rfl⟩ :=
    System.run_of_performAll (s := .fresh baseline) rfl rfl hperform
  obtain ⟨since, hsince, -, hanswers, -⟩ :=
    eval_answers_with_next_output baseline hrun hfree hrunning (show IsProgram "(x)" by decide)
  exact ⟨events, s, since, hrun, hoperations, hsince, hanswers⟩

/-- A text that is no program is answered with the detail of its parse error. -/
theorem answerTo_of_parse_error {text : String} {error : Source.ParseError}
    (h : Source.parse text = .error error) (interp : Interpreter) :
    interp.answerTo text = .error (Cause.malformed (error.detail text.toList)).message := by
  simp only [Interpreter.answerTo, Interpreter.runInput, Interpreter.run, Interpreter.read,
    SourceText.parse, h]
  rfl

/-- After one text was submitted and its output not received, another one is answered with that
output: the first lacks its opening parenthesis, the second its head. -/
theorem eval_answers_an_earlier_program :
    ∃ events s, System.Run (.fresh (.fresh 1000)) events s
      ∧ operations events = [.submit "x"] ∧ s.host = .free ∧ s.session.isRunning = true
      ∧ IsProgram "("
      ∧ ¬ s.Answers (.eval "(")
          (.output (((Interpreter.fresh 1000).afterInputs ["x"]).answerTo "(")) := by
  generalize Interpreter.fresh 1000 = baseline
  have hx : IsProgram "x" := by decide
  have hopen : IsProgram "(" := by decide
  have hfresh : (System.fresh baseline).Serves ⟨.fresh baseline, .waiting⟩ :=
    ⟨rfl, rfl, Thread.serving_fresh baseline⟩
  refine ⟨[.call (.submit "x"), .answer (.flag true)], _, .call rfl (.answer rfl .refl), rfl, rfl,
    rfl, hopen, fun hown => ?_⟩
  have hsubmitted : System.Serves ((System.fresh baseline).call (.submit "x"))
      (Thread.submit ⟨.fresh baseline, .waiting⟩ "x") := ⟨rfl, rfl, hfresh.serving.submit hx⟩
  have hserves : System.Serves
      { (System.fresh baseline).call (.submit "x") with host := .free }
      (Thread.submit ⟨.fresh baseline, .waiting⟩ "x") :=
    ⟨hsubmitted.worker, hsubmitted.activity, hsubmitted.serving⟩
  have hsame := (hserves.answers_eval rfl hopen).unique hown
  -- what is still to be received is the output of the first text
  have hfirst : (Thread.submit ⟨.fresh baseline, .waiting⟩ "x").forthcoming
      = [baseline.answerTo "x"] :=
    (Thread.conserves_submit hfresh.serving hx).outputs
  have hparse : Source.parse "x" = .error ⟨0, .expression⟩ := by decide
  have hparse' : Source.parse "(" = .error ⟨1, .head⟩ := by decide
  rw [hfirst, List.headD_cons, answerTo_of_parse_error hparse,
    answerTo_of_parse_error hparse'] at hsame
  exact absurd hsame (by decide)

end PlotLisp
