/-
  PlotLisp.Proofs.Session.Running
  ──────────────────────────────────────
  **A SESSION THAT SAYS IT IS RUNNING CAN WORK.**

  Control words are met in three places: the host keeps those that are submitted
  out of the inbox, sends one itself to end a worker, and the worker ends at the
  first that it takes.  Whatever is called, and whatever the schedule:

    • `System.Sound` — a session has a worker that serves, or none, or is waiting
      for one to end that it has let go of;
    • `Sound.run` — which of these is decided by the last operation that starts
      or stops the session;
    • `CanWork`, `IsStopped` — what a session answers in each case.
-/
import PlotLisp.Proofs.Session.InOrder

namespace PlotLisp

/-! ## §1. Operations that start and stop. -/

/-- Whether an operation leaves the session running; `none` if that stays as it was. -/
def Operation.leavesRunning? : Operation → Option Bool
  | .submit line => if IsProgram line then none else some false
  | .eval line => if IsProgram line then none else some false
  | .receive => none
  | .poll => none
  | .isRunning => none
  | .start => some true
  | .stop => some false
  | .reset => some true
  | .interrupt => some true

/-- Does the last operation that starts or stops the session start it?  Without one, the session
is running as it was `before`. -/
def leftRunning (before : Bool) (events : List Event) : Bool :=
  ((operations events).filterMap Operation.leavesRunning?).getLastD before

@[simp] theorem leftRunning_nil (before : Bool) : leftRunning before [] = before := rfl

theorem leftRunning_call (before : Bool) (operation : Operation) (events : List Event) :
    leftRunning before (.call operation :: events)
      = leftRunning (operation.leavesRunning?.getD before) events := by
  show (List.filterMap _ (operation :: operations events)).getLastD before = _
  cases h : operation.leavesRunning? with
  | none => rw [List.filterMap_cons_none h]; rfl
  | some running => rw [List.filterMap_cons_some h, List.getLastD_cons]; rfl

theorem leftRunning_answer (before : Bool) (answer : Answer) (events : List Event) :
    leftRunning before (.answer answer :: events) = leftRunning before events := rfl

theorem Operation.KeepsWorker.leavesRunning {operation : Operation} (h : operation.KeepsWorker) :
    operation.leavesRunning?.getD true = true := by
  cases operation with
  | submit line => simp [leavesRunning?, show IsProgram line from h]
  | eval line => simp [leavesRunning?, show IsProgram line from h]
  | receive => rfl
  | poll => rfl
  | isRunning => rfl
  | start => rfl
  | stop => exact absurd h id
  | reset => exact absurd h id
  | interrupt => exact absurd h id

/-- What a host gets that is waiting, if there is no worker. -/
def Host.stoppedAnswer? : Host → Option Answer
  | .answering answer => some answer
  | .receiving => some (.output Session.notRunning)
  | .polling => some .nothing
  | _ => none

/-- What the operations that use a worker answer if there is none. -/
def Operation.stoppedAnswer? : Operation → Option Answer
  | .submit _ => some (.flag false)
  | .eval _ => some (.output Session.notRunning)
  | .receive => some (.output Session.notRunning)
  | .poll => some .nothing
  | _ => none

/-- A session without a worker takes no line. -/
theorem Session.submit_of_stopped {s : Session} (h : s.worker = none) (line : String) :
    s.submit line = (false, s) := by
  obtain ⟨baseline, worker⟩ := s
  subst h
  unfold submit
  cases (Request.ofLine line).isControl <;> rfl

namespace System

/-! ## §2. Sound sessions. -/

/-- What a session can be between two moves, and whether it will be running once its host is
free. -/
inductive Sound : Bool → System → Prop where
  /-- There is a worker, and it serves. -/
  | running {s t} : s.Serves t → ¬ s.host.Joins → Sound true s
  /-- There is no worker. -/
  | stopped {s} : s.session.worker = none → s.activity = .waiting → ¬ s.host.Joins → Sound false s
  /-- The worker was let go of, and the host waits for it to end. -/
  | joining {s thread restart answer} : s.session.worker = none → s.activity = .waiting →
      s.host = .joining thread restart answer → Sound restart s

theorem sound_fresh (baseline : Interpreter) : Sound true (fresh baseline) :=
  .running ⟨rfl, rfl, Thread.serving_fresh baseline⟩ id

theorem Sound.isRunning {s : System} {running : Bool} (h : Sound running s)
    (hjoins : ¬ s.host.Joins) : s.session.isRunning = running := by
  cases h with
  | running hserves => exact hserves.isRunning
  | stopped hworker => rw [Session.isRunning, hworker]; rfl
  | joining _ _ hhost => exact absurd (joins_of_joining hhost) hjoins

theorem Sound.works {s s' : System} {running : Bool} (h : Sound running s)
    (hworks : Works s s') : Sound running s' := by
  cases h with
  | running hserves hjoins =>
    obtain ⟨t', hserves', -⟩ := hserves.works hworks
    exact .running hserves' (host_of_works hworks hjoins ▸ hjoins)
  | stopped hworker hactivity hjoins =>
    cases hworks with
    | current hw => exact absurd (hworker.symm.trans hw) (by simp)
    | dismissed hhost => exact absurd (joins_of_joining hhost) hjoins
    | abandoned => exact .stopped hworker hactivity hjoins
  | joining hworker hactivity hhost =>
    cases hworks with
    | current hw => exact absurd (hworker.symm.trans hw) (by simp)
    | dismissed hhost' =>
      cases hhost.symm.trans hhost'
      exact .joining hworker hactivity rfl
    | abandoned => exact .joining hworker hactivity hhost

/-- A new worker serves. -/
theorem sound_of_fresh_worker {s : System}
    (hworker : s.session.worker = some (.fresh s.session.baseline))
    (hactivity : s.activity = .waiting) (hjoins : ¬ s.host.Joins) : Sound true s :=
  .running ⟨hworker, hactivity, Thread.serving_fresh s.session.baseline⟩ hjoins

theorem Sound.dismiss {s : System} {running : Bool} (h : Sound running s) (hfree : s.host = .free)
    (word : String) (restart : Bool) (answer : Answer) :
    Sound restart (s.dismiss word restart answer) := by
  cases h with
  | running hserves =>
    -- the session lets go of the worker before it waits for it to end
    simp only [System.dismiss, hserves.worker]
    exact .joining rfl rfl rfl
  | stopped hworker hactivity =>
    simp only [System.dismiss, hworker]
    cases restart with
    | true =>
      refine sound_of_fresh_worker ?_ hactivity id
      simp [Session.start, hworker]
    | false => exact .stopped hworker hactivity id
  | joining _ _ hhost => exact absurd (hfree.symm.trans hhost) (by simp)

/-- Operations that take the worker from its place. -/
theorem Sound.call_of_not_keepsWorker {s : System} {running : Bool} (h : Sound running s)
    (hfree : s.host = .free) {operation : Operation} (hkeeps : ¬ operation.KeepsWorker) :
    Sound (operation.leavesRunning?.getD running) (s.call operation) := by
  cases operation with
  | submit line =>
    simp only [System.call, Operation.leavesRunning?, if_neg (show ¬ IsProgram line from hkeeps)]
    exact h.dismiss hfree line false _
  | eval line =>
    simp only [System.call, Operation.leavesRunning?, if_neg (show ¬ IsProgram line from hkeeps)]
    exact h.dismiss hfree line false _
  | stop => exact h.dismiss hfree "stop" false .done
  | reset => exact h.dismiss hfree "reset" true .done
  | interrupt => exact sound_of_fresh_worker rfl rfl id
  | receive => exact absurd trivial hkeeps
  | poll => exact absurd trivial hkeeps
  | isRunning => exact absurd trivial hkeeps
  | start => exact absurd trivial hkeeps

/-- The other operations, if there is no worker. -/
theorem Sound.call_of_stopped {s : System} (hworker : s.session.worker = none)
    (hactivity : s.activity = .waiting) {operation : Operation} (hkeeps : operation.KeepsWorker) :
    Sound (operation.leavesRunning?.getD false) (s.call operation) := by
  cases operation with
  | submit line =>
    simp only [System.call, Operation.leavesRunning?, if_pos (show IsProgram line from hkeeps),
      Session.submit_of_stopped hworker]
    exact .stopped hworker hactivity id
  | eval line =>
    simp only [System.call, Operation.leavesRunning?, if_pos (show IsProgram line from hkeeps),
      Session.submit_of_stopped hworker]
    exact .stopped hworker hactivity id
  | receive => exact .stopped hworker hactivity id
  | poll => exact .stopped hworker hactivity id
  | isRunning => exact .stopped hworker hactivity id
  | start =>
    refine sound_of_fresh_worker ?_ hactivity id
    simp [System.call, Session.start, hworker]
  | stop => exact absurd hkeeps id
  | reset => exact absurd hkeeps id
  | interrupt => exact absurd hkeeps id

/-- **What a call preserves.** -/
theorem Sound.call {s : System} {running : Bool} (h : Sound running s) (hfree : s.host = .free)
    (operation : Operation) : Sound (operation.leavesRunning?.getD running) (s.call operation) := by
  by_cases hkeeps : operation.KeepsWorker
  · cases h with
    | running hserves =>
      obtain ⟨t, hserves', -, hquiet⟩ := hserves.call hkeeps
      rw [hkeeps.leavesRunning]
      exact .running hserves' hquiet.not_joins
    | stopped hworker hactivity => exact .call_of_stopped hworker hactivity hkeeps
    | joining _ _ hhost => exact absurd (hfree.symm.trans hhost) (by simp)
  · exact h.call_of_not_keepsWorker hfree hkeeps

/-- A session without a worker answers at once, and stays as it is. -/
theorem answer?_of_stopped {s : System} (hworker : s.session.worker = none)
    (hjoins : ¬ s.host.Joins) :
    s.answer? = s.host.stoppedAnswer?.map fun answer => (answer, { s with host := .free }) := by
  cases hhost : s.host with
  | free => simp only [answer?, hhost]; rfl
  | answering answer => simp only [answer?, hhost]; rfl
  | receiving => simp only [answer?, hhost, Session.receive?, hworker]; rfl
  | polling => simp only [answer?, hhost, Session.poll, Session.isRunning, hworker]; rfl
  | joining => exact absurd (joins_of_joining hhost) hjoins

/-- **What an answer preserves.** -/
theorem Sound.answer {s s' : System} {running : Bool} (h : Sound running s) {answer : Answer}
    (hanswer : s.answer? = some (answer, s')) : Sound running s' ∧ s'.host = .free := by
  cases h with
  | running hserves hjoins =>
    -- a quiet host gets its answer from the worker's outbox, if it gets an output
    by_cases hquiet : s.host.Quiet
    · obtain ⟨t, hserves', -, hfree⟩ := hserves.answer hquiet hanswer
      exact ⟨.running hserves' (not_joins_of_free hfree), hfree⟩
    · -- the answer of an interrupt comes from no outbox
      cases hhost : s.host with
      | answering given =>
        rw [answer?, hhost] at hanswer
        cases hanswer
        exact ⟨.running ⟨hserves.worker, hserves.activity, hserves.serving⟩ id, rfl⟩
      | joining => exact absurd (joins_of_joining hhost) hjoins
      | _ => exact absurd (by rw [hhost]; trivial) hquiet
  | stopped hworker hactivity hjoins =>
    rw [answer?_of_stopped hworker hjoins, Option.map_eq_some_iff] at hanswer
    obtain ⟨given, -, hanswer⟩ := hanswer
    cases hanswer
    exact ⟨.stopped hworker hactivity id, rfl⟩
  | joining hworker hactivity hhost =>
    simp only [answer?, hhost] at hanswer
    split at hanswer
    · cases hanswer
      cases running with
      | true =>
        refine ⟨sound_of_fresh_worker ?_ hactivity id, rfl⟩
        simp [Session.start, hworker]
      | false => exact ⟨.stopped hworker hactivity id, rfl⟩
    · exact absurd hanswer (by simp)

/-- **What a session is** after any operations, on any schedule. -/
theorem Sound.run {s s' : System} {events : List Event} (hrun : Run s events s') :
    ∀ {running : Bool}, Sound running s → Sound (leftRunning running events) s' := by
  -- the index is what the session was left as by the operations so far
  induction hrun with
  | refl => exact fun h => h
  | work hworks _ ih => exact fun h => ih (h.works hworks)
  | call hfree _ ih =>
    intro running h
    rw [leftRunning_call]
    exact ih (h.call hfree _)
  | answer hanswer _ ih =>
    intro running h
    rw [leftRunning_answer]
    exact ih (h.answer hanswer).1

/-! ## §3. What is answered on every schedule. -/

/-- The operation can be answered, and only like this. -/
def Answers (s : System) (operation : Operation) (answer : Answer) : Prop :=
  (∃ s', Run s [.call operation, .answer answer] s')
    ∧ ∀ answer' s', Run s [.call operation, .answer answer'] s' → answer' = answer

/-- While only workers move, a host that waits for none of them to end goes on with what it is
doing. -/
theorem host_of_run_nil {s s' : System} (hrun : Run s [] s') (hjoins : ¬ s.host.Joins) :
    s'.host = s.host := by
  have hmoves := hrun.works_of_nil
  clear hrun
  induction hmoves with
  | refl => rfl
  | tail _ hworks ih => rw [host_of_works hworks (ih ▸ hjoins), ih]

/-- An operation that waits for no worker. -/
theorem answers_of_answering {s : System} {operation : Operation} {answer : Answer}
    (hfree : s.host = .free)
    (h : ∀ s₁, Run s [] s₁ → s₁.host = .free → (s₁.call operation).host = .answering answer) :
    s.Answers operation answer := by
  have hanswer {s₁ : System} (hhost : s₁.host = .answering answer) :
      s₁.answer? = some (answer, { s₁ with host := .free }) := by
    simp only [answer?, hhost]
  refine ⟨⟨_, .call hfree (.answer (hanswer (h s .refl hfree)) .refl)⟩, fun answer' s' hrun => ?_⟩
  -- workers may move before the call and before the answer
  obtain ⟨s₁, hrun₁, hfree₁, hrun⟩ := hrun.exists_of_call
  obtain ⟨s₂, s₃, hrun₂, hanswer', -⟩ := hrun.exists_of_answer
  have hhost₁ := h s₁ hrun₁ hfree₁
  have hhost₂ := host_of_run_nil hrun₂ (by rw [hhost₁]; exact id)
  rw [hanswer (hhost₂.trans hhost₁)] at hanswer'
  cases hanswer'
  rfl

/-- A running session takes programs, and gives answers to programs. -/
structure CanWork (s : System) : Prop where
  worker : ∃ w, s.session.worker = some w ∧ w.hasEnded = false ∧ ∀ line ∈ w.inbox, IsProgram line
  submit : ∀ line, IsProgram line → s.Answers (.submit line) (.flag true)
  receive : ∀ w, s.session.worker = some w → Thread.forthcoming ⟨w, s.activity⟩ ≠ [] →
    ∃ output s', Run s [.call .receive, .answer (.output output)] s'
  received : ∀ later s', Run s later s' →
    (∀ operation ∈ operations later, operation.KeepsWorker) → Session.notRunning ∉ received later

/-- A stopped session says so, whatever it is used for, and stays as it is. -/
structure IsStopped (s : System) : Prop where
  answers : ∀ operation answer, operation.stoppedAnswer? = some answer → s.Answers operation answer
  unchanged : ∀ operation answer answer' s', operation.stoppedAnswer? = some answer →
    Run s [.call operation, .answer answer'] s' → ∃ abandoned, s' = s.leaving abandoned

/-- All that a host receives from a worker that serves are answers to programs. -/
theorem Serves.outcome_of_received {s s' : System} {t : Thread} {events : List Event}
    (h : s.Serves t) (hquiet : s.host.Quiet) (hrun : Run s events s')
    (hkeeps : ∀ operation ∈ operations events, operation.KeepsWorker) {output : Output}
    (hmem : output ∈ received events) : ∃ outcome, output = .ofOutcome outcome := by
  obtain ⟨t', -, -, hconserves⟩ := h.run hrun hquiet hkeeps
  have hall : output ∈ t.forthcoming ++ t.afterPending.outputs (submitted events) :=
    hconserves.outputs ▸ List.mem_append_left _ hmem
  rcases List.mem_append.mp hall with hbefore | hnew
  · exact h.serving.outcomesOnly output hbefore
  · exact Interpreter.exists_outcome_of_mem_outputs hnew

theorem Sound.exists_serves {s : System} (h : Sound true s) (hfree : s.host = .free) :
    ∃ t, s.Serves t := by
  cases h with
  | running hserves => exact ⟨_, hserves⟩
  | joining _ _ hhost => exact absurd (hfree.symm.trans hhost) (by simp)

theorem Sound.canWork {s : System} (h : Sound true s) (hfree : s.host = .free) : s.CanWork := by
  obtain ⟨t, ht⟩ := h.exists_serves hfree
  constructor
  case worker => exact ⟨t.worker, ht.worker, ht.serving.notEnded, ht.serving.programsOnly⟩
  case submit =>
    intro line hline
    refine answers_of_answering hfree fun s₁ hrun₁ hfree₁ => ?_
    obtain ⟨t₁, ht₁⟩ := (Sound.run hrun₁ h).exists_serves hfree₁
    simp only [System.call, if_pos hline, ht₁.submit hline]
  case receive =>
    intro w hw hsome
    obtain rfl : t.worker = w := Option.some.inj (ht.worker.symm.trans hw)
    have hcalled : (s.call .receive).Serves t := ⟨ht.worker, ht.activity, ht.serving⟩
    obtain ⟨output, s', hrun, -⟩ := hcalled.exists_received rfl (by rwa [ht.activity] at hsome)
    exact ⟨output, s', .call hfree hrun⟩
  case received =>
    intro later s' hrun hkeeps hmem
    obtain ⟨outcome, houtcome⟩ :=
      ht.outcome_of_received (quiet_of_free hfree) hrun hkeeps hmem
    exact ofOutcome_ne_notRunning outcome houtcome.symm

/-- While only workers move, a session without a worker stays as it is. -/
theorem eq_of_run_nil {s s' : System} (hrun : Run s [] s') (hworker : s.session.worker = none)
    (hjoins : ¬ s.host.Joins) : ∃ abandoned, s' = s.leaving abandoned := by
  have hmoves := hrun.works_of_nil
  clear hrun
  induction hmoves with
  | refl => exact ⟨_, rfl⟩
  | tail _ hworks ih =>
    obtain ⟨abandoned, rfl⟩ := ih
    cases hworks with
    | current hw => exact absurd (hworker.symm.trans hw) (by simp)
    | dismissed hhost => exact absurd (joins_of_joining hhost) hjoins
    | abandoned => exact ⟨_, rfl⟩

/-- A call that uses a worker changes nothing but what the host is doing, if there is none. -/
theorem call_of_stopped {s : System} (hworker : s.session.worker = none) {operation : Operation}
    {answer : Answer} (h : operation.stoppedAnswer? = some answer) :
    ∃ host, s.call operation = { s with host := host } ∧ host.stoppedAnswer? = some answer
      ∧ ¬ host.Joins := by
  cases operation with
  | submit line =>
    refine ⟨.answering (.flag false), ?_, h, id⟩
    by_cases hline : IsProgram line
    · simp only [System.call, if_pos hline, Session.submit_of_stopped hworker]
    · simp only [System.call, if_neg hline, Session.submit_of_stopped hworker, dismiss, hworker]
      rfl
  | eval line =>
    refine ⟨.answering (.output Session.notRunning), ?_, h, id⟩
    by_cases hline : IsProgram line
    · simp only [System.call, if_pos hline, Session.submit_of_stopped hworker]
      rfl
    · simp only [System.call, if_neg hline, dismiss, hworker]
      rfl
  | receive => exact ⟨.receiving, rfl, h, id⟩
  | poll => exact ⟨.polling, rfl, h, id⟩
  | isRunning => exact absurd h (by simp [Operation.stoppedAnswer?])
  | start => exact absurd h (by simp [Operation.stoppedAnswer?])
  | stop => exact absurd h (by simp [Operation.stoppedAnswer?])
  | reset => exact absurd h (by simp [Operation.stoppedAnswer?])
  | interrupt => exact absurd h (by simp [Operation.stoppedAnswer?])

/-- Every answer comes from a call and from what the host then waits for. -/
theorem answered_of_stopped {s s' : System} (hworker : s.session.worker = none)
    (hfree : s.host = .free) {operation : Operation} {answer answer' : Answer}
    (h : operation.stoppedAnswer? = some answer)
    (hrun : Run s [.call operation, .answer answer'] s') :
    answer' = answer ∧ ∃ abandoned, s' = s.leaving abandoned := by
  obtain ⟨s₁, hrun₁, -, hrun⟩ := hrun.exists_of_call
  obtain ⟨s₂, s₃, hrun₂, hanswer, hrun₃⟩ := hrun.exists_of_answer
  obtain ⟨abandoned₁, rfl⟩ := eq_of_run_nil hrun₁ hworker (not_joins_of_free hfree)
  obtain ⟨host, hcall, hhost, hjoins⟩ := call_of_stopped hworker h (s := s.leaving abandoned₁)
  rw [hcall] at hrun₂
  obtain ⟨abandoned₂, rfl⟩ := eq_of_run_nil hrun₂ hworker hjoins
  have hgiven := answer?_of_stopped hworker hjoins
    (s := { s with host := host, abandoned := abandoned₂ })
  rw [hhost] at hgiven
  cases hanswer.symm.trans hgiven
  obtain ⟨abandoned₃, rfl⟩ := eq_of_run_nil hrun₃ hworker id
  exact ⟨rfl, abandoned₃, by rw [leaving, leaving, hfree]⟩

theorem isStopped_of_worker {s : System} (hworker : s.session.worker = none)
    (hfree : s.host = .free) : s.IsStopped where
  answers := by
    intro operation answer h
    refine ⟨?_, fun answer' s' hrun => (answered_of_stopped hworker hfree h hrun).1⟩
    obtain ⟨host, hcall, hhost, hjoins⟩ := call_of_stopped hworker h
    have hgiven := answer?_of_stopped hworker hjoins (s := { s with host := host })
    rw [hhost, ← hcall] at hgiven
    exact ⟨_, .call hfree (.answer hgiven .refl)⟩
  unchanged := fun operation answer answer' s' h hrun =>
    (answered_of_stopped hworker hfree h hrun).2

end System

/-! ## §4. Running and stopped. -/

/-- **A SESSION THAT SAYS IT IS RUNNING CAN WORK.**  Whatever was called on a new session, and on
whatever schedule: its worker serves as long as it has one; once the host is free, the session
is running iff the last operation that starts or stops it started it; a running session works, and a
stopped one says that it is stopped and stays as it is. -/
theorem running_sessions_can_work (baseline : Interpreter) {events : List Event} {s : System}
    (hrun : System.Run (.fresh baseline) events s) :
    (∀ w, s.session.worker = some w →
        w.hasEnded = false ∧ ∀ line ∈ w.inbox, IsProgram line)
      ∧ (s.host = .free →
          s.session.isRunning = leftRunning true events
            ∧ s.Answers .isRunning (.flag (leftRunning true events))
            ∧ (s.session.isRunning = true → s.CanWork)
            ∧ (s.session.isRunning = false → s.IsStopped)) := by
  have hsound : System.Sound (leftRunning true events) s :=
    .run hrun (System.sound_fresh baseline)
  constructor
  · -- of the states of a sound session, only a running one has a worker
    intro w hw
    generalize leftRunning true events = running at hsound
    cases hsound with
    | running hserves =>
      obtain rfl := Option.some.inj (hserves.worker.symm.trans hw)
      exact ⟨hserves.serving.notEnded, hserves.serving.programsOnly⟩
    | stopped hworker => exact absurd (hworker.symm.trans hw) (by simp)
    | joining hworker => exact absurd (hworker.symm.trans hw) (by simp)
  · intro hfree
    have hrunning := hsound.isRunning (System.not_joins_of_free hfree)
    refine ⟨hrunning, ?_, fun htrue => ?_, fun hfalse => ?_⟩
    · refine System.answers_of_answering hfree fun s₁ hrun₁ hfree₁ => ?_
      show Host.answering (.flag s₁.session.isRunning) = _
      rw [(System.Sound.run hrun₁ hsound).isRunning (System.not_joins_of_free hfree₁),
        leftRunning_nil]
    · rw [hrunning.symm.trans htrue] at hsound
      exact hsound.canWork hfree
    · exact System.isStopped_of_worker
        (Option.not_isSome_iff_eq_none.mp (Bool.eq_false_iff.mp hfalse)) hfree

/-- A session that was stopped in the middle of its work, used, and started again. -/
def stoppedAndStarted : List Operation :=
  [.submit "(define x 1)", .eval "exit", .submit "x", .receive, .start, .submit "x"]

/-- Its new worker has a program to answer, and does answer it. -/
theorem running_sessions_can_work_after_start :
    ∃ events s, System.Run (.fresh (.fresh 1000)) events s ∧ operations events = stoppedAndStarted
      ∧ s.session.isRunning = true ∧ s.CanWork := by
  -- nothing of this depends on what the programs evaluate to
  generalize Interpreter.fresh 1000 = baseline
  obtain ⟨events, session, hperform, hoperations⟩ :
      ∃ events session,
        (Session.fresh baseline).performAll stoppedAndStarted = some (events, session)
          ∧ operations events = stoppedAndStarted := ⟨_, _, rfl, rfl⟩
  obtain ⟨s, hrun, hfree, -, -⟩ :=
    System.run_of_performAll (s := .fresh baseline) rfl rfl hperform
  obtain ⟨-, hhost⟩ := running_sessions_can_work baseline hrun
  obtain ⟨hrunning, -, hwork, -⟩ := hhost hfree
  have htrue : s.session.isRunning = true := by
    rw [hrunning, leftRunning, hoperations]
    decide
  exact ⟨events, s, hrun, hoperations, htrue, hwork htrue⟩

end PlotLisp
