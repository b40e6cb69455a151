/-
  PlotLisp.Proofs.Session.InOrder
  ──────────────────────────────────────
  **EVERY PROGRAM IS ANSWERED ONCE, IN ORDER.**

  Between a host and its worker, lines and outputs are in four places: in the
  inbox, under evaluation, in hand, in the outbox.  Whatever the schedule, what
  the host has received and what these places still hold make up the outputs of
  all the texts that were submitted:

    • `Thread.forthcoming` — the outputs that the host has still to receive;
    • `Thread.Conserves` — what is received leaves them, what is submitted joins
      them at the end, and nothing else changes them;
    • `Serves.run` — the same for a whole run of a session;
    • `Serves.exists_rest` — nothing is left behind that a host cannot receive.
-/
import PlotLisp.Proofs.Session.Schedule

namespace PlotLisp

/-! ## §1. What a worker has still to give. -/

namespace Thread

/-- The programs that are still to be evaluated. -/
def pending (t : Thread) : List String :=
  match t.activity with
  | .evaluating source => source :: programs t.worker.inbox
  | _ => programs t.worker.inbox

/-- The output that has still to be sent. -/
def inHand (t : Thread) : List Output :=
  match t.activity with
  | .sending output => [output]
  | _ => []

/-- The outputs that are still to be received. -/
def forthcoming (t : Thread) : List Output :=
  t.worker.outbox ++ t.inHand ++ t.worker.interp.outputs t.pending

/-- The interpreter that is left once nothing is pending. -/
def afterPending (t : Thread) : Interpreter := t.worker.interp.afterInputs t.pending

/-- A worker that takes programs only, and answers them. -/
structure Serving (t : Thread) : Prop where
  notEnded : t.worker.hasEnded = false
  programsOnly : ∀ line ∈ t.worker.inbox, IsProgram line
  outcomesOnly : ∀ output ∈ t.forthcoming, ∃ outcome, output = .ofOutcome outcome

/-- What a worker has still to give, and its interpreter in the end, after `received` was taken
from it and `submitted` was sent to it. -/
structure Conserves (t t' : Thread) (received : List Output) (submitted : List String) :
    Prop where
  outputs : received ++ t'.forthcoming = t.forthcoming ++ t.afterPending.outputs submitted
  interp : t'.afterPending = t.afterPending.afterInputs submitted

theorem Conserves.refl (t : Thread) : Conserves t t [] [] :=
  ⟨by simp, rfl⟩

/-- Two stretches of a run make one, the interpreter of the second being what the first left. -/
theorem Conserves.trans {t t' t'' : Thread} {received received' : List Output}
    {submitted submitted' : List String} (h : Conserves t t' received submitted)
    (h' : Conserves t' t'' received' submitted') :
    Conserves t t'' (received ++ received') (submitted ++ submitted') where
  outputs := by
    calc received ++ received' ++ t''.forthcoming
        = received ++ t'.forthcoming ++ t'.afterPending.outputs submitted' := by
          rw [List.append_assoc, h'.outputs, List.append_assoc]
      _ = t.forthcoming ++ t.afterPending.outputs (submitted ++ submitted') := by
          rw [h.outputs, h.interp, Interpreter.outputs_append, List.append_assoc]
  interp := by rw [h'.interp, h.interp, Interpreter.afterInputs_append]

/-- **A worker's moves change nothing about what it has still to give.** -/
theorem conserves_of_move {t t' : Thread} (h : Move t t') : Conserves t t' [] [] := by
  cases h with
  | take hline =>
    -- the line goes from the inbox to the hand, and stays the first that is pending
    constructor <;>
      simp [forthcoming, afterPending, pending, inHand, programs_cons_of_isProgram hline]
  | finish hline =>
    -- nothing was pending: the first line is a control word
    constructor <;>
      simp [forthcoming, afterPending, pending, inHand, programs_cons_of_not_isProgram hline]
  | evaluate =>
    -- what it makes of the outcome is what the text is to be answered with
    constructor <;>
      simp [forthcoming, afterPending, pending, inHand, Interpreter.ofOutcome_runInput]
  | send => constructor <;> simp [forthcoming, afterPending, pending, inHand]

theorem conserves_of_moves {t t' : Thread} (h : Moves t t') : Conserves t t' [] [] := by
  induction h with
  | refl => exact .refl t
  | tail _ hmove ih => exact ih.trans (conserves_of_move (move_of_move? hmove))

/-- As long as nothing is submitted or received, the same outputs are to come. -/
theorem Conserves.forthcoming_eq {t t' : Thread} (h : Conserves t t' [] []) :
    t'.forthcoming = t.forthcoming := by
  simpa using h.outputs

/-- What is still to be received comes from outcomes, if all before did. -/
theorem Conserves.outcomesOnly {t t' : Thread} {received : List Output} {submitted : List String}
    (h : Conserves t t' received submitted)
    (houtcomes : ∀ output ∈ t.forthcoming, ∃ outcome, output = .ofOutcome outcome) :
    ∀ output ∈ t'.forthcoming, ∃ outcome, output = .ofOutcome outcome := by
  intro output hmem
  have hmem' : output ∈ t.forthcoming ++ t.afterPending.outputs submitted :=
    h.outputs ▸ List.mem_append_right received hmem
  rcases List.mem_append.mp hmem' with hbefore | hnew
  · exact houtcomes output hbefore
  · exact Interpreter.exists_outcome_of_mem_outputs hnew

theorem serving_fresh (baseline : Interpreter) : Serving ⟨.fresh baseline, .waiting⟩ :=
  ⟨rfl, fun _ h => absurd h List.not_mem_nil, fun _ h => absurd h List.not_mem_nil⟩

/-- A worker that serves goes on serving: no word of control is in its inbox. -/
theorem Serving.move {t t' : Thread} (h : Serving t) (hmove : Move t t') : Serving t' := by
  have houtcomes := (conserves_of_move hmove).outcomesOnly h.outcomesOnly
  cases hmove with
  | take hline => exact ⟨h.notEnded, fun line hmem => h.programsOnly line (.tail _ hmem), houtcomes⟩
  | finish hline => exact absurd (h.programsOnly _ (.head _)) hline
  | evaluate => exact ⟨h.notEnded, h.programsOnly, houtcomes⟩
  | send => exact ⟨h.notEnded, h.programsOnly, houtcomes⟩

/-- The worker with one more line in its inbox. -/
def submit (t : Thread) (line : String) : Thread :=
  { t with worker := { t.worker with inbox := t.worker.inbox ++ [line] } }

/-- A submitted program waits behind those that are pending. -/
theorem pending_submit {t : Thread} (h : Serving t) {line : String} (hline : IsProgram line) :
    (t.submit line).pending = t.pending ++ [line] := by
  have hinbox : programs (t.worker.inbox ++ [line]) = programs t.worker.inbox ++ [line] := by
    rw [programs_eq_self h.programsOnly, programs_eq_self]
    intro other hmem
    rcases List.mem_append.mp hmem with hmem | hmem
    · exact h.programsOnly other hmem
    · exact List.mem_singleton.mp hmem ▸ hline
  obtain ⟨w, activity⟩ := t
  cases activity <;> simp [pending, submit, hinbox]

/-- Its output is the last to come, from the interpreter that the others leave. -/
theorem conserves_submit {t : Thread} (h : Serving t) {line : String} (hline : IsProgram line) :
    Conserves t (t.submit line) [] [line] where
  outputs := by
    show t.worker.outbox ++ t.inHand ++ t.worker.interp.outputs (t.submit line).pending = _
    rw [pending_submit h hline, Interpreter.outputs_append]
    simp [forthcoming, afterPending]
  interp := by
    show t.worker.interp.afterInputs (t.submit line).pending = _
    rw [pending_submit h hline, Interpreter.afterInputs_append]
    rfl

theorem Serving.submit {t : Thread} (h : Serving t) {line : String} (hline : IsProgram line) :
    Serving (t.submit line) := by
  refine ⟨h.notEnded, fun other hmem => ?_, (conserves_submit h hline).outcomesOnly h.outcomesOnly⟩
  rcases List.mem_append.mp hmem with hmem | hmem
  · exact h.programsOnly other hmem
  · exact List.mem_singleton.mp hmem ▸ hline

/-- The worker after its first output was taken. -/
def receive (t : Thread) : Thread :=
  { t with worker := { t.worker with outbox := t.worker.outbox.tail } }

/-- A received output is taken from the front, and no other. -/
theorem conserves_receive {t : Thread} {output : Output} {rest : List Output}
    (h : t.worker.outbox = output :: rest) : Conserves t t.receive [output] [] where
  outputs := by
    show [output] ++ (t.worker.outbox.tail ++ t.inHand ++ t.worker.interp.outputs t.pending) = _
    simp [forthcoming, h]
  interp := rfl

theorem Serving.receive {t : Thread} (h : Serving t) {output : Output} {rest : List Output}
    (houtbox : t.worker.outbox = output :: rest) : Serving t.receive :=
  ⟨h.notEnded, h.programsOnly, (conserves_receive houtbox).outcomesOnly h.outcomesOnly⟩

theorem Serving.moves {t t' : Thread} (h : Serving t) (hmoves : Moves t t') : Serving t' := by
  induction hmoves with
  | refl => exact h
  | tail _ hmove ih => exact ih.move (move_of_move? hmove)

/-- **A worker that serves comes to send all that it has still to give.** -/
theorem Serving.exists_sent {t : Thread} (h : Serving t) :
    ∃ t', Moves t t' ∧ t'.worker.outbox = t.forthcoming := by
  obtain ⟨⟨interp, inbox, outbox, hasEnded⟩, hmoves, -, -⟩ := exists_waiting t
  obtain rfl : hasEnded = false := (h.moves hmoves).notEnded
  refine ⟨_, hmoves.trans (moves_settle _), ?_⟩
  rw [← (conserves_of_moves hmoves).forthcoming_eq, Worker.settle_eq]
  simp [forthcoming, pending, inHand]

end Thread

/-! ## §2. What a host sends and receives. -/

/-- The texts that an operation sends. -/
def Operation.texts : Operation → List String
  | .submit line => [line]
  | .eval line => [line]
  | _ => []

/-- The outputs that an answer holds. -/
def Answer.outputs : Answer → List Output
  | .output given => [given]
  | _ => []

/-- All texts that a host sends. -/
def submitted (events : List Event) : List String :=
  (operations events).flatMap Operation.texts

/-- All outputs that a host receives. -/
def received (events : List Event) : List Output :=
  events.flatMap fun | .answer answer => answer.outputs | .call _ => []

/-- Operations that leave the worker in its place. -/
def Operation.KeepsWorker : Operation → Prop
  | .submit line => IsProgram line
  | .eval line => IsProgram line
  | .receive => True
  | .poll => True
  | .isRunning => True
  | .start => True
  | .stop => False
  | .reset => False
  | .interrupt => False

instance : DecidablePred Operation.KeepsWorker
  | .submit line => inferInstanceAs (Decidable (IsProgram line))
  | .eval line => inferInstanceAs (Decidable (IsProgram line))
  | .receive => .isTrue trivial
  | .poll => .isTrue trivial
  | .isRunning => .isTrue trivial
  | .start => .isTrue trivial
  | .stop => .isFalse id
  | .reset => .isFalse id
  | .interrupt => .isFalse id

/-- A host that waits for no worker to end, and gets no output but from the outbox. -/
def Host.Quiet : Host → Prop
  | .answering answer => answer.outputs = []
  | .joining _ _ _ => False
  | _ => True

/-- A host that waits for a worker to end. -/
def Host.Joins : Host → Prop
  | .joining _ _ _ => True
  | _ => False

theorem Host.Quiet.not_joins {host : Host} (h : host.Quiet) : ¬ host.Joins := by
  cases host with
  | joining => exact absurd h id
  | _ => exact id

namespace System

theorem not_joins_of_free {s : System} (h : s.host = .free) : ¬ s.host.Joins := by
  rw [h]
  exact id

theorem joins_of_joining {s : System} {thread : Thread} {restart : Bool} {answer : Answer}
    (h : s.host = .joining thread restart answer) : s.host.Joins := by
  rw [h]
  trivial

theorem quiet_of_free {s : System} (h : s.host = .free) : s.host.Quiet := by
  rw [h]
  trivial

/-- The session's worker, and what it has in hand, serves. -/
structure Serves (s : System) (t : Thread) : Prop where
  worker : s.session.worker = some t.worker
  activity : s.activity = t.activity
  serving : t.Serving

/-- **WORKING ON PRESERVES ALL THAT IS TO COME**, whichever worker makes the move. -/
theorem Serves.works {s s' : System} {t : Thread} (h : s.Serves t) (hworks : Works s s') :
    ∃ t', s'.Serves t' ∧ t.Conserves t' [] [] := by
  cases hworks with
  | @current w t' hw hmove =>
    obtain ⟨tw, activity⟩ := t
    obtain rfl : tw = w := Option.some.inj (h.worker.symm.trans hw)
    obtain rfl : activity = s.activity := h.activity.symm
    have hmove := Thread.move_of_move? hmove
    exact ⟨t', ⟨rfl, rfl, h.serving.move hmove⟩, Thread.conserves_of_move hmove⟩
  | dismissed => exact ⟨t, ⟨h.worker, h.activity, h.serving⟩, .refl t⟩
  | abandoned => exact ⟨t, ⟨h.worker, h.activity, h.serving⟩, .refl t⟩

/-- A worker changes what the host is doing only if the host waits for it to end. -/
theorem host_of_works {s s' : System} (hworks : Works s s') (hjoins : ¬ s.host.Joins) :
    s'.host = s.host := by
  cases hworks with
  | current => rfl
  | dismissed hhost => exact absurd (joins_of_joining hhost) hjoins
  | abandoned => rfl

/-- A session whose worker serves hands the program on and says so. -/
theorem Serves.submit {s : System} {t : Thread} (h : s.Serves t) {line : String}
    (hline : IsProgram line) :
    s.session.submit line
      = (true, { s.session with worker := some (t.submit line).worker }) := by
  simp [Session.submit, isControl_ofLine, hline, h.worker, h.serving.notEnded, Thread.submit]

/-- A host that calls an operation sends its texts. -/
theorem Serves.call {s : System} {t : Thread} (h : s.Serves t) {operation : Operation}
    (hkeeps : operation.KeepsWorker) :
    ∃ t', (s.call operation).Serves t' ∧ t.Conserves t' [] operation.texts
      ∧ (s.call operation).host.Quiet := by
  -- what the host does next is nothing to the worker, what it sends is
  have hsame (host : Host) : System.Serves { s with host := host } t :=
    ⟨h.worker, h.activity, h.serving⟩
  have hsent {line : String} (hline : IsProgram line) (host : Host) :
      System.Serves
        { s with
          session := { s.session with worker := some (t.submit line).worker }
          host := host } (t.submit line) :=
    ⟨rfl, h.activity, h.serving.submit hline⟩
  cases operation with
  | submit line =>
    refine ⟨t.submit line, ?_, Thread.conserves_submit h.serving hkeeps, ?_⟩
    all_goals simp only [System.call, h.submit hkeeps, if_pos (show IsProgram line from hkeeps)]
    · exact hsent hkeeps _
    · rfl
  | eval line =>
    refine ⟨t.submit line, ?_, Thread.conserves_submit h.serving hkeeps, ?_⟩
    all_goals simp only [System.call, h.submit hkeeps, if_pos (show IsProgram line from hkeeps),
      if_true]
    · exact hsent hkeeps _
    · exact trivial
  | receive => exact ⟨t, hsame _, .refl t, trivial⟩
  | poll => exact ⟨t, hsame _, .refl t, trivial⟩
  | isRunning => exact ⟨t, hsame _, .refl t, rfl⟩
  | start =>
    refine ⟨t, ?_, .refl t, rfl⟩
    simp only [System.call, Session.start, h.worker]
    exact hsame _
  | stop => exact absurd hkeeps id
  | reset => exact absurd hkeeps id
  | interrupt => exact absurd hkeeps id

theorem Serves.isRunning {s : System} {t : Thread} (h : s.Serves t) :
    s.session.isRunning = true := by
  rw [Session.isRunning, h.worker]
  rfl

/-- What a session gives that has a worker which serves. -/
theorem Serves.receive? {s : System} {t : Thread} (h : s.Serves t) :
    s.session.receive?
      = t.worker.outbox.head?.map fun output =>
          (output, { s.session with worker := some t.receive.worker }) := by
  cases houtbox : t.worker.outbox <;>
    simp [Session.receive?, h.worker, houtbox, h.serving.notEnded, Thread.receive]

/-- A host that is about to get an answer gets the first output of the outbox, or none. -/
theorem Serves.answer {s s' : System} {t : Thread} (h : s.Serves t) (hquiet : s.host.Quiet)
    {answer : Answer} (hanswer : s.answer? = some (answer, s')) :
    ∃ t', s'.Serves t' ∧ t.Conserves t' answer.outputs [] ∧ s'.host = .free := by
  -- whoever takes an output, for `receive` or for `poll`, takes the first of the outbox
  have htaken {output : Output} {session : Session}
      (hreceive : s.session.receive? = some (output, session)) :
      ∃ t', System.Serves { s with session := session, host := .free } t'
        ∧ t.Conserves t' [output] [] := by
    rw [h.receive?, Option.map_eq_some_iff] at hreceive
    obtain ⟨first, hfirst, hsession⟩ := hreceive
    cases hsession
    obtain ⟨rest, houtbox⟩ := List.head?_eq_some_iff.mp hfirst
    exact ⟨t.receive, ⟨rfl, h.activity, h.serving.receive houtbox⟩,
      Thread.conserves_receive houtbox⟩
  obtain ⟨session, activity, host, abandoned⟩ := s
  cases host with
  | free => exact absurd hanswer (by simp [answer?])
  | answering given =>
    cases hanswer
    have hnone : answer.outputs = [] := hquiet
    exact ⟨t, ⟨h.worker, h.activity, h.serving⟩, hnone ▸ .refl t, rfl⟩
  | receiving =>
    simp only [answer?, Option.map_eq_some_iff, Prod.exists] at hanswer
    obtain ⟨output, session', hreceive, hanswer⟩ := hanswer
    cases hanswer
    obtain ⟨t', hserves, hconserves⟩ := htaken hreceive
    exact ⟨t', hserves, hconserves, rfl⟩
  | polling =>
    have hrunning := h.isRunning
    cases hreceive : session.receive? with
    | none =>
      simp only [answer?, Session.poll, hrunning, if_true, hreceive] at hanswer
      cases hanswer
      exact ⟨t, ⟨h.worker, h.activity, h.serving⟩, .refl t, rfl⟩
    | some taken =>
      obtain ⟨output, session'⟩ := taken
      simp only [answer?, Session.poll, hrunning, if_true, hreceive] at hanswer
      cases hanswer
      obtain ⟨t', hserves, hconserves⟩ := htaken hreceive
      exact ⟨t', hserves, hconserves, rfl⟩
  | joining thread restart given => exact absurd hquiet id

/-- **Whatever the schedule, nothing is lost**: what was received and what the worker has
still to give are the outputs of what was submitted. -/
theorem Serves.run {s s' : System} {events : List Event} (hrun : Run s events s') :
    ∀ {t : Thread}, s.Serves t → s.host.Quiet →
      (∀ operation ∈ operations events, operation.KeepsWorker) →
      ∃ t', s'.Serves t' ∧ s'.host.Quiet
        ∧ t.Conserves t' (received events) (submitted events) := by
  -- the run is taken apart from its start, so that `Conserves.trans` puts it together
  induction hrun with
  | refl => exact fun {t} h hquiet _ => ⟨t, h, hquiet, .refl t⟩
  | work hworks _ ih =>
    intro t h hquiet hkeeps
    obtain ⟨t₁, h₁, hconserves₁⟩ := h.works hworks
    have hhost := host_of_works hworks hquiet.not_joins
    obtain ⟨t₂, h₂, hquiet₂, hconserves₂⟩ := ih h₁ (hhost ▸ hquiet) hkeeps
    exact ⟨t₂, h₂, hquiet₂, hconserves₁.trans hconserves₂⟩
  | call _ _ ih =>
    intro t h hquiet hkeeps
    obtain ⟨t₁, h₁, hconserves₁, hquiet₁⟩ := h.call (hkeeps _ (.head _))
    obtain ⟨t₂, h₂, hquiet₂, hconserves₂⟩ :=
      ih h₁ hquiet₁ fun operation hmem => hkeeps operation (.tail _ hmem)
    exact ⟨t₂, h₂, hquiet₂, hconserves₁.trans hconserves₂⟩
  | answer hanswer _ ih =>
    intro t h hquiet hkeeps
    obtain ⟨t₁, h₁, hconserves₁, hfree⟩ := h.answer hquiet hanswer
    obtain ⟨t₂, h₂, hquiet₂, hconserves₂⟩ := ih h₁ (quiet_of_free hfree) hkeeps
    exact ⟨t₂, h₂, hquiet₂, hconserves₁.trans hconserves₂⟩

/-! ## §3. Receiving the rest. -/

/-- A host that waits gets an output as long as the worker has one to give. -/
theorem Serves.exists_received {s : System} {t : Thread} (h : s.Serves t)
    (hhost : s.host = .receiving) (hsome : t.forthcoming ≠ []) :
    ∃ output s', Run s [.answer (.output output)] s' ∧ s'.host = .free := by
  obtain ⟨t', hmoves, hsent⟩ := h.serving.exists_sent
  obtain ⟨output, rest, houtbox⟩ := List.exists_cons_of_ne_nil (hsent ▸ hsome)
  have hserves : (s.withThread t').Serves t' := ⟨rfl, rfl, h.serving.moves hmoves⟩
  have hactivity : (⟨t.worker, s.activity⟩ : Thread) = t := by rw [h.activity]
  have hanswer : (s.withThread t').answer? = some (.output output,
      { s.withThread t' with
        session := { s.session with worker := some t'.receive.worker }
        host := .free }) := by
    have hhost' : (s.withThread t').host = .receiving := hhost
    simp only [answer?, hhost', hserves.receive?, houtbox]
    rfl
  exact ⟨output, _, (Run.of_moves hmoves h.worker hactivity).append (.answer hanswer .refl), rfl⟩

/-- A host that only receives from now on. -/
def OnlyReceives (events : List Event) : Prop :=
  ∀ operation ∈ operations events, operation = .receive

/-- An answer takes what it holds from what is still to be received. -/
theorem Serves.answered {s s' : System} {t : Thread} (h : s.Serves t) (hquiet : s.host.Quiet)
    {answer : Answer} (hrun : Run s [.answer answer] s') :
    ∃ t', s'.Serves t' ∧ answer.outputs ++ t'.forthcoming = t.forthcoming := by
  obtain ⟨t', h', -, hconserves⟩ := h.run hrun hquiet fun _ hmem => absurd hmem List.not_mem_nil
  exact ⟨t', h', by simpa [received, submitted, operations] using hconserves.outputs⟩

/-- A host that is free receives everything. -/
theorem Serves.exists_rest_of_free {t : Thread} :
    ∀ {s : System}, s.Serves t → s.host = .free →
      ∃ later s', Run s later s' ∧ OnlyReceives later ∧ received later = t.forthcoming := by
  -- every call of `receive` takes one of the outputs that are still to come
  induction hlength : t.forthcoming.length generalizing t with
  | zero =>
    intro s h hfree
    exact ⟨[], s, .refl, fun _ hmem => absurd hmem List.not_mem_nil,
      (List.eq_nil_of_length_eq_zero hlength).symm⟩
  | succ n ih =>
    intro s h hfree
    have hsome : t.forthcoming ≠ [] := List.ne_nil_of_length_eq_add_one hlength
    have hcalled : (s.call .receive).Serves t := ⟨h.worker, h.activity, h.serving⟩
    obtain ⟨output, s₁, hrun₁, hfree₁⟩ := hcalled.exists_received rfl hsome
    obtain ⟨t₁, h₁, hrest⟩ := hcalled.answered trivial hrun₁
    have hlength₁ : t₁.forthcoming.length = n := by
      have hsum : 1 + t₁.forthcoming.length = t.forthcoming.length := by
        rw [← hrest, List.length_append]
        rfl
      omega
    obtain ⟨later, s', hlater, honly, hreceived⟩ := ih hlength₁ h₁ hfree₁
    refine ⟨.call .receive :: .answer (.output output) :: later, s',
      .call hfree (hrun₁.append hlater), ?_, ?_⟩
    · rintro operation (_ | ⟨_, hmem⟩)
      · rfl
      · exact honly operation hmem
    · rw [← hrest, ← hreceived]
      rfl

/-- **A host receives everything**, whatever it is doing. -/
theorem Serves.exists_rest {s : System} {t : Thread} (h : s.Serves t) (hquiet : s.host.Quiet) :
    ∃ later s', Run s later s' ∧ OnlyReceives later ∧ received later = t.forthcoming := by
  -- the answer that the host may be waiting for comes first
  have hanswered {answer : Answer} {s₁ : System} (hrun₁ : Run s [.answer answer] s₁)
      (hfree₁ : s₁.host = .free) :
      ∃ later s', Run s later s' ∧ OnlyReceives later ∧ received later = t.forthcoming := by
    obtain ⟨t₁, h₁, hrest⟩ := h.answered hquiet hrun₁
    obtain ⟨later, s', hlater, honly, hreceived⟩ := h₁.exists_rest_of_free hfree₁
    refine ⟨.answer answer :: later, s', hrun₁.append hlater, honly, ?_⟩
    rw [← hrest, ← hreceived]
    rfl
  cases hhost : s.host with
  | free => exact h.exists_rest_of_free hhost
  | answering answer =>
    exact hanswered (.answer (by simp only [answer?, hhost]; rfl) .refl) rfl
  | receiving =>
    by_cases hnone : t.forthcoming = []
    · exact ⟨[], s, .refl, fun _ hmem => absurd hmem List.not_mem_nil, hnone.symm⟩
    · obtain ⟨output, s₁, hrun₁, hfree₁⟩ := h.exists_received hhost hnone
      exact hanswered hrun₁ hfree₁
  | polling =>
    obtain ⟨⟨output, session⟩, hpoll⟩ : ∃ polled, s.session.poll = polled := ⟨_, rfl⟩
    cases output <;>
      exact hanswered (.answer (by simp only [answer?, hhost, hpoll]; rfl) .refl) rfl
  | joining thread restart answer => exact absurd hquiet (by simp [hhost, Host.Quiet])

end System

/-! ## §4. Answers in order. -/

namespace Thread

/-- A worker that has ended has dropped its lines. -/
theorem inbox_of_hasEnded {t t' : Thread} (hmoves : Moves t t')
    (h : t.worker.hasEnded = true → t.worker.inbox = []) :
    t'.worker.hasEnded = true → t'.worker.inbox = [] := by
  induction hmoves with
  | refl => exact h
  | tail _ hmove ih =>
    cases move_of_move? hmove with
    | take => exact fun hended => absurd hended (by simp)
    | finish => exact fun _ => rfl
    | evaluate => exact ih
    | send => exact ih

/-- A worker that cannot go on has given everything. -/
theorem outbox_of_blocked {t : Thread} (hblocked : t.move? true = none)
    (hended : t.worker.hasEnded = true → t.worker.inbox = []) :
    t.worker.outbox = t.forthcoming := by
  obtain ⟨⟨interp, inbox, outbox, hasEnded⟩, activity⟩ := t
  cases activity with
  | evaluating source => exact absurd hblocked (by simp [move?])
  | sending output => exact absurd hblocked (by simp [move?])
  | waiting =>
    have hinbox : inbox = [] := by
      cases hasEnded with
      | true => exact hended rfl
      | false =>
        cases inbox with
        | nil => rfl
        | cons line rest =>
          by_cases hline : IsProgram line
          · exact absurd hblocked (by simp [move?_of_isProgram hline])
          · exact absurd hblocked (by simp [move?_of_not_isProgram hline])
    simp [forthcoming, inHand, pending, hinbox]

end Thread

/-- If a host waits while the worker cannot go on, nothing is left for it. -/
theorem System.Serves.forthcoming_of_blocked {s : System} {t : Thread} (h : s.Serves t)
    (hhost : s.host = .receiving) (hnone : s.answer? = none)
    (hblocked : ∀ w, s.session.worker = some w → Thread.move? true ⟨w, s.activity⟩ = none) :
    t.forthcoming = [] := by
  have hmove : t.move? true = none := by
    have hworker := hblocked t.worker h.worker
    rwa [h.activity] at hworker
  have hended : t.worker.hasEnded = true → t.worker.inbox = [] :=
    fun hended => absurd (h.serving.notEnded.symm.trans hended) (by simp)
  rw [← Thread.outbox_of_blocked hmove hended]
  simpa [answer?, hhost, h.receive?] using hnone

/-- **EVERY PROGRAM IS ANSWERED ONCE, IN ORDER.**  From the start of a worker on, whatever the
schedule, a host that leaves the worker in its place has received the first outputs of the texts
it has submitted, can receive all of them, and waits forever only if it has; and a worker that is
fed any lines answers those before the first control word. -/
theorem programs_answered_once_in_order (baseline : Interpreter) :
    (∀ (abandoned : List Thread) (events : List Event) (s : System),
        System.Run ⟨.fresh baseline, .waiting, .free, abandoned⟩ events s →
        (∀ operation ∈ operations events, operation.KeepsWorker) →
        received events <+: baseline.outputs (submitted events)
          ∧ (∃ later s', System.Run s later s' ∧ System.OnlyReceives later
              ∧ received (events ++ later) = baseline.outputs (submitted events))
          ∧ (s.host = .receiving → s.answer? = none →
              (∀ w, s.session.worker = some w → Thread.move? true ⟨w, s.activity⟩ = none) →
              received events = baseline.outputs (submitted events)))
      ∧ ∀ lines : List String,
          Worker.answers baseline lines = baseline.outputs (programs lines)
            ∧ (Worker.answers baseline lines).length = (programs lines).length
            ∧ ∀ t : Thread, Thread.Moves ⟨⟨baseline, lines, [], false⟩, .waiting⟩ t →
                t.worker.outbox <+: Worker.answers baseline lines
                  ∧ (t.move? true = none → t.worker.outbox = Worker.answers baseline lines) := by
  constructor
  · -- a fresh worker owes nothing, so all that was received or is to come was submitted
    intro abandoned events s hrun hkeeps
    have hfresh : System.Serves ⟨.fresh baseline, .waiting, .free, abandoned⟩
        ⟨.fresh baseline, .waiting⟩ := ⟨rfl, rfl, Thread.serving_fresh baseline⟩
    obtain ⟨t, h, hquiet, hconserves⟩ := hfresh.run hrun trivial hkeeps
    have hall : received events ++ t.forthcoming = baseline.outputs (submitted events) :=
      hconserves.outputs
    obtain ⟨later, s', hlater, honly, hreceived⟩ := h.exists_rest hquiet
    refine ⟨⟨t.forthcoming, hall⟩, ⟨later, s', hlater, honly, ?_⟩, fun hhost hnone hblocked => ?_⟩
    · rw [← hall, ← hreceived]
      exact List.flatMap_append
    · rw [← hall, h.forthcoming_of_blocked hhost hnone hblocked, List.append_nil]
  · -- the same for a worker whose lines are all there from the start
    intro lines
    rw [Worker.answers_eq]
    refine ⟨rfl, Interpreter.length_outputs _ _, fun t hmoves => ?_⟩
    have hall : t.forthcoming = baseline.outputs (programs lines) :=
      (Thread.conserves_of_moves hmoves).forthcoming_eq
    rw [← hall]
    refine ⟨⟨t.inHand ++ t.worker.interp.outputs t.pending, by simp [Thread.forthcoming]⟩, ?_⟩
    intro hblocked
    exact Thread.outbox_of_blocked hblocked
      (Thread.inbox_of_hasEnded hmoves fun hended => absurd hended (by simp))

/-- Two programs are submitted, of which the second is none, and one answer is received. -/
def oneOfTwoReceived (baseline : Interpreter) : List Event :=
  [ .call (.submit "(define x 1)"), .answer (.flag true),
    .call (.submit "(x"), .answer (.flag true),
    .call .poll,
    .answer (.output (.ofOutcome (baseline.runInput "(define x 1)").1)) ]

/-- While the second program is being evaluated, its answer is the only one still to come. -/
theorem programs_answered_once_in_order_while_working :
    ∃ s, System.Run (.fresh (.fresh 1000)) (oneOfTwoReceived (.fresh 1000)) s
      ∧ s.activity = .evaluating "(x"
      ∧ ∃ later s', System.Run s later s' ∧ System.OnlyReceives later
          ∧ received later = ((Interpreter.fresh 1000).runInput "(define x 1)").2.outputs ["(x"] := by
  -- nothing of this depends on what the programs evaluate to
  generalize Interpreter.fresh 1000 = baseline
  obtain ⟨s, hrun, hactivity⟩ : ∃ s, System.Run (.fresh baseline) (oneOfTwoReceived baseline) s
      ∧ s.activity = .evaluating "(x" :=
    -- the worker takes a line, evaluates it and sends the answer; then it takes the next line
    ⟨_, .call rfl (.answer rfl (.call rfl (.answer rfl
      (.work (.current rfl rfl) (.work (.current rfl rfl) (.work (.current rfl rfl)
        (.call rfl (.answer rfl (.work (.current rfl rfl) .refl))))))))), rfl⟩
  have hkeeps : ∀ operation ∈ operations (oneOfTwoReceived baseline), operation.KeepsWorker := by
    show ∀ operation ∈ [Operation.submit "(define x 1)", .submit "(x", .poll], operation.KeepsWorker
    decide
  obtain ⟨-, ⟨later, s', hlater, honly, hall⟩, -⟩ :=
    (programs_answered_once_in_order baseline).1 [] _ s hrun hkeeps
  exact ⟨s, hrun, hactivity, later, s', hlater, honly, (List.cons.inj hall).2⟩

end PlotLisp
