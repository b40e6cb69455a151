/-
  PlotLisp.Proofs.Session.Schedule
  ──────────────────────────────────────
  **HOSTS AND WORKERS SIDE BY SIDE.**

  A session alone makes one move after the other.  Here its worker runs beside the
  host, and so does every worker that an interrupt has left to itself:

    • a worker takes a line, evaluates it and sends the answer in three moves
      (`Thread.move?`); between them it holds what is in neither queue;
    • the host calls an operation and later gets its answer (`System.call`,
      `System.answer?`); in between it may have to wait;
    • `System.Run s events s'` — some schedule of all these moves takes `s` to `s'`,
      and the host sees `events`.

  Nothing is said about the order of moves, so that a statement about runs is one
  about all schedules.  The session that makes one move after the other is one of
  them (`run_of_performAll`).
-/
import Mathlib.Logic.Relation
import PlotLisp.Proofs.Session.Outputs

namespace PlotLisp

/-! ## §1. Workers between two moves. -/

/-- What a worker has in hand. -/
inductive Activity where
  /-- Nothing; it is at its inbox. -/
  | waiting
  /-- A program that it took and has not evaluated yet. -/
  | evaluating (source : String)
  /-- An answer that it has not sent yet. -/
  | sending (output : Output)
deriving DecidableEq, Repr

/-- A worker with what it has in hand. -/
structure Thread where
  worker : Worker
  activity : Activity
deriving DecidableEq, Repr

namespace Thread

/-- The next move, unless the worker has ended or has to wait for a line.  A worker that is
not `connected` any more has lost the host's ends of both queues: it gets no further line,
and its answer goes nowhere. -/
def move? (connected : Bool) : Thread → Option Thread
  | ⟨w, .waiting⟩ =>
      if w.hasEnded then none
      else
        match w.inbox with
        | [] => if connected then none else some ⟨{ w with hasEnded := true }, .waiting⟩
        | line :: rest =>
            match Request.ofLine line with
            | .eval source => some ⟨{ w with inbox := rest }, .evaluating source⟩
            | _ => some ⟨{ w with inbox := [], hasEnded := true }, .waiting⟩
  | ⟨w, .evaluating source⟩ =>
      let (outcome, interp) := w.interp.runInput source
      some ⟨{ w with interp := interp }, .sending (.ofOutcome outcome)⟩
  | ⟨w, .sending output⟩ =>
      if connected then some ⟨{ w with outbox := w.outbox ++ [output] }, .waiting⟩
      else some ⟨{ w with inbox := [], hasEnded := true }, .waiting⟩

/-- Any number of moves of a worker that is connected. -/
abbrev Moves : Thread → Thread → Prop :=
  Relation.ReflTransGen fun t t' => t.move? true = some t'

theorem move?_of_isProgram {line : String} (h : IsProgram line) (interp : Interpreter)
    (rest : List String) (outbox : List Output) (connected : Bool) :
    move? connected ⟨⟨interp, line :: rest, outbox, false⟩, .waiting⟩
      = some ⟨⟨interp, rest, outbox, false⟩, .evaluating line⟩ := by
  simp [move?, ofLine_of_isProgram h]

theorem move?_of_not_isProgram {line : String} (h : ¬ IsProgram line) (interp : Interpreter)
    (rest : List String) (outbox : List Output) (connected : Bool) :
    move? connected ⟨⟨interp, line :: rest, outbox, false⟩, .waiting⟩
      = some ⟨⟨interp, [], outbox, true⟩, .waiting⟩ := by
  have hcontrol := isControl_ofLine line
  cases hline : Request.ofLine line with
  | eval source => simp [hline, Request.isControl, h] at hcontrol
  | _ => simp [move?, hline]

/-- All that a worker can do while it is connected. -/
inductive Move : Thread → Thread → Prop where
  | take {line interp rest outbox} : IsProgram line →
      Move ⟨⟨interp, line :: rest, outbox, false⟩, .waiting⟩
        ⟨⟨interp, rest, outbox, false⟩, .evaluating line⟩
  | finish {line interp rest outbox} : ¬ IsProgram line →
      Move ⟨⟨interp, line :: rest, outbox, false⟩, .waiting⟩
        ⟨⟨interp, [], outbox, true⟩, .waiting⟩
  | evaluate {interp inbox outbox hasEnded source} :
      Move ⟨⟨interp, inbox, outbox, hasEnded⟩, .evaluating source⟩
        ⟨⟨(interp.runInput source).2, inbox, outbox, hasEnded⟩,
          .sending (.ofOutcome (interp.runInput source).1)⟩
  | send {interp inbox outbox hasEnded output} :
      Move ⟨⟨interp, inbox, outbox, hasEnded⟩, .sending output⟩
        ⟨⟨interp, inbox, outbox ++ [output], hasEnded⟩, .waiting⟩

theorem move_of_move? {t t' : Thread} (h : t.move? true = some t') : Move t t' := by
  obtain ⟨⟨interp, inbox, outbox, hasEnded⟩, activity⟩ := t
  cases activity with
  | evaluating source => cases h; exact .evaluate
  | sending output => cases h; exact .send
  | waiting =>
    cases hasEnded with
    | true => exact absurd h (by simp [move?])
    | false =>
      cases inbox with
      | nil => exact absurd h (by simp [move?])
      | cons line rest =>
        by_cases hline : IsProgram line
        · rw [move?_of_isProgram hline] at h
          cases h
          exact .take hline
        · rw [move?_of_not_isProgram hline] at h
          cases h
          exact .finish hline

/-- What is in hand gets done; the inbox stays as it is. -/
theorem exists_waiting (t : Thread) :
    ∃ w, Moves t ⟨w, .waiting⟩ ∧ w.inbox = t.worker.inbox
      ∧ w.hasEnded = t.worker.hasEnded := by
  obtain ⟨w, activity⟩ := t
  have hsent (w : Worker) (output : Output) :
      Moves ⟨w, .sending output⟩ ⟨{ w with outbox := w.outbox ++ [output] }, .waiting⟩ :=
    .single rfl
  cases activity with
  | waiting => exact ⟨w, .refl, rfl, rfl⟩
  | sending output => exact ⟨_, hsent w output, rfl, rfl⟩
  | evaluating source => exact ⟨_, .head rfl (hsent _ _), rfl, rfl⟩

/-- **The worker's own step is one to three moves**, and none if there is nothing to do. -/
theorem moves_step (w : Worker) : Moves ⟨w, .waiting⟩ ⟨w.step, .waiting⟩ := by
  obtain ⟨interp, inbox, outbox, hasEnded⟩ := w
  cases hasEnded with
  | true => exact .refl
  | false =>
    cases inbox with
    | nil => exact .refl
    | cons line rest =>
      by_cases h : IsProgram line
      · rw [Worker.step_of_isProgram h]
        exact .head (move?_of_isProgram h interp rest outbox true) (.head rfl (.single rfl))
      · rw [Worker.step_of_not_isProgram h]
        exact .single (move?_of_not_isProgram h interp rest outbox true)

theorem moves_work (steps : Nat) : ∀ w : Worker, Moves ⟨w, .waiting⟩ ⟨w.work steps, .waiting⟩ := by
  induction steps with
  | zero => exact fun w => .refl
  | succ steps ih => exact fun w => (moves_step w).trans (ih w.step)

theorem moves_settle (w : Worker) : Moves ⟨w, .waiting⟩ ⟨w.settle, .waiting⟩ :=
  moves_work _ w

/-- A worker with a control word in its inbox comes to it. -/
theorem exists_ended {t : Thread} {line : String} (hline : ¬ IsProgram line)
    (hmem : line ∈ t.worker.inbox) : ∃ t', Moves t t' ∧ t'.worker.hasEnded = true := by
  obtain ⟨w, hmoves, hinbox, -⟩ := exists_waiting t
  rw [← hinbox] at hmem
  obtain ⟨interp, inbox, outbox, hasEnded⟩ := w
  cases hasEnded with
  | true => exact ⟨_, hmoves, rfl⟩
  | false =>
    refine ⟨_, hmoves.trans (moves_settle _), ?_⟩
    rw [Worker.settle_eq]
    exact List.any_eq_true.mpr ⟨line, hmem, by simpa using hline⟩

end Thread

/-! ## §2. Operations. -/

/-- What a host can ask of a session. -/
inductive Operation where
  | submit (line : String)
  | eval (line : String)
  | receive
  | poll
  | isRunning
  | start
  | stop
  | reset
  | interrupt
deriving DecidableEq, Repr

/-- What an operation can answer. -/
inductive Answer where
  | done
  | flag (value : Bool)
  | output (output : Output)
  | nothing
deriving DecidableEq, Repr

/-- What a host sees: it calls operations and gets their answers. -/
inductive Event where
  | call (operation : Operation)
  | answer (answer : Answer)
deriving DecidableEq, Repr

/-- The operations that are called. -/
def operations (events : List Event) : List Operation :=
  events.flatMap fun | .call operation => [operation] | .answer _ => []

/-! ## §3. Systems. -/

/-- What a host is doing. -/
inductive Host where
  /-- Nothing; it can call an operation. -/
  | free
  /-- It is about to get an answer. -/
  | answering (answer : Answer)
  /-- It waits for the next output. -/
  | receiving
  /-- It waits for the next output, but not forever. -/
  | polling
  /-- It waits for a worker to end that was sent a control word; then it may start a new one. -/
  | joining (thread : Thread) (restart : Bool) (answer : Answer)
deriving DecidableEq, Repr

/-- A session with what its worker has in hand, what its host is doing, and the workers that
were left to themselves. -/
structure System where
  session : Session
  activity : Activity
  host : Host
  abandoned : List Thread
deriving DecidableEq, Repr

namespace System

/-- A new session. -/
def fresh (baseline : Interpreter) : System := ⟨.fresh baseline, .waiting, .free, []⟩

/-! ### The host's moves -/

/-- Take the worker out of the session, send it a control word, and wait for it to end. -/
def dismiss (s : System) (word : String) (restart : Bool) (answer : Answer) : System :=
  match s.session.worker with
  | none =>
      { s with
        session := if restart then s.session.start else s.session
        host := .answering answer }
  | some w =>
      { s with
        session := s.session.stop
        activity := .waiting
        host := .joining ⟨{ w with inbox := w.inbox ++ [word] }, s.activity⟩ restart answer }

/-- Call an operation. -/
def call (s : System) : Operation → System
  | .submit line =>
      let (sent, session) := s.session.submit line
      if IsProgram line then { s with session := session, host := .answering (.flag sent) }
      else s.dismiss line false (.flag sent)
  | .eval line =>
      let (sent, session) := s.session.submit line
      if IsProgram line then
        { s with
          session := session
          host := if sent then .receiving else .answering (.output Session.notRunning) }
      else s.dismiss line false (.output Session.notRunning)
  | .receive => { s with host := .receiving }
  | .poll => { s with host := .polling }
  | .isRunning => { s with host := .answering (.flag s.session.isRunning) }
  | .start => { s with session := s.session.start, host := .answering .done }
  | .stop => s.dismiss "stop" false .done
  | .reset => s.dismiss "reset" true .done
  | .interrupt =>
      let (output, session) := s.session.interrupt
      { session := session
        activity := .waiting
        host := .answering (.output output)
        abandoned := (s.session.worker.map (⟨·, s.activity⟩)).toList ++ s.abandoned }

/-- Get the answer of the operation that was called, if it is there. -/
def answer? (s : System) : Option (Answer × System) :=
  match s.host with
  | .free => none
  | .answering answer => some (answer, { s with host := .free })
  | .receiving =>
      s.session.receive?.map fun (output, session) =>
        (.output output, { s with session := session, host := .free })
  | .polling =>
      match s.session.poll with
      | (some output, session) =>
          some (.output output, { s with session := session, host := .free })
      | (none, session) => some (.nothing, { s with session := session, host := .free })
  | .joining thread restart answer =>
      if thread.worker.hasEnded then
        some (answer,
          { s with
            session := if restart then s.session.start else s.session
            host := .free })
      else none

/-! ### The workers' moves -/

/-- The system with the session's worker at another point of its work. -/
def withThread (s : System) (t : Thread) : System :=
  { s with session := { s.session with worker := some t.worker }, activity := t.activity }

/-- The system with other workers left to themselves. -/
def leaving (s : System) (abandoned : List Thread) : System := { s with abandoned := abandoned }

/-- One move of one worker. -/
inductive Works : System → System → Prop where
  /-- The session's worker moves. -/
  | current {s w t} : s.session.worker = some w → Thread.move? true ⟨w, s.activity⟩ = some t →
      Works s (s.withThread t)
  /-- A worker that the host waits for moves. -/
  | dismissed {s t t' restart answer} : s.host = .joining t restart answer →
      t.move? true = some t' → Works s { s with host := .joining t' restart answer }
  /-- A worker that was left to itself moves, whether or not it has noticed so already. -/
  | abandoned {s before t after connected t'} : s.abandoned = before ++ t :: after →
      t.move? connected = some t' → Works s { s with abandoned := before ++ t' :: after }

/-- Some schedule takes one system to another, and these are the events that the host sees. -/
inductive Run : System → List Event → System → Prop where
  | refl {s} : Run s [] s
  | work {s s' s'' events} : Works s s' → Run s' events s'' → Run s events s''
  | call {s operation events s''} : s.host = .free → Run (s.call operation) events s'' →
      Run s (.call operation :: events) s''
  | answer {s answer s' events s''} : s.answer? = some (answer, s') → Run s' events s'' →
      Run s (.answer answer :: events) s''

/-! ## §4. Runs. -/

namespace Run

theorem append {s s' s'' : System} {events events' : List Event} (h : Run s events s')
    (h' : Run s' events' s'') : Run s (events ++ events') s'' := by
  induction h with
  | refl => exact h'
  | work hwork _ ih => exact .work hwork (ih h')
  | call hfree _ ih => exact .call hfree (ih h')
  | answer hanswer _ ih => exact .answer hanswer (ih h')

/-- While the host neither calls nor gets an answer, only workers move. -/
theorem works_of_nil {s s' : System} (h : Run s [] s') : Relation.ReflTransGen Works s s' := by
  generalize hnil : ([] : List Event) = events at h
  induction h with
  | refl => exact .refl
  | work hwork _ ih => exact .head hwork (ih hnil)
  | call => exact absurd hnil (by simp)
  | answer => exact absurd hnil (by simp)

/-- Up to the next call, only workers move. -/
theorem exists_of_call {s s' : System} {operation : Operation} {events : List Event}
    (h : Run s (.call operation :: events) s') :
    ∃ s₁, Run s [] s₁ ∧ s₁.host = .free ∧ Run (s₁.call operation) events s' := by
  generalize hall : Event.call operation :: events = all at h
  induction h with
  | refl => exact absurd hall (by simp)
  | work hwork _ ih =>
    obtain ⟨s₁, hrun, hcall⟩ := ih hall
    exact ⟨s₁, .work hwork hrun, hcall⟩
  | call hfree hrun _ =>
    cases hall
    exact ⟨_, .refl, hfree, hrun⟩
  | answer => exact absurd hall (by simp)

/-- Up to the next answer, only workers move. -/
theorem exists_of_answer {s s' : System} {answer : Answer} {events : List Event}
    (h : Run s (.answer answer :: events) s') :
    ∃ s₁ s₂, Run s [] s₁ ∧ s₁.answer? = some (answer, s₂) ∧ Run s₂ events s' := by
  generalize hall : Event.answer answer :: events = all at h
  induction h with
  | refl => exact absurd hall (by simp)
  | work hwork _ ih =>
    obtain ⟨s₁, s₂, hrun, hanswer⟩ := ih hall
    exact ⟨s₁, s₂, .work hwork hrun, hanswer⟩
  | call => exact absurd hall (by simp)
  | answer hanswer hrun _ =>
    cases hall
    exact ⟨_, _, .refl, hanswer, hrun⟩

/-- The session's worker goes on. -/
theorem of_moves {t₀ t : Thread} (h : Thread.Moves t₀ t) :
    ∀ {s : System} {w : Worker}, s.session.worker = some w → ⟨w, s.activity⟩ = t₀ →
      Run s [] (s.withThread t) := by
  -- from the first move on, as a run is made of what comes first and the rest
  induction h using Relation.ReflTransGen.head_induction_on with
  | refl =>
    rintro ⟨⟨baseline, worker⟩, activity, host, abandoned⟩ w hw rfl
    subst hw
    exact .refl
  | head hmove hrest ih =>
    rintro s w hw rfl
    exact .work (.current hw hmove) (ih rfl rfl)

/-- A worker that the host waits for goes on. -/
theorem of_moves_dismissed {t₀ t : Thread} (h : Thread.Moves t₀ t) {restart : Bool}
    {answer : Answer} :
    ∀ {s : System}, s.host = .joining t₀ restart answer →
      Run s [] { s with host := .joining t restart answer } := by
  induction h using Relation.ReflTransGen.head_induction_on with
  | refl =>
    rintro ⟨session, activity, host, abandoned⟩ hhost
    subst hhost
    exact .refl
  | head hmove hrest ih =>
    intro s hhost
    exact .work (.dismissed hhost hmove) (ih rfl)

/-- **A host that dismisses a worker does not wait in vain**: the worker comes to the control
word, and then the host gets its answer. -/
theorem of_dismiss (s : System) (hidle : s.session.worker = none → s.activity = .waiting)
    {word : String} (hword : ¬ IsProgram word) (restart : Bool) (answer : Answer) :
    ∃ s', Run (s.dismiss word restart answer) [.answer answer] s' ∧ s'.host = .free
      ∧ s'.activity = .waiting
      ∧ s'.session = if restart then s.session.reset else s.session.stop := by
  obtain ⟨⟨baseline, worker⟩, activity, host, abandoned⟩ := s
  cases worker with
  | none => exact ⟨_, .answer rfl .refl, rfl, hidle rfl, by cases restart <;> rfl⟩
  | some w =>
    -- the word is behind all that the worker has still to do
    obtain ⟨t, hmoves, hended⟩ := Thread.exists_ended hword
      (t := ⟨{ w with inbox := w.inbox ++ [word] }, activity⟩) (by simp)
    have hanswer : answer? ⟨⟨baseline, none⟩, .waiting, .joining t restart answer, abandoned⟩
        = some (answer, ⟨if restart then .fresh baseline else ⟨baseline, none⟩, .waiting, .free,
            abandoned⟩) := by
      simp only [answer?, hended, if_true]
      rfl
    exact ⟨_, (of_moves_dismissed hmoves rfl).append (.answer hanswer .refl), rfl, rfl,
      by cases restart <;> rfl⟩

/-- The session's worker takes every line. -/
theorem of_settle (s : System) (hidle : s.activity = .waiting) :
    Run s [] { s with session := s.session.settle } := by
  obtain ⟨⟨baseline, worker⟩, activity, host, abandoned⟩ := s
  subst hidle
  cases worker with
  | none => exact .refl
  | some w => exact of_moves (Thread.moves_settle w) rfl rfl

end Run

end System

/-! ## §5. One move after the other. -/

/-- A control word stops the session. -/
theorem Session.submit_of_not_isProgram {line : String} (h : ¬ IsProgram line) (s : Session) :
    s.submit line = (s.isRunning, s.stop) := by
  simp [submit, isControl_ofLine, h]

/-- A program that is sent is the last line of the inbox. -/
theorem Session.submit_eq_true {s session : Session} {line : String} (hline : IsProgram line)
    (h : s.submit line = (true, session)) :
    ∃ w, s.worker = some w ∧ w.hasEnded = false
      ∧ session = { s with worker := some { w with inbox := w.inbox ++ [line] } } := by
  simp only [submit, isControl_ofLine, hline, decide_true, Bool.not_true, Bool.false_eq_true,
    if_false] at h
  cases hworker : s.worker with
  | none => simp [hworker] at h
  | some w =>
    cases hended : w.hasEnded with
    | true => simp [hworker, hended] at h
    | false =>
      refine ⟨w, rfl, hended, ?_⟩
      simpa [hworker, hended, eq_comm] using h

theorem Session.eval_of_not_sent {s session : Session} {line : String}
    (h : s.submit line = (false, session)) : s.eval line = (some notRunning, session) := by
  simp only [eval, h]

theorem Session.eval_of_sent {s session : Session} {line : String} (hline : IsProgram line)
    (h : s.submit line = (true, session)) : s.eval line = session.await := by
  obtain ⟨w, -, -, rfl⟩ := submit_eq_true hline h
  simp only [eval, h, isRunning, Option.isSome_some, if_true]

theorem Session.eval_of_not_isProgram {line : String} (h : ¬ IsProgram line) (s : Session) :
    s.eval line = (some notRunning, s.stop) := by
  rw [eval, submit_of_not_isProgram h]
  cases s.isRunning <;> rfl

/-- Carry out an operation as a session does that moves only when its host waits; `none` if the
wait has no end. -/
def Session.perform (s : Session) : Operation → Option (Answer × Session)
  | .submit line => some (.flag (s.submit line).1, (s.submit line).2)
  | .eval line => (s.eval line).1.map fun output => (.output output, (s.eval line).2)
  | .receive => s.await.1.map fun output => (.output output, s.await.2)
  | .poll => some ((s.settle.poll.1.map .output).getD .nothing, s.settle.poll.2)
  | .isRunning => some (.flag s.isRunning, s)
  | .start => some (.done, s.start)
  | .stop => some (.done, s.stop)
  | .reset => some (.done, s.reset)
  | .interrupt => some (.output s.interrupt.1, s.interrupt.2)

/-- Carry out one operation after the other. -/
def Session.performAll (s : Session) : List Operation → Option (List Event × Session)
  | [] => some ([], s)
  | operation :: rest => do
      let (answer, s) ← s.perform operation
      let (events, s) ← s.performAll rest
      return (.call operation :: .answer answer :: events, s)

namespace System

/-- A host that waits for the next output gets what the session that moves alone gives it. -/
theorem exists_run_of_await {s : System} (hhost : s.host = .receiving)
    (hidle : s.activity = .waiting) {output : Output} (h : s.session.await.1 = some output) :
    ∃ s', Run s [.answer (.output output)] s' ∧ s'.host = .free ∧ s'.activity = .waiting
      ∧ s'.session = s.session.await.2 := by
  unfold Session.await at h ⊢
  cases hreceive : s.session.settle.receive? with
  | none => simp [hreceive] at h
  | some received =>
    obtain ⟨first, session⟩ := received
    obtain rfl : first = output := by simpa [hreceive] using h
    refine ⟨{ s with session := session, host := .free },
      (Run.of_settle s hidle).append (.answer ?_ .refl), rfl, hidle, rfl⟩
    simp [answer?, hhost, hreceive]

/-- **The session that moves alone is one of the schedules.** -/
theorem run_of_perform {s : System} (hfree : s.host = .free) (hidle : s.activity = .waiting)
    {operation : Operation} {answer : Answer} {session : Session}
    (h : s.session.perform operation = some (answer, session)) :
    ∃ s', Run s [.call operation, .answer answer] s' ∧ s'.host = .free ∧ s'.activity = .waiting
      ∧ s'.session = session := by
  -- `stop`, `reset` and the control words let a worker come to its end
  have hdismiss (word : String) (hword : ¬ IsProgram word) (restart : Bool) :=
    Run.of_dismiss s (fun _ => hidle) hword restart
  cases operation with
  | submit line =>
    cases h
    by_cases hline : IsProgram line
    · refine ⟨{ s with session := (s.session.submit line).2, host := .free },
        .call hfree (.answer ?_ .refl), rfl, hidle, rfl⟩
      simp only [call, hline, if_true, answer?]
    · obtain ⟨s', hrun, hfree', hidle', hsession⟩ :=
        hdismiss line hline false (.flag s.session.isRunning)
      rw [Session.submit_of_not_isProgram hline]
      refine ⟨s', .call hfree ?_, hfree', hidle', hsession⟩
      simpa [call, hline, Session.submit_of_not_isProgram] using hrun
  | eval line =>
    simp only [Session.perform, Option.map_eq_some_iff] at h
    obtain ⟨output, heval, hsession⟩ := h
    cases hsession
    by_cases hline : IsProgram line
    · obtain ⟨⟨sent, session⟩, hsubmit⟩ : ∃ sent, s.session.submit line = sent := ⟨_, rfl⟩
      cases sent with
      | false =>
        rw [Session.eval_of_not_sent hsubmit] at heval ⊢
        cases heval
        refine ⟨{ s with session := session, host := .free }, .call hfree (.answer ?_ .refl), rfl,
          hidle, rfl⟩
        simp [call, hline, hsubmit, answer?]
      | true =>
        rw [Session.eval_of_sent hline hsubmit] at heval ⊢
        obtain ⟨s', hrun, hs'⟩ := exists_run_of_await
          (s := { s with session := session, host := .receiving }) rfl hidle heval
        refine ⟨s', .call hfree ?_, hs'⟩
        simpa [call, hline, hsubmit] using hrun
    · rw [Session.eval_of_not_isProgram hline] at heval ⊢
      cases heval
      obtain ⟨s', hrun, hfree', hidle', hsession⟩ :=
        hdismiss line hline false (.output Session.notRunning)
      refine ⟨s', .call hfree ?_, hfree', hidle', hsession⟩
      simpa [call, hline, Session.submit_of_not_isProgram] using hrun
  | receive =>
    simp only [Session.perform, Option.map_eq_some_iff] at h
    obtain ⟨output, hawait, hsession⟩ := h
    cases hsession
    obtain ⟨s', hrun, hs'⟩ := exists_run_of_await (s := s.call .receive) rfl hidle hawait
    exact ⟨s', .call hfree hrun, hs'⟩
  | poll =>
    cases h
    obtain ⟨⟨output, session⟩, hpoll⟩ : ∃ polled, s.session.settle.poll = polled := ⟨_, rfl⟩
    rw [hpoll]
    refine ⟨{ s with session := session, host := .free },
      .call hfree ((Run.of_settle (s.call .poll) hidle).append (.answer ?_ .refl)), rfl, hidle, rfl⟩
    cases output <;> simp [answer?, call, hpoll]
  | isRunning =>
    cases h
    exact ⟨_, .call hfree (.answer rfl .refl), rfl, hidle, rfl⟩
  | start =>
    cases h
    exact ⟨_, .call hfree (.answer rfl .refl), rfl, hidle, rfl⟩
  | stop =>
    cases h
    obtain ⟨s', hrun, hs'⟩ := hdismiss "stop" (by decide) false .done
    exact ⟨s', .call hfree hrun, hs'⟩
  | reset =>
    cases h
    obtain ⟨s', hrun, hs'⟩ := hdismiss "reset" (by decide) true .done
    exact ⟨s', .call hfree hrun, hs'⟩
  | interrupt =>
    cases h
    exact ⟨_, .call hfree (.answer rfl .refl), rfl, rfl, rfl⟩

theorem run_of_performAll {performed : List Operation} :
    ∀ {s : System} {events : List Event} {session : Session}, s.host = .free →
      s.activity = .waiting → s.session.performAll performed = some (events, session) →
      ∃ s', Run s events s' ∧ s'.host = .free ∧ s'.activity = .waiting ∧ s'.session = session := by
  induction performed with
  | nil =>
    rintro s events session hfree hidle h
    cases h
    exact ⟨s, .refl, hfree, hidle, rfl⟩
  | cons operation rest ih =>
    rintro s events session hfree hidle h
    simp only [Session.performAll, Option.bind_eq_bind, Option.bind_eq_some_iff, Prod.exists] at h
    obtain ⟨answer, first, hfirst, later, final, hrest, h⟩ := h
    cases h
    obtain ⟨s', hrun, hfree', hidle', rfl⟩ := run_of_perform hfree hidle hfirst
    obtain ⟨s'', hrun', hs''⟩ := ih hfree' hidle' hrest
    exact ⟨s'', hrun.append hrun', hs''⟩

end System

end PlotLisp
