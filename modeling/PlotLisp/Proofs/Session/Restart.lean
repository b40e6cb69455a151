/-
  PlotLisp.Proofs.Session.Restart
  ──────────────────────────────────────
  **A RESTARTED SESSION REMEMBERS NOTHING.**

  A restart leaves lines, outputs, definitions, and perhaps a worker that is still
  busy behind it.  None of them is ever seen again: what a host can see after a
  restart is exactly what it can see of a new session.

    • `Run.baseline` — the baseline is what it was;
    • `Run.of_abandoned` — workers that were left to themselves do not matter to
      what a host sees;
    • `Renewed` — what a session is from the call of a restart on, whichever of the
      `restarts` it is.
-/
import PlotLisp.Proofs.Session.Running

namespace PlotLisp

/-! ## §1. The baseline. -/

namespace Session

/-- A start copies the baseline and keeps it. -/
theorem baseline_start (s : Session) : s.start.baseline = s.baseline := by
  unfold start
  cases s.worker <;> rfl

/-- Programs go to the worker's copy: the baseline never sees them. -/
theorem baseline_submit (s : Session) (line : String) :
    (s.submit line).2.baseline = s.baseline := by
  unfold submit
  cases (Request.ofLine line).isControl with
  | true => rfl
  | false =>
    cases s.worker with
    | none => rfl
    | some w => cases h : w.hasEnded <;> simp [h, stop]

theorem baseline_receive? {s session : Session} {output : Output}
    (h : s.receive? = some (output, session)) : session.baseline = s.baseline := by
  obtain ⟨baseline, worker⟩ := s
  cases worker with
  | none => cases h; rfl
  | some w =>
    obtain ⟨interp, inbox, outbox, hasEnded⟩ := w
    cases outbox with
    | cons output rest => cases h; rfl
    | nil =>
      cases hasEnded with
      | true => cases h; rfl
      | false => exact absurd h (by simp [receive?])

/-- Receiving, or finding nothing to receive, leaves the baseline. -/
theorem baseline_poll (s : Session) : s.poll.2.baseline = s.baseline := by
  unfold poll
  cases s.isRunning with
  | false => rfl
  | true =>
    cases h : s.receive? with
    | none => rfl
    | some received => exact baseline_receive? h

end Session

namespace System

/-- The worker cannot reach the baseline. -/
theorem baseline_of_works {s s' : System} (h : Works s s') :
    s'.session.baseline = s.session.baseline := by
  cases h <;> rfl

/-- To dismiss the worker, for good or for a restart, leaves the baseline. -/
theorem baseline_dismiss (s : System) (word : String) (restart : Bool) (answer : Answer) :
    (s.dismiss word restart answer).session.baseline = s.session.baseline := by
  unfold dismiss
  cases s.session.worker with
  | some w => rfl
  | none =>
    cases restart with
    | true => exact s.session.baseline_start
    | false => rfl

/-- No operation changes the baseline a session restarts from. -/
theorem baseline_call (s : System) (operation : Operation) :
    (s.call operation).session.baseline = s.session.baseline := by
  cases operation with
  | submit line =>
    by_cases hline : IsProgram line
    · simp only [call, if_pos hline, s.session.baseline_submit]
    · simp only [call, if_neg hline, s.baseline_dismiss]
  | eval line =>
    by_cases hline : IsProgram line
    · simp only [call, if_pos hline, s.session.baseline_submit]
    · simp only [call, if_neg hline, s.baseline_dismiss]
  | receive => rfl
  | poll => rfl
  | isRunning => rfl
  | start => exact s.session.baseline_start
  | stop => exact s.baseline_dismiss _ _ _
  | reset => exact s.baseline_dismiss _ _ _
  | interrupt => rfl

theorem baseline_answer? {s s' : System} {answer : Answer}
    (h : s.answer? = some (answer, s')) : s'.session.baseline = s.session.baseline := by
  obtain ⟨session, activity, host, abandoned⟩ := s
  cases host with
  | free => exact absurd h (by simp [answer?])
  | answering given => cases h; rfl
  | receiving =>
    simp only [answer?, Option.map_eq_some_iff, Prod.exists] at h
    obtain ⟨output, session', hreceive, h⟩ := h
    cases h
    exact Session.baseline_receive? hreceive
  | polling =>
    have hpoll := session.baseline_poll
    obtain ⟨⟨output, session'⟩, hpolled⟩ : ∃ polled, session.poll = polled := ⟨_, rfl⟩
    rw [hpolled] at hpoll
    cases output <;>
      · simp only [answer?, hpolled] at h
        cases h
        exact hpoll
  | joining thread restart given =>
    simp only [answer?] at h
    split at h
    · cases h
      cases restart with
      | true => exact session.baseline_start
      | false => rfl
    · exact absurd h (by simp)

/-- **Nothing ever changes the baseline.** -/
theorem Run.baseline {s s' : System} {events : List Event} (h : Run s events s') :
    s'.session.baseline = s.session.baseline := by
  induction h with
  | refl => rfl
  | work hworks _ ih => rw [ih, baseline_of_works hworks]
  | call _ _ ih => rw [ih, baseline_call]
  | answer hanswer _ ih => rw [ih, baseline_answer? hanswer]

/-! ## §2. Workers that were left to themselves. -/

/-- A call may leave one more worker to itself, and looks at none. -/
theorem call_leaving (s : System) (abandoned : List Thread) (operation : Operation) :
    ∃ abandoned', (s.leaving abandoned).call operation = (s.call operation).leaving abandoned' := by
  have hdismiss (word : String) (restart : Bool) (answer : Answer) :
      (s.leaving abandoned).dismiss word restart answer
        = (s.dismiss word restart answer).leaving abandoned := by
    simp only [dismiss, leaving]
    cases s.session.worker <;> rfl
  cases operation with
  | submit line =>
    refine ⟨abandoned, ?_⟩
    by_cases hline : IsProgram line
    · simp only [call, if_pos hline, leaving]
    · simp only [call, if_neg hline]
      exact hdismiss _ _ _
  | eval line =>
    refine ⟨abandoned, ?_⟩
    by_cases hline : IsProgram line
    · simp only [call, if_pos hline, leaving]
      rfl
    · simp only [call, if_neg hline]
      exact hdismiss _ _ _
  | receive => exact ⟨abandoned, rfl⟩
  | poll => exact ⟨abandoned, rfl⟩
  | isRunning => exact ⟨abandoned, rfl⟩
  | start => exact ⟨abandoned, rfl⟩
  | stop => exact ⟨abandoned, hdismiss _ _ _⟩
  | reset => exact ⟨abandoned, hdismiss _ _ _⟩
  | interrupt => exact ⟨_, rfl⟩

/-- An answer does not depend on workers that were left to themselves. -/
theorem answer?_leaving (s : System) (abandoned : List Thread) :
    (s.leaving abandoned).answer?
      = s.answer?.map fun (answer, s') => (answer, s'.leaving abandoned) := by
  obtain ⟨session, activity, host, others⟩ := s
  cases host with
  | free => rfl
  | answering given => rfl
  | receiving =>
    simp only [answer?, leaving, Option.map_map]
    rfl
  | polling =>
    obtain ⟨⟨output, session'⟩, hpolled⟩ : ∃ polled, session.poll = polled := ⟨_, rfl⟩
    cases output <;> simp only [answer?, leaving, hpolled, Option.map_some]
  | joining thread restart given =>
    cases hended : thread.worker.hasEnded <;>
      simp [answer?, leaving, hended]

/-- **Workers that were left to themselves do not matter**: with others in their place, a host can
see the same. -/
theorem Run.of_abandoned {s s' : System} {events : List Event} (h : Run s events s') :
    ∀ abandoned, ∃ abandoned', Run (s.leaving abandoned) events (s'.leaving abandoned') := by
  induction h with
  | refl => exact fun abandoned => ⟨abandoned, .refl⟩
  | work hworks _ ih =>
    intro abandoned
    obtain ⟨abandoned', hrun⟩ := ih abandoned
    refine ⟨abandoned', ?_⟩
    cases hworks with
    | current hw hmove => exact .work (.current hw hmove) hrun
    | dismissed hhost hmove => exact .work (.dismissed hhost hmove) hrun
    -- nothing moves in the other system
    | abandoned => exact hrun
  | call hfree _ ih =>
    intro abandoned
    obtain ⟨abandoned₁, hcall⟩ := call_leaving _ abandoned _
    obtain ⟨abandoned', hrun⟩ := ih abandoned₁
    exact ⟨abandoned', .call hfree (hcall ▸ hrun)⟩
  | answer hanswer _ ih =>
    intro abandoned
    obtain ⟨abandoned', hrun⟩ := ih abandoned
    exact ⟨abandoned', .answer (by rw [answer?_leaving, hanswer]; rfl) hrun⟩

/-! ## §3. Restarts. -/

/-- What a session is from the call of a restart on. -/
inductive Renewed (baseline : Interpreter) : System → Prop where
  /-- It is a new session. -/
  | started {s} : s.session = .fresh baseline → s.activity = .waiting → ¬ s.host.Joins →
      Renewed baseline s
  /-- It starts a new worker as soon as the old one has ended. -/
  | restarting {s thread answer} : s.session = ⟨baseline, none⟩ → s.activity = .waiting →
      s.host = .joining thread true answer → Renewed baseline s

/-- A renewed session stays renewed whichever worker makes a move, the abandoned ones included. -/
theorem Renewed.works {baseline : Interpreter} {s s' : System} (h : Renewed baseline s)
    (hworks : Works s s') : Renewed baseline s' := by
  cases h with
  | started hsession hactivity hjoins =>
    cases hworks with
    | current hw hmove =>
      -- a new worker has nothing to take
      rw [hsession] at hw
      cases hw
      rw [hactivity] at hmove
      exact absurd hmove (by simp [Thread.move?, Worker.fresh])
    | dismissed hhost => exact absurd (joins_of_joining hhost) hjoins
    | abandoned => exact .started hsession hactivity hjoins
  | restarting hsession hactivity hhost =>
    cases hworks with
    | current hw => exact absurd hw (by simp [hsession])
    | dismissed hhost' =>
      cases hhost.symm.trans hhost'
      exact .restarting hsession hactivity rfl
    | abandoned => exact .restarting hsession hactivity hhost

/-- Answers do not age a renewed session. -/
theorem Renewed.answer {baseline : Interpreter} {s s' : System} (h : Renewed baseline s)
    {answer : Answer} (hanswer : s.answer? = some (answer, s')) : Renewed baseline s' := by
  cases h with
  | started hsession hactivity hjoins =>
    obtain ⟨session, activity, host, abandoned⟩ := s
    obtain rfl : session = .fresh baseline := hsession
    cases host with
    | free => exact absurd hanswer (by simp [answer?])
    | answering given => cases hanswer; exact .started rfl hactivity id
    | receiving =>
      exact absurd hanswer (by simp [answer?, Session.receive?, Session.fresh, Worker.fresh])
    | polling => cases hanswer; exact .started rfl hactivity id
    | joining => exact absurd trivial hjoins
  | restarting hsession hactivity hhost =>
    simp only [answer?, hhost, if_true] at hanswer
    split at hanswer
    · cases hanswer
      exact .started (by rw [hsession]; rfl) hactivity id
    · exact absurd hanswer (by simp)

/-- As long as no operation is called, a renewed session stays renewed over any schedule. -/
theorem Renewed.run {baseline : Interpreter} {s s' : System} {events : List Event}
    (hrun : Run s events s') :
    operations events = [] → Renewed baseline s → Renewed baseline s' := by
  induction hrun with
  | refl => exact fun _ h => h
  | work hworks _ ih => exact fun hnil h => ih hnil (h.works hworks)
  | call => exact fun hnil => absurd hnil (by simp [operations])
  | answer hanswer _ ih => exact fun hnil h => ih hnil (h.answer hanswer)

/-- A run up to the first operation, and from there on. -/
theorem Run.exists_of_operations {s s' : System} {events : List Event} (h : Run s events s')
    {operation : Operation} {rest : List Operation}
    (hoperations : operations events = operation :: rest) :
    ∃ before s₁ after, Run s before s₁ ∧ operations before = [] ∧ s₁.host = .free
      ∧ Run (s₁.call operation) after s' ∧ operations after = rest := by
  induction h with
  | refl => exact absurd hoperations (by simp [operations])
  | work hworks _ ih =>
    obtain ⟨before, s₁, after, hrun, hrest⟩ := ih hoperations
    exact ⟨before, s₁, after, .work hworks hrun, hrest⟩
  | call hfree hrun _ =>
    cases hoperations
    exact ⟨[], _, _, .refl, rfl, hfree, hrun, rfl⟩
  | answer hanswer _ ih =>
    obtain ⟨before, s₁, after, hrun, hnone, hrest⟩ := ih hoperations
    exact ⟨_ :: before, s₁, after, .answer hanswer hrun, hnone, hrest⟩

/-- The ways to restart a session. -/
def restarts : List (List Operation) := [[.reset], [.interrupt], [.stop, .start]]

/-- A session without a worker has nothing under way. -/
theorem Sound.activity_of_stopped {s : System} {running : Bool} (h : Sound running s)
    (hworker : s.session.worker = none) : s.activity = .waiting := by
  cases h with
  | running hserves => exact absurd (hserves.worker.symm.trans hworker) (by simp)
  | stopped _ hactivity => exact hactivity
  | joining _ hactivity => exact hactivity

/-- A reset renews the session, whatever it went through before. -/
theorem Sound.renewed_reset {s : System} {running : Bool} (h : Sound running s) :
    Renewed s.session.baseline (s.call .reset) := by
  show Renewed _ (s.dismiss "reset" true .done)
  unfold System.dismiss
  cases hworker : s.session.worker with
  | none =>
    refine .started ?_ (h.activity_of_stopped hworker) id
    simp only [if_true, Session.start, hworker]
    rfl
  | some w => exact .restarting rfl rfl rfl

/-- So does a start, if nothing runs yet. -/
theorem Sound.renewed_start {s : System} (h : Sound false s) (hfree : s.host = .free) :
    Renewed s.session.baseline (s.call .start) := by
  cases h with
  | stopped hworker hactivity =>
    refine .started ?_ hactivity id
    simp only [System.call, Session.start, hworker]
    rfl
  | joining _ _ hhost => exact absurd (hfree.symm.trans hhost) (by simp)

/-- **Every restart renews the session**, on any schedule. -/
theorem Sound.renewed {s s' : System} {running : Bool} (h : Sound running s)
    {events : List Event} (hrun : Run s events s') (hrestart : operations events ∈ restarts) :
    Renewed s.session.baseline s' := by
  simp only [restarts, List.mem_cons, List.not_mem_nil, or_false] at hrestart
  rcases hrestart with hreset | hinterrupt | hstop
  · obtain ⟨before, s₁, after, hrun₁, -, -, hrun₂, hnone⟩ := hrun.exists_of_operations hreset
    rw [← hrun₁.baseline]
    exact Renewed.run hrun₂ hnone (Sound.run hrun₁ h).renewed_reset
  · obtain ⟨before, s₁, after, hrun₁, -, -, hrun₂, hnone⟩ := hrun.exists_of_operations hinterrupt
    rw [← hrun₁.baseline]
    exact Renewed.run hrun₂ hnone (.started rfl rfl id)
  · -- `start` is called on a session that `stop` has left without a worker
    obtain ⟨before, s₁, after, hrun₁, -, hfree₁, hrun₂, hstart⟩ := hrun.exists_of_operations hstop
    obtain ⟨between, s₂, after', hrun₃, hbetween, hfree₂, hrun₄, hnone⟩ :=
      hrun₂.exists_of_operations hstart
    have hstopped : Sound false s₂ := by
      have hsound := Sound.run hrun₃ ((Sound.run hrun₁ h).call hfree₁ .stop)
      rw [leftRunning, hbetween] at hsound
      exact hsound
    rw [← hrun₁.baseline, ← baseline_call s₁ .stop, ← hrun₃.baseline]
    exact Renewed.run hrun₄ hnone (hstopped.renewed_start hfree₂)

/-- A restart does not wait in vain. -/
theorem Sound.exists_restart {s : System} {running : Bool} (h : Sound running s)
    (hfree : s.host = .free) {restart : List Operation} (hrestart : restart ∈ restarts) :
    ∃ events s', Run s events s' ∧ operations events = restart ∧ s'.host = .free := by
  simp only [restarts, List.mem_cons, List.not_mem_nil, or_false] at hrestart
  rcases hrestart with rfl | rfl | rfl
  · obtain ⟨s', hrun, hfree', -⟩ :=
      Run.of_dismiss s h.activity_of_stopped (show ¬ IsProgram "reset" by decide) true .done
    exact ⟨[.call .reset, .answer .done], s', .call hfree hrun, rfl, hfree'⟩
  · exact ⟨[.call .interrupt, .answer (.output Session.interrupted)], _,
      .call hfree (.answer rfl .refl), rfl, rfl⟩
  · obtain ⟨s', hrun, hfree', -⟩ :=
      Run.of_dismiss s h.activity_of_stopped (show ¬ IsProgram "stop" by decide) false .done
    exact ⟨[.call .stop, .answer .done, .call .start, .answer .done], _,
      .call hfree (hrun.append (.call hfree' (.answer rfl .refl))), rfl, rfl⟩

end System

/-! ## §4. Nothing is remembered. -/

/-- **A RESTARTED SESSION REMEMBERS NOTHING.**  Whatever was called on a session, and on whatever
schedule: its baseline is what it was, each restart comes to an end, and then the session is a new
one, of which a host can see what it can see of a session that was never used. -/
theorem restarted_sessions_remember_nothing (baseline : Interpreter) {history : List Event}
    {s : System} (hrun : System.Run (.fresh baseline) history s) (hfree : s.host = .free) :
    s.session.baseline = baseline
      ∧ ∀ restart ∈ System.restarts,
          (∃ events s', System.Run s events s' ∧ operations events = restart ∧ s'.host = .free)
            ∧ ∀ events s', System.Run s events s' → operations events = restart →
                s'.host = .free →
                s'.session = .fresh baseline
                  ∧ ∀ later, (∃ s'', System.Run s' later s'')
                      ↔ ∃ s'', System.Run (.fresh baseline) later s'' := by
  have hsound := System.Sound.run hrun (System.sound_fresh baseline)
  have hbaseline : s.session.baseline = baseline := hrun.baseline
  refine ⟨hbaseline, fun restart hrestart =>
    ⟨hsound.exists_restart hfree hrestart, fun events s' hrun' hoperations hfree' => ?_⟩⟩
  have hrenewed := hsound.renewed hrun' (hoperations ▸ hrestart)
  rw [hbaseline] at hrenewed
  cases hrenewed with
  | restarting _ _ hhost => exact absurd (hfree'.symm.trans hhost) (by simp)
  | started hsession hactivity =>
    -- but for the workers that were left behind, this is a fresh session
    have hsame : s' = (System.fresh baseline).leaving s'.abandoned := by
      obtain ⟨session, activity, host, abandoned⟩ := s'
      cases hsession
      cases hactivity
      cases hfree'
      rfl
    refine ⟨hsession, fun later => ⟨?_, ?_⟩⟩
    · rintro ⟨s'', hlater⟩
      obtain ⟨abandoned, hlater⟩ := hlater.of_abandoned []
      rw [hsame] at hlater
      exact ⟨_, hlater⟩
    · rintro ⟨s'', hlater⟩
      obtain ⟨abandoned, hlater⟩ := hlater.of_abandoned s'.abandoned
      rw [hsame]
      exact ⟨_, hlater⟩

/-- Two programs are left behind, and the interrupted worker still has them. -/
theorem restarted_sessions_remember_nothing_after_interrupt :
    ∃ history s events s', System.Run (.fresh (.fresh 1000)) history s
      ∧ operations history = [.submit "(define x 1)", .submit "x"]
      ∧ System.Run s events s' ∧ operations events = [.interrupt]
      ∧ s'.session = .fresh (.fresh 1000)
      ∧ ∀ later, (∃ s'', System.Run s' later s'')
          ↔ ∃ s'', System.Run (.fresh (.fresh 1000)) later s'' := by
  -- nothing of this depends on what the programs evaluate to
  generalize Interpreter.fresh 1000 = baseline
  obtain ⟨history, session, hperform, hoperations⟩ :
      ∃ history session,
        (Session.fresh baseline).performAll [.submit "(define x 1)", .submit "x"]
            = some (history, session)
          ∧ operations history = [.submit "(define x 1)", .submit "x"] := ⟨_, _, rfl, rfl⟩
  obtain ⟨s, hrun, hfree, -, -⟩ := System.run_of_performAll (s := .fresh baseline) rfl rfl hperform
  obtain ⟨-, hrestarts⟩ := restarted_sessions_remember_nothing baseline hrun hfree
  obtain ⟨⟨events, s', hrun', hinterrupt, hfree'⟩, hnew⟩ := hrestarts [.interrupt] (by decide)
  exact ⟨history, s, events, s', hrun, hoperations, hrun', hinterrupt,
    hnew events s' hrun' hinterrupt hfree'⟩

end PlotLisp
