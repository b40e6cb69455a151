/-
  PlotLisp.Session
  ──────────────────────────────────────
  **SESSIONS.**

  A session is a host and a worker, joined by two queues.  The worker takes
  lines from its inbox one at a time: a program is evaluated and answered,
  `stop`, `reset` and `exit` end it.  The host sends lines, takes answers, and
  can replace the worker by a new one that starts from the baseline.

    • `Worker.step` — the worker's only move;
    • `submit`, `receive?`, `start`, `stop`, `reset`, `interrupt` — the host's
      moves;
    • `settle` lets the worker work until its inbox is empty; `await` and
      `eval` use it, as a host that waits would see it.
-/
import PlotLisp.Interpreter
import PlotLisp.Output

namespace PlotLisp

/-! ## §1. Requests. -/

/-- What a line asks of a worker. -/
inductive Request where
  | stop
  | reset
  | exit
  | eval (source : String)
deriving DecidableEq, Repr

namespace Request

/-- What a line asks: the control words stand alone, anything else is a program. -/
def ofLine (line : String) : Request :=
  if line = "stop" then .stop
  else if line = "reset" then .reset
  else if line = "exit" then .exit
  else .eval line

/-- Does the request end the worker? -/
def isControl : Request → Bool
  | .eval _ => false
  | _ => true

end Request

/-! ## §2. Workers. -/

/-- An interpreter with the lines it has still to take and the answers that
nobody has taken yet. -/
structure Worker where
  interp : Interpreter
  inbox : List String
  outbox : List Output
  hasEnded : Bool
deriving DecidableEq, Repr

namespace Worker

/-- A worker that has just been started. -/
def fresh (baseline : Interpreter) : Worker := ⟨baseline, [], [], false⟩

/-- Take the next line, if there is one. -/
def step (w : Worker) : Worker :=
  if w.hasEnded then w
  else
    match w.inbox with
    | [] => w
    | line :: rest =>
        match Request.ofLine line with
        | .eval source =>
            let (outcome, interp) := w.interp.runInput source
            { w with
              interp := interp
              inbox := rest
              outbox := w.outbox ++ [.ofOutcome outcome] }
        | _ => { w with inbox := [], hasEnded := true }

/-- Take as many lines as `steps`, or all there are. -/
def work : Nat → Worker → Worker
  | 0, w => w
  | steps + 1, w => work steps w.step

/-- Take every line. -/
def settle (w : Worker) : Worker := work w.inbox.length w

/-- The answers of a worker that is fed all of the lines. -/
def answers (interp : Interpreter) (lines : List String) : List Output :=
  (settle { fresh interp with inbox := lines }).outbox

end Worker

/-! ## §3. Hosts. -/

/-- A baseline, and a worker unless the session is stopped. -/
structure Session where
  baseline : Interpreter
  worker : Option Worker
deriving DecidableEq, Repr

namespace Session

/-- What a stopped session answers. -/
def notRunning : Output := .error "Error: interpreter kernel not running"

/-- What an interrupt answers. -/
def interrupted : Output := .error "Error: interpreter kernel interrupted"

/-- A new session, with its worker started. -/
def fresh (baseline : Interpreter) : Session := ⟨baseline, some (.fresh baseline)⟩

/-- Is there a worker? -/
def isRunning (s : Session) : Bool := s.worker.isSome

/-- Start a worker unless there is one. -/
def start (s : Session) : Session :=
  match s.worker with
  | some _ => s
  | none => { s with worker := some (.fresh s.baseline) }

/-- End the worker; its definitions and its answers are gone. -/
def stop (s : Session) : Session := { s with worker := none }

/-- Replace the worker by a new one. -/
def reset (s : Session) : Session := s.stop.start

/-- Leave the worker to itself and start a new one. -/
def interrupt (s : Session) : Output × Session := (interrupted, s.stop.start)

/-- Send a line; the answer tells whether there was a worker to send it to.  A
control word ends the worker. -/
def submit (s : Session) (line : String) : Bool × Session :=
  -- a control word never reaches the inbox
  if (Request.ofLine line).isControl then (s.isRunning, s.stop)
  else
    match s.worker with
    | none => (false, s)
    | some w =>
        if w.hasEnded then (false, s.stop)
        else (true, { s with worker := some { w with inbox := w.inbox ++ [line] } })

/-- Take the next answer that is there, or that it is clear will never come;
`none` if it may still come. -/
def receive? (s : Session) : Option (Output × Session) :=
  match s.worker with
  | none => some (notRunning, s)
  | some w =>
      match w.outbox with
      | output :: rest => some (output, { s with worker := some { w with outbox := rest } })
      | [] => if w.hasEnded then some (notRunning, s.stop) else none

/-- Take the next answer without insisting; a stopped session gives none. -/
def poll (s : Session) : Option Output × Session :=
  if s.isRunning then
    match s.receive? with
    | some (output, s) => (some output, s)
    | none => (none, s)
  else (none, s)

/-! ## §4. Waiting. -/

/-- Let the worker take one line. -/
def workerStep (s : Session) : Session := { s with worker := s.worker.map Worker.step }

/-- Let the worker take every line. -/
def settle (s : Session) : Session := { s with worker := s.worker.map Worker.settle }

/-- Wait for the next answer; `none` if the wait has no end. -/
def await (s : Session) : Option Output × Session :=
  match s.settle.receive? with
  | some (output, s) => (some output, s)
  | none => (none, s.settle)

/-- Send a program and wait for the next answer. -/
def eval (s : Session) (source : String) : Option Output × Session :=
  match s.submit source with
  | (true, s) => if s.isRunning then s.await else (some notRunning, s)
  | (false, s) => (some notRunning, s)

end Session

end PlotLisp
