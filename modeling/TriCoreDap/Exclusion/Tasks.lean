import TriCoreDap.Library.RecLock
import Mathlib.Logic.Function.Basic

/-!
# Traces and flash sessions on four tasks

Starts and stops of a trace come from the web server, the orphan watcher stops a
trace as well, and flash sessions come from the web flasher's task and from GDB.
They share the DAP lock and a few flags; each look at a flag, each store and each
call that takes the lock is a step.

The drain task of `dap_trace.c` is a fifth task.  It takes the lock for each of
its reads alone.
-/

namespace TriCoreDap
namespace Exclusion

inductive TaskId
  | http
  | watcher
  | flasher
  | gdb
  deriving DecidableEq, Repr

/-- A store, or a call that only gives the lock back. -/
inductive Act
  | unlock
  /-- `s_running = false` in `dap_trace_stop`. -/
  | stopTrace
  /-- `s_running = true` in `trace_begin` and for the last pass of `dap_trace_finish`. -/
  | runTrace
  | setRunning
  | setActive (on : Bool)
  /-- `if (s_session_locked) dap_unlock();` with the lock held. -/
  | joinSession
  | setSession
  | sessionUnlock
  deriving DecidableEq, Repr

/-- What a step looks at. -/
inductive Test
  | flashActive
  | session
  /-- `s_running` of `dap_mcds.c`. -/
  | running
  /-- The same, and clears it. -/
  | takeRunning
  /-- What the target or the system answers. -/
  | succeeds
  deriving DecidableEq, Repr

/-- What a task is about to do. -/
inductive Code
  | done
  | act (act : Act) (next : Code)
  | test (test : Test) (yes no : Code)
  | lock (next : Code)
  /-- A call of the probe, which takes the lock for its length. -/
  | access (next : Code)
  /-- Reads of `FIFOCTL` until the flush is done, `left` at most. -/
  | flush (left : Nat) (next : Code)
  /-- Waits for the drain task to be gone, `left` at most. -/
  | waitDrain (left : Nat) (next : Code)
  | createDrain (next failed : Code)
  deriving DecidableEq, Repr

namespace Code

def dapTraceStop (next : Code) : Code := .act .stopTrace (.waitDrain 100 next)

/-- The last pass runs with `s_running` set again, unless `FIFONOW` cannot be read. -/
def dapTraceFinish (next : Code) : Code :=
  .test .succeeds (.act .runTrace (.access (.act .stopTrace next))) next

def dapMcdsStop (next : Code) : Code :=
  .test .takeRunning
    (.access (.flush 50 (dapTraceStop (.lock (dapTraceFinish (.act .unlock next))))))
    next

/-- `trace_begin` and the drain task. -/
def dapTraceStart (next failed : Code) : Code :=
  .test .succeeds (.act .runTrace (.createDrain next (.act .stopTrace failed))) failed

def dapMcdsStart (next : Code) : Code :=
  let start :=
    .lock (.test .succeeds
      (dapTraceStart (.act .unlock (.act .setRunning next)) (.act .unlock next))
      (.act .unlock next))
  .test .running (dapMcdsStop start) start

/-- Refused while `tricore_flash_active()`. -/
def startHandler : Code :=
  .test .flashActive .done (.test .session .done (dapMcdsStart .done))

def stopHandler : Code := dapMcdsStop .done

/-- A turn of the orphan watcher that finds a trace nobody reads. -/
def watchTask : Code := .test .running (dapMcdsStop .done) .done

def stopTrace (next : Code) : Code := .test .running (dapMcdsStop next) next

def tricoreFlashBegin (next failed : Code) : Code :=
  let begin :=
    .lock (.act .joinSession (.act .setSession
      (.test .succeeds next (.act .sessionUnlock failed))))
  .test .session begin (stopTrace begin)

/-- `write_locked` and what is around it; the session ends in `tricore_flash_end`, or
here where the programming failed. -/
def tricoreFlashWrite : Code :=
  let after := .act .sessionUnlock (.act .unlock (.act (.setActive false) .done))
  .act (.setActive true) (stopTrace (.lock (.test .succeeds
    (tricoreFlashBegin (.test .succeeds (.act .sessionUnlock after) after) after)
    after)))

/-- GDB's `load`, from `tricore_flash_begin` to `tricore_flash_end`. -/
def flashLoad : Code := tricoreFlashBegin (.act .sessionUnlock .done) .done

end Code

/-- What comes in from outside, each on its task. -/
inductive Request
  | start
  | stop
  | watch
  | write
  | load
  deriving DecidableEq, Repr

def Request.task : Request → TaskId
  | .start | .stop => .http
  | .watch => .watcher
  | .write => .flasher
  | .load => .gdb

def Request.code : Request → Code
  | .start => Code.startHandler
  | .stop => Code.stopHandler
  | .watch => Code.watchTask
  | .write => Code.tricoreFlashWrite
  | .load => Code.flashLoad

/-- Where the drain task stands. -/
inductive DrainTask
  | absent
  | atLoop
  /-- In `dap_trace_poll`, before its own look at `s_running`. -/
  | inPoll
  | inPass
  /-- Past its loop, with `s_task` still set. -/
  | leaving
  deriving DecidableEq, Repr

/-- The drain is in its loop. -/
def DrainTask.draining : DrainTask → Bool
  | .atLoop | .inPoll | .inPass => true
  | .absent | .leaving => false

structure System where
  lock : RecLock TaskId
  /-- `s_running` of `dap_mcds.c`. -/
  running : Bool
  /-- `s_running` of `dap_trace.c`. -/
  traceRunning : Bool
  flashActive : Bool
  session : Bool
  drain : DrainTask
  code : TaskId → Code

/-- A request, a step of a task or a step of the drain; what the step's look at the
target or the system gives is `outcome`. -/
inductive Step
  | request (request : Request)
  | run (task : TaskId) (outcome : Bool)
  | drain (outcome : Bool)
  deriving DecidableEq, Repr

namespace System

def idle : System :=
  ⟨.free, false, false, false, false, .absent, fun _ => .done⟩

/-- The task goes on with `next`. -/
def go (system : System) (task : TaskId) (next : Code) : System :=
  { system with code := Function.update system.code task next }

def perform (system : System) (task : TaskId) : Act → System
  | .unlock => { system with lock := system.lock.give task }
  | .stopTrace => { system with traceRunning := false }
  | .runTrace => { system with traceRunning := true }
  | .setRunning => { system with running := true }
  | .setActive on => { system with flashActive := on }
  | .joinSession =>
      if system.session then { system with lock := system.lock.give task } else system
  | .setSession => { system with session := true }
  | .sessionUnlock =>
      if system.session then { system with session := false, lock := system.lock.give task }
      else system

def holds (system : System) (outcome : Bool) : Test → Bool
  | .flashActive => system.flashActive
  | .session => system.session
  | .running | .takeRunning => system.running
  | .succeeds => outcome

def afterTest (system : System) : Test → System
  | .takeRunning => { system with running := false }
  | _ => system

/-- A step of a task; where the lock is another one's, it waits. -/
def run (system : System) (task : TaskId) (outcome : Bool) : System :=
  match system.code task with
  | .done => system
  | .act act next => (system.perform task act).go task next
  | .test test yes no =>
      (system.afterTest test).go task (if system.holds outcome test then yes else no)
  | .lock next =>
      if system.lock.openTo task then
        { system with lock := system.lock.take task }.go task next
      else system
  | .access next => if system.lock.openTo task then system.go task next else system
  | .flush 0 next => system.go task next
  | .flush (left + 1) next =>
      if system.lock.openTo task then
        system.go task (if outcome then next else .flush left next)
      else system
  | .waitDrain 0 next => system.go task next
  | .waitDrain (left + 1) next =>
      system.go task (if system.drain = .absent then next else .waitDrain left next)
  | .createDrain next failed =>
      if system.drain = .absent then
        if outcome then { system with drain := .atLoop }.go task next
        else system.go task failed
      else system.go task next

/-- The drain polls while it is told to run; a pass has one read or more. -/
def drainStep (system : System) (outcome : Bool) : System :=
  match system.drain with
  | .absent => system
  | .atLoop => { system with drain := if system.traceRunning then .inPoll else .leaving }
  | .inPoll => { system with drain := if system.traceRunning then .inPass else .atLoop }
  | .inPass =>
      if system.lock = .free then
        { system with drain := if outcome then .inPass else .atLoop }
      else system
  | .leaving => { system with drain := .absent }

def step (system : System) : Step → System
  | .request request =>
      if system.code request.task = .done then system.go request.task request.code else system
  | .run task outcome => system.run task outcome
  | .drain outcome => system.drainStep outcome

end System

end Exclusion
end TriCoreDap
