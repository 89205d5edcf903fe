import KnowledgeDesk.Accounts
import KnowledgeDesk.Jobs
import KnowledgeDesk.Lib.Runs
import Mathlib.Logic.Function.Basic

/-!
# The in-process drain, step by step

`worker.py`: the drain threads of one process and the requests that call `kick`. A `with _lock:` block is
entered when nobody holds the lock, and whoever is in it takes its steps one by one; `Event.wait` returns
when the event is set or the time is over. Any transaction of anybody may commit between two steps:
those of `run_pending`, an enqueue, another process.
-/

namespace KnowledgeDesk

/-- Where a drain thread stands in `_run`. -/
inductive DrainPc where
  /-- Before `purge_expired_sessions`. -/
  | purging
  /-- Before `_wake.clear()`. -/
  | clearing
  /-- In `run_pending`. -/
  | running
  /-- Before the lock of the emptiness check. -/
  | checking
  /-- In the check, with the lock. -/
  | querying
  /-- In `_wake.wait`, until then at most. -/
  | waiting (deadline : Time)
  /-- `drain` has raised, and the handler has not taken the lock yet. -/
  | raised
  /-- Returned from the check. -/
  | stopped
  /-- Returned from the handler. -/
  | dead
  deriving DecidableEq

/-- The thread has neither raised nor left the loop. -/
def DrainPc.live : DrainPc → Bool
  | .raised | .stopped | .dead => false
  | _ => true

/-- Where a request stands in `kick`. -/
inductive KickPc where
  /-- Before the lock. -/
  | entering
  /-- With the lock, `_wake` set. -/
  | holding
  /-- With the lock, a drain started if there was none. -/
  | leaving
  deriving DecidableEq

/-- Who holds `_lock`. -/
inductive LockHolder where
  | kick (request : Nat)
  | drain (thread : Nat)
  deriving DecidableEq

/-- The database, the globals of `worker.py`, its drain threads, how many there have been, and the
requests in `kick`. -/
structure Worker where
  db : Db
  wake : Bool
  lock : Option LockHolder
  thread : Option Nat
  drains : Nat → Option DrainPc
  started : Nat
  kicks : Nat → Option KickPc

namespace Worker

/-- What can happen. -/
inductive Label where
  /-- A transaction commits, somebody's. -/
  | transact (db : Db)
  /-- A request calls `kick`. -/
  | kick (request : Nat)
  /-- A request in `kick` takes its next step. -/
  | advance (request : Nat)
  /-- A drain thread takes its next step. -/
  | drain (thread : Nat) (now : Time)
  /-- A drain thread raises, wherever it stands. -/
  | fail (thread : Nat)

variable (env : Env) (drainInProcess : Bool)

/-- A drain thread stands there now. -/
def moveDrain (s : Worker) (n : Nat) (pc : DrainPc) : Worker :=
  { s with drains := Function.update s.drains n (some pc) }

/-- A request stands there now, or has returned. -/
def moveKick (s : Worker) (i : Nat) (pc : Option KickPc) : Worker :=
  { s with kicks := Function.update s.kicks i pc }

/-- The next step of a request in `kick`. -/
def advanceKick (s : Worker) (i : Nat) : KickPc → Worker
  | .entering =>
    if !drainInProcess then s.moveKick i none
    else if s.lock = none then
      { s with
        lock := some (.kick i)
        wake := true }.moveKick i (some .holding)
    else s
  | .holding =>
    if s.thread = none then
      { s with
        thread := some s.started
        started := s.started + 1 }.moveDrain s.started .purging |>.moveKick i (some .leaving)
    else s.moveKick i (some .leaving)
  | .leaving => { s with lock := none }.moveKick i none

/-- The next step of a drain thread. -/
def advanceDrain (s : Worker) (n : Nat) (now : Time) : DrainPc → Worker
  | .purging => match purgeExpiredSessions now s.db with
    | .ok (_, db) => { s with db }.moveDrain n .clearing
    | .error _ => s.moveDrain n .raised
  | .clearing => { s with wake := false }.moveDrain n .running
  | .running => s.moveDrain n .checking
  | .checking =>
    if s.lock = none then { s with lock := some (.drain n) }.moveDrain n .querying else s
  | .querying => match secondsUntilDue env now s.db with
    | none =>
      { s with
        lock := none
        thread := if s.thread = some n then none else s.thread }.moveDrain n .stopped
    | some wait => { s with lock := none }.moveDrain n (.waiting (now + wait))
  | .waiting deadline => if s.wake = true ∨ deadline ≤ now then s.moveDrain n .clearing else s
  | .raised => if s.lock = none then { s with thread := none }.moveDrain n .dead else s
  | .stopped | .dead => s

/-- The exception leaves `drain`, and the lock if it was held. -/
def raiseDrain (s : Worker) (n : Nat) (pc : DrainPc) : Worker :=
  if pc.live = true then
    { s with lock := if pc = DrainPc.querying then none else s.lock }.moveDrain n .raised
  else s

/-- One step. -/
def step (s : Worker) : Label → Worker
  | .transact db => { s with db }
  | .kick i => match s.kicks i with
    | none => s.moveKick i (some .entering)
    | some _ => s
  | .advance i => match s.kicks i with
    | some pc => advanceKick drainInProcess s i pc
    | none => s
  | .drain n now => match s.drains n with
    | some pc => advanceDrain env s n now pc
    | none => s
  | .fail n => match s.drains n with
    | some pc => raiseDrain s n pc
    | none => s

/-- A process that has just been started. -/
def start (db : Db) : Worker := ⟨db, false, none, none, fun _ => none, 0, fun _ => none⟩

/-- The step is the return of a `kick`. -/
def Returns (s : Worker) : Label → Prop
  | .advance i => s.kicks i = some .leaving
  | _ => False

/-- There is a drain thread that has neither raised nor left its loop, and if it waits, it is being
woken. -/
def Attended (s : Worker) : Prop :=
  ∃ n pc, s.thread = some n ∧ s.drains n = some pc ∧ pc.live = true ∧
    ∀ deadline, pc = .waiting deadline → s.wake = true

/-- `_thread` is a drain that has raised and has not come round to clearing it. -/
def Failing (s : Worker) : Prop := ∃ n ∈ s.thread, s.drains n = some .raised

instance decidableFailing (s : Worker) : Decidable (Failing s) :=
  inferInstanceAs (Decidable (∃ n ∈ s.thread, s.drains n = some .raised))

end Worker

end KnowledgeDesk
