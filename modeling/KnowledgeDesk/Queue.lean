import KnowledgeDesk.Jobs
import KnowledgeDesk.Lib.Runs
import Mathlib.Logic.Function.Basic

/-!
# The queue as a machine

`jobs.py` under any number of workers, whatever the jobs are about. A worker claims a job, and some time
later reports on it or dies; it may stall in between for as long as it likes, and its job may have been
handed to another worker meanwhile.
-/

namespace KnowledgeDesk

/-- The database, the job each worker has claimed and not reported on, and how often each job has been
handed out. -/
structure Queue where
  db : Db
  nextId : Uuid
  workers : Nat → Option Job
  handed : Uuid → Nat

namespace Queue

/-- What can happen. -/
inductive Label where
  | enqueue (orgId : Uuid) (kind : String) (payload : Payload) (idempotencyKey : String)
      (maxAttempts : Option Nat) (now : Time)
  /-- `claim_one`, past the job rows other transactions have `locked`. -/
  | claim (worker : Nat) (locked : Uuid → Bool) (now : Time)
  /-- `mark_succeeded` of the job the worker has claimed. -/
  | succeed (worker : Nat) (now : Time)
  /-- `mark_failed` of the job the worker has claimed: its select and its update, in one step. -/
  | fail (worker : Nat) (error : String) (backoff : Option Nat) (now : Time)
  /-- The worker dies, and another takes its place. -/
  | die (worker : Nat)

variable (env : Env)

/-- The worker holds this job from now on. -/
def hold (s : Queue) (worker : Nat) (job : Option Job) : Queue :=
  { s with workers := Function.update s.workers worker job }

/-- One step of the machine. -/
def step (s : Queue) : Label → Queue
  | .enqueue orgId kind payload idempotencyKey maxAttempts now =>
    match enqueue env orgId kind payload idempotencyKey maxAttempts s.nextId now s.db with
    | .ok (_, db) =>
      { s with
        db, nextId := s.nextId + 1 }
    | .error _ => s
  | .claim worker locked now =>
    match s.workers worker with
    | none => match claimOne env locked now s.db with
      | .ok (some job, db) =>
        { s with
          db, handed := Function.update s.handed job.id (s.handed job.id + 1) }.hold worker (some job)
      | _ => s
    | some _ => s
  | .succeed worker now =>
    match s.workers worker with
    | some job => match markSucceeded job.id now s.db with
      | .ok (_, db) => { s with db }.hold worker none
      | .error _ => s
    | none => s
  | .fail worker error backoff now =>
    match s.workers worker with
    | some job => match markFailed job.id error backoff now s.db with
      | .ok (_, db) => { s with db }.hold worker none
      | .error _ => s
    | none => s
  | .die worker => s.hold worker none

/-- The queue before its first job, on a database with no jobs. -/
def start (db : Db) (nextId : Uuid) : Queue := ⟨db, nextId, fun _ => none, fun _ => 0⟩

/-- A state some run leads to from a database with no jobs. -/
def Reachable (s : Queue) : Prop :=
  ∃ (db : Db) (nextId : Uuid) (ls : List Label),
    db.jobs = [] ∧ s = Runs.run (step env) (start db nextId) ls

end Queue

end KnowledgeDesk
