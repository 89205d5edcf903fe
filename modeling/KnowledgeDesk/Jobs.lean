import KnowledgeDesk.Config

/-!
# The job queue

`jobs.py`. Every function is one transaction. The table is not under row-level security: a worker
claims a job without knowing whose it is.
-/

namespace KnowledgeDesk

open Table

variable (env : Env)

/-- `enqueue`: insert a job unless its idempotency key is taken. `true` if a job was created. -/
def enqueue (orgId : Uuid) (kind : String) (payload : Payload) (idempotencyKey : String)
    (maxAttempts : Option Nat) (fresh : Uuid) (now : Time) : Tx Db Err Bool := fun db =>
  if db.jobs.any fun j => j.idempotencyKey == idempotencyKey then .ok (false, db)
  else do
    Db.references (db.hasOrg orgId)
    let job : Job := {
      id := fresh, orgId, kind, payload, idempotencyKey, status := .queued, attempts := 0
      maxAttempts := match maxAttempts with
        | none | some 0 => env.settings.jobMaxAttempts
        | some n => n
      lastError := none, runAfter := now, createdAt := now, updatedAt := now }
    .ok (true, { db with jobs := db.jobs ++ [job] })

/-- The `where` of `claim_one`: queued and due, or running since longer than the stale limit. -/
def isDue (now : Time) (j : Job) : Bool :=
  (j.status == .queued && j.runAfter ≤ now) ||
    (j.status == .running && j.updatedAt < now - seconds env.settings.jobStaleAfterSeconds)

/-- The claimed version of a job's row. -/
def Job.claim (now : Time) (j : Job) : Job :=
  { j with status := .running, attempts := j.attempts + 1, updatedAt := now }

/-- `claim_one`: claim the oldest due job, past those whose rows other transactions have `locked`. -/
def claimOne (locked : Uuid → Bool) (now : Time) : Tx Db Err (Option Job) := fun db =>
  let due := db.jobs.filter fun j => isDue env now j && !locked j.id
  match (orderBy (fun a b => decide (a.createdAt ≤ b.createdAt)) due).head? with
  | none => .ok (none, db)
  | some j =>
    .ok (some (j.claim now), { db with jobs := updateWhere (fun r => r.id == j.id) (·.claim now) db.jobs })

/-- `seconds_until_due`, in microseconds. -/
def secondsUntilDue (now : Time) (db : Db) : Option Time :=
  let due := db.jobs.filterMap fun j => match j.status with
    | .queued => some j.runAfter
    | .running => some (j.updatedAt + seconds env.settings.jobStaleAfterSeconds)
    | _ => none
  due.min?.map fun t => max 0 (t - now)

/-- The succeeded version of a job's row. -/
def Job.succeed (now : Time) (j : Job) : Job :=
  { j with status := .succeeded, lastError := none, updatedAt := now }

/-- `mark_succeeded`. -/
def markSucceeded (jobId : Uuid) (now : Time) : Tx Db Err Unit := fun db =>
  .ok ((), { db with
    jobs := updateWhere (fun j => j.id == jobId) (·.succeed now) db.jobs })

/-- `_backoff_seconds`. -/
def backoffSeconds (attempts : Nat) : Nat := min 300 (2 ^ attempts)

/-- The requeued version of a job's row. -/
def Job.requeue (error : String) (delay : Nat) (now : Time) (j : Job) : Job :=
  { j with status := .queued, lastError := some error, runAfter := now + seconds delay, updatedAt := now }

/-- The dead-lettered version of a job's row. -/
def Job.bury (error : String) (now : Time) (j : Job) : Job :=
  { j with status := .dead, lastError := some error, updatedAt := now }

/-- `mark_failed`: requeue with a delay if attempts remain, else dead-letter. The resulting status. -/
def markFailed (jobId : Uuid) (error : String) (backoff : Option Nat) (now : Time) :
    Tx Db Err JobStatus := fun db =>
  match db.job? jobId with
  | none => .ok (.dead, db)
  | some job =>
    if job.maxAttempts ≤ job.attempts then
      .ok (.dead, { db with jobs := updateWhere (fun j => j.id == jobId) (·.bury error now) db.jobs })
    else
      let delay := backoff.getD (backoffSeconds job.attempts)
      .ok (.queued, { db with
        jobs := updateWhere (fun j => j.id == jobId) (·.requeue error delay now) db.jobs })

end KnowledgeDesk
