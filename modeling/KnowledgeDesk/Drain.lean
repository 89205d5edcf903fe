import KnowledgeDesk.Accounts
import KnowledgeDesk.Pipeline

/-!
# One drain, from its start to its return

`worker.drain` over the ingestion pipeline, step by step, when nobody else writes: a step is one
transaction, or what happens between two of them. Whatever the outside contributes to a step is its tick:
the clock, the embedder's answer, an exception in the `try` block, a kick that has set `_wake`.
-/

namespace KnowledgeDesk

/-- Where `drain` stands. -/
inductive DrainAt where
  /-- Before `purge_expired_sessions`. -/
  | purging
  /-- Before `_wake.clear()`. -/
  | clearing
  /-- In `run_pending`, with so many rounds of its loop to go. -/
  | running (left : Nat)
  /-- Before `seconds_until_due`. -/
  | checking
  /-- In `_wake.wait`. -/
  | waiting (deadline : Time)
  | returned
  deriving DecidableEq

/-- What the outside contributes to a step. -/
structure Tick where
  now : Time
  embedDocuments : List String → Except Err (List Embedding)
  /-- The exception that is raised instead of the step, where `run_pending` would catch it. -/
  error : Option Err
  /-- `_wake` is set. -/
  woken : Bool

/-- The pipeline, and where the drain stands. It executes its jobs as the pipeline's worker `me`. -/
structure Drain where
  pipeline : Pipeline
  pc : DrainAt

namespace Drain

variable (env : Env) (me : Nat) (once : Bool)

/-- The next step of `run_pending` with a job. -/
def jobStep (t : Tick) : Phase → Option Pipeline.Label
  | .idle => none
  | .claimed _ => some (.read me)
  | .loaded .. => some (.embed me t.embedDocuments)
  | .embedded .. => some (.write me t.now)
  | .handled .. => some (.succeed me t.now)
  | .raised .. => some (.fail me t.now)
  | .dead .. => some (.failDocument me t.now)

/-- The phase is in the `try` block. -/
def inTry : Phase → Bool
  | .claimed _ | .loaded .. | .embedded .. | .handled .. => true
  | .idle | .raised .. | .dead .. => false

/-- `run_pending` is over. -/
def drained (s : Drain) : Drain := { s with pc := if once then .returned else .checking }

/-- The next round of the loop of `run_pending`. -/
def nextJob (s : Drain) (t : Tick) : Nat → Drain
  | 0 => s.drained once
  | left + 1 =>
    let claimed := Pipeline.step env s.pipeline (.claim me Pipeline.unlocked t.now)
    if claimed.workers me = .idle then s.drained once else ⟨claimed, .running left⟩

/-- A step of `run_pending`. -/
def runPendingStep (s : Drain) (t : Tick) (left : Nat) : Drain :=
  match jobStep me t (s.pipeline.workers me) with
  | none => s.nextJob env me once t left
  | some l =>
    let label := match t.error with
      | some e => if inTry (s.pipeline.workers me) then .interrupt me e else l
      | none => l
    { s with pipeline := Pipeline.step env s.pipeline label }

/-- One step of the drain. -/
def step (s : Drain) (t : Tick) : Drain :=
  match s.pc with
  | .purging =>
    ⟨s.pipeline.commit fun db => (purgeExpiredSessions t.now db).map fun r => ((), r.2), .clearing⟩
  | .clearing => { s with pc := .running 1000 }
  | .running left => s.runPendingStep env me once t left
  | .checking => match secondsUntilDue env t.now s.pipeline.db with
    | none => { s with pc := .returned }
    | some wait => { s with pc := .waiting (t.now + wait) }
  | .waiting deadline => if t.woken = true ∨ deadline ≤ t.now then { s with pc := .clearing } else s
  | .returned => s

/-- A drain that has been called. -/
def start (pipeline : Pipeline) : Drain := ⟨pipeline, .purging⟩

end Drain

end KnowledgeDesk
