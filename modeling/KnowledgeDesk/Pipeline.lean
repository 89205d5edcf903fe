import KnowledgeDesk.Lib.Runs
import KnowledgeDesk.Tenancy
import Mathlib.Logic.Function.Basic

/-!
# The ingestion pipeline as a machine

Uploads, workers and administrators act on the documents at once, each in transactions of its own. The
state is the database, what every worker holds between two transactions of the job it executes, and the
jobs every upload has yet to enqueue. A label is the commit of one transaction, or what happens to an
actor between two of them; a label its actor cannot take leaves the state as it is. Any list of labels
is a run, so a statement about all runs is about every interleaving.
-/

namespace KnowledgeDesk

/-- Where a worker is in `run_pending`. `seen` is the row its read transaction returned. -/
inductive Phase where
  /-- Between two jobs. -/
  | idle
  /-- `claim_one` has returned the job. -/
  | claimed (job : Job)
  /-- The read transaction has returned a document that is not deleted. -/
  | loaded (job : Job) (doc : Document)
  /-- The document is chunked and embedded: `rows` are to be written. -/
  | embedded (job : Job) (doc : Document) (rows : List Chunk)
  /-- The handler has returned. -/
  | handled (job : Job) (seen : Option Document)
  /-- In the `except` clause. -/
  | raised (job : Job) (seen : Option Document) (error : Err)
  /-- `mark_failed` has returned 'dead' for an ingest job. -/
  | dead (job : Job) (seen : Option Document)
  deriving DecidableEq

namespace Phase

/-- The job a worker executes. -/
def job? : Phase → Option Job
  | idle => none
  | claimed job | loaded job _ | embedded job _ _ | handled job _ | raised job _ _ | dead job _ => some job

/-- The document a worker has read for its job. -/
def seen : Phase → Option Document
  | idle | claimed _ => none
  | loaded _ doc | embedded _ doc _ => some doc
  | handled _ seen | raised _ seen _ | dead _ seen => seen

end Phase

/-- `job["payload"]["document_id"]`. -/
def Job.documentId (j : Job) : Option Uuid := j.payload.lookup "document_id"

/-- The database, the workers, and the uploads between their document transaction and their last
`jobs.enqueue`. Ids are drawn from a counter. -/
structure Pipeline where
  db : Db
  nextId : Uuid
  workers : Nat → Phase
  requests : Nat → List PendingJob

namespace Pipeline

/-- What can happen. -/
inductive Label where
  /-- The document transaction of a `sync_documents` call. -/
  | sync (request : Nat) (precheck : Db → Except Err Unit) (orgId : Uuid) (source : String)
      (items : List Item) (now : Time)
  /-- The next `jobs.enqueue` of the call. -/
  | enqueue (request : Nat) (now : Time)
  /-- The process of the call dies. -/
  | abandon (request : Nat)
  /-- `claim_one`, past the job rows other transactions have `locked`. -/
  | claim (worker : Nat) (locked : Uuid → Bool) (now : Time)
  /-- The handler starts: its read transaction. -/
  | read (worker : Nat)
  /-- The handler chunks and embeds. -/
  | embed (worker : Nat) (embedDocuments : List String → Except Err (List Embedding))
  /-- The write transaction of the handler. -/
  | write (worker : Nat) (now : Time)
  /-- `mark_succeeded`. -/
  | succeed (worker : Nat) (now : Time)
  /-- An exception where the worker is in its `try` block. -/
  | interrupt (worker : Nat) (error : Err)
  /-- `mark_failed`, with the text of the error, where `run_pending` passes its `repr`. -/
  | fail (worker : Nat) (now : Time)
  /-- `_mark_document_failed`. -/
  | failDocument (worker : Nat) (now : Time)
  /-- The worker's process dies, and another takes its place. -/
  | crash (worker : Nat)
  /-- The transaction of `update_document_acl`. -/
  | updateAcl (ctx : AuthContext) (documentId : Uuid) (acl : List String) (now : Time)
  /-- The transaction of `delete_document`. -/
  | deleteDocument (ctx : AuthContext) (documentId : Uuid)

variable (env : Env)

/-- The worker goes on to a phase. -/
def goto (s : Pipeline) (worker : Nat) (phase : Phase) : Pipeline :=
  { s with workers := Function.update s.workers worker phase }

/-- A transaction that returns nothing: the state after its commit, or after its abort. -/
def commit (s : Pipeline) (tx : Tx Db Err Unit) : Pipeline :=
  match tx s.db with
  | .ok ((), db) => { s with db }
  | .error _ => s

/-- The handler up to the end of its read transaction. -/
def startHandler (job : Job) (db : Db) : Phase :=
  if job.kind = "ingest_document" then
    match job.documentId with
    | none => .raised job none (.valueError "'document_id'")
    | some documentId => match readDocument job.orgId documentId db with
      | none => .handled job none
      | some doc => if doc.status = .deleted then .handled job (some doc) else .loaded job doc
  else .raised job none (.valueError s!"no handler for job kind: {job.kind}")

/-- An exception in the `try` block; outside it nothing changes. -/
def interrupted (error : Err) : Phase → Phase
  | .claimed job => .raised job none error
  | .loaded job doc | .embedded job doc _ => .raised job (some doc) error
  | .handled job seen => .raised job seen error
  | phase => phase

/-- One step of the machine. -/
def step (s : Pipeline) : Label → Pipeline
  | .sync request precheck orgId source items now =>
    if s.requests request = [] then
      match syncTx env precheck orgId source items s.nextId now s.db with
      | .ok ((_, toEnqueue), db) =>
        { s with
          db, nextId := s.nextId + items.length
          requests := Function.update s.requests request toEnqueue }
      | .error _ => s
    else s
  | .enqueue request now =>
    match s.requests request with
    | [] => s
    | job :: rest => match enqueuePending env job s.nextId now s.db with
      | .ok (_, db) =>
        { s with
          db, nextId := s.nextId + 1
          requests := Function.update s.requests request rest }
      | .error _ => s
  | .abandon request => { s with requests := Function.update s.requests request [] }
  | .claim worker locked now =>
    match s.workers worker with
    | .idle => match claimOne env locked now s.db with
      | .ok (some job, db) => { s with db }.goto worker (.claimed job)
      | _ => s
    | _ => s
  | .read worker =>
    match s.workers worker with
    | .claimed job => s.goto worker (startHandler job s.db)
    | _ => s
  | .embed worker embedDocuments =>
    match s.workers worker with
    | .loaded job doc => match embedDocument env embedDocuments job.orgId doc with
      | .ok rows => s.goto worker (.embedded job doc rows)
      | .error e => s.goto worker (.raised job (some doc) e)
    | _ => s
  | .write worker now =>
    match s.workers worker with
    | .embedded job doc rows => match writeDocument job.orgId doc.id rows now s.db with
      | .ok ((), db) => { s with db }.goto worker (.handled job (some doc))
      | .error e => s.goto worker (.raised job (some doc) e)
    | _ => s
  | .succeed worker now =>
    match s.workers worker with
    | .handled job _ => (s.commit (markSucceeded job.id now)).goto worker .idle
    | _ => s
  | .interrupt worker error => s.goto worker (interrupted error (s.workers worker))
  | .fail worker now =>
    match s.workers worker with
    | .raised job seen error => match markFailed job.id error.text none now s.db with
      | .ok (outcome, db) =>
        if outcome = .dead ∧ job.kind = "ingest_document" then { s with db }.goto worker (.dead job seen)
        else { s with db }.goto worker .idle
      | .error _ => s
    | _ => s
  | .failDocument worker now =>
    match s.workers worker with
    | .dead job _ => match job.documentId with
      | none => s.goto worker .idle
      | some documentId =>
        (s.commit (markDocumentFailed job.orgId documentId now)).goto worker .idle
    | _ => s
  | .crash worker => s.goto worker .idle
  | .updateAcl ctx documentId acl now => s.commit (updateDocumentAclTx ctx documentId acl now)
  | .deleteDocument ctx documentId => s.commit (deleteDocumentTx ctx documentId)

/-- A pipeline at rest on a database: no worker is in a job and no upload is under way. -/
def atRest (db : Db) (nextId : Uuid) : Pipeline := ⟨db, nextId, fun _ => .idle, fun _ => []⟩

/-- A state some run leads to from a database without documents, chunks and jobs. -/
def Reachable (s : Pipeline) : Prop :=
  ∃ (db : Db) (nextId : Uuid) (ls : List Label),
    db.documents = [] ∧ db.chunks = [] ∧ db.jobs = [] ∧ s = Runs.run (step env) (atRest db nextId) ls

/-! ## Concrete runs -/

/-- The digests of the texts the concrete runs upload. -/
def digest : String → String
  | "alpha" => "8ed3f6ad685b959ead7022518e1af76cd816f8e8ec7ccdda1ed4018e8f2223f8"
  | "beta" => "f44e64e75f3948e9f73f8dfa94721c4ce8cbb4f265c4790c702b2d41cfbf2753"
  | _ => "e3b0c44298fc1c149afbf4c8996fb92427ae41e4649b934ca495991b7852b855"

/-- One org with an owner, and nothing uploaded. -/
def oneOrg : Pipeline :=
  atRest {
    orgs := [⟨1, "acme", "Acme"⟩], users := [⟨2, "ada@acme.test", "ada-password"⟩]
    memberships := [⟨2, 1, .owner, 0⟩] } 10

/-- An upload of the org's source "upload", without caps. -/
def upload (request : Nat) (items : List Item) (now : Time) : Label :=
  .sync request (fun _ => .ok ()) 1 "upload" items now

/-- No job row is locked. -/
def unlocked : Uuid → Bool := fun _ => false

/-- An embedder with one vector. -/
def oneVector : List String → Except Err (List Embedding) := fun texts => .ok (texts.map fun _ => [1])

/-- A worker's steps up to its write: claim the oldest due job, read its document, embed it. -/
def prepare (worker : Nat) (now : Time) : List Label :=
  [.claim worker unlocked now, .read worker, .embed worker oneVector]

/-- A worker's steps for a job that goes well. -/
def process (worker : Nat) (now : Time) : List Label :=
  prepare worker now ++ [.write worker now, .succeed worker now]

/-- A worker has read and embedded the uploaded document, and has not written it yet. -/
def embeddedInFlight : Pipeline :=
  Runs.run (step (asciiEnv digest)) oneOrg
    ([upload 0 [⟨"a.txt", "alpha", none⟩] (seconds 1), .enqueue 0 (seconds 2)] ++ prepare 0 (seconds 3))

/-- The row of that document. -/
def inFlight : Document where
  id := 10
  orgId := 1
  source := "upload"
  path := "a.txt"
  content := "alpha"
  contentHash := digest "alpha"
  acl := DEFAULT_ACL
  piiTypes := []
  status := .pending
  revision := 0
  updatedAt := seconds 1

theorem reachable_embeddedInFlight : Reachable (asciiEnv digest) embeddedInFlight :=
  ⟨_, _, _, rfl, rfl, rfl, rfl⟩

end Pipeline

end KnowledgeDesk
