import KnowledgeDesk.Lib.ReadCommitted
import KnowledgeDesk.Pipeline

/-!
# Uploads, statement by statement

The document transaction of `sync_source` with its statements told apart, for runs in which workers,
administrators and other uploads commit between two of them. The store of the sessions is the pipeline,
whose own transactions take one step each: where one of them would touch a row an upload has locked, it
waits.
-/

namespace KnowledgeDesk

open Table ReadCommitted

variable (env : Env)

/-- What an upload locks: the row of the org, and a document's row with its entry of the unique index. -/
inductive UploadLock where
  | org (orgId : Uuid)
  | document (key : Uuid × String × String)
  deriving DecidableEq

abbrev UploadProg := Prog Pipeline UploadLock Err SyncResult

/-- A call of `sync_source`. The `i`-th item's row, if it is new, gets the id `fresh + i`; the jobs the
call has to enqueue after its commit are those of `request`. -/
structure SyncCall where
  ctx : AuthContext
  source : String
  items : List Item
  fresh : Uuid
  now : Time
  request : Nat

/-- A write to the database. -/
def Pipeline.onDb (f : Db → Db) (s : Pipeline) : Pipeline := { s with db := f s.db }

/-- What the upsert of a row does, by whether it found a row of its key. -/
def upsertWrite (row : Document) (view db : Db) : Db :=
  if view.documents.any fun d => d.key == row.key then
    { db with documents := updateWhere (fun d => d.key == row.key) row.uploadOver db.documents }
  else { db with documents := db.documents ++ [row] }

/-- `insert into documents ... on conflict ... returning id, revision`. -/
def upsertStmt (row : Document) (k : Uuid × Nat → UploadProg) : UploadProg :=
  .write (fun _ => [.document row.key]) (fun view => Pipeline.onDb (upsertWrite row view.db))
    fun view => match upsertDocument row view.db with
      | .ok (returned, _) => k returned
      | .error e => .abort e

/-- The loop over the items, against the snapshot `existing`. -/
def uploadItems (orgId : Uuid) (source : String) (existing : List Document) (now : Time) :
    List (Item × Uuid) → Nat → List PendingJob → (Nat → List PendingJob → UploadProg) → UploadProg
  | [], unchanged, toEnqueue, k => k unchanged toEnqueue
  | item :: items, unchanged, toEnqueue, k =>
    if isUnchanged env existing item.1 then
      uploadItems orgId source existing now items (unchanged + 1) toEnqueue k
    else
      let row := item.1.row env orgId source now item.2
      upsertStmt row fun (id, revision) =>
        uploadItems orgId source existing now items unchanged
          (toEnqueue ++ [⟨orgId, id, ingestKey id row.contentHash revision⟩]) k

/-- The keys of the rows with an id. -/
def documentLocks (orgId documentId : Uuid) (db : Db) : List UploadLock :=
  (db.documents.filter (rls orgId Document.orgId fun d => d.id == documentId)).map fun d => .document d.key

/-- The deletion loop. -/
def buryDocuments (orgId : Uuid) (now : Time) : List Document → UploadProg → UploadProg
  | [], k => k
  | row :: rows, k =>
    .write (fun view => documentLocks orgId row.id view.db)
      (fun _ => Pipeline.onDb fun db => tombstone orgId now db row)
      fun _ => buryDocuments orgId now rows k

/-- The commit leaves the call with its jobs still to enqueue. -/
def handOver (request : Nat) (toEnqueue : List PendingJob) (result : SyncResult) : UploadProg :=
  .write (fun _ => [])
    (fun _ s => { s with
      requests := Function.update s.requests request (s.requests request ++ toEnqueue) })
    fun _ => .done result

/-- The transaction of `sync_documents` after its `precheck`. -/
def syncDocumentsProg (call : SyncCall) : UploadProg :=
  .select fun view =>
    let existing := sourceDocuments call.ctx.orgId call.source view.db
    uploadItems env call.ctx.orgId call.source existing call.now (call.items.zipIdx call.fresh) 0 []
      fun unchanged toEnqueue =>
        let gone := missing existing call.items
        buryDocuments call.ctx.orgId call.now gone
          (handOver call.request toEnqueue ⟨toEnqueue.length, unchanged, gone.length⟩)

/-- `sync_source`: `select ... for update` on the org's row, then the measuring query of `check_caps`,
then the documents. -/
def syncSourceProg (call : SyncCall) : UploadProg :=
  match requireRole call.ctx .admin with
  | .error e => .abort e
  | .ok () =>
    .write (fun view => if view.db.hasOrg call.ctx.orgId then [.org call.ctx.orgId] else [])
      (fun _ => id)
      fun _ => .select fun view =>
        match checkCaps env call.ctx.orgId call.items view.db with
        | .error e => .abort e
        | .ok () => syncDocumentsProg env call

/-- Uploads under way over the pipeline. -/
abbrev UploadSystem := State Pipeline UploadLock Err SyncResult SyncCall

namespace UploadSystem

/-- A step of an upload's session, or of the pipeline. -/
inductive Label where
  | sync (l : ReadCommitted.Label SyncCall)
  | pipeline (l : Pipeline.Label)

/-- The document row a transaction of the pipeline writes, by org and id. -/
def target (s : Pipeline) : Pipeline.Label → Option (Uuid × Uuid)
  | .write worker _ => match s.workers worker with
    | .embedded job doc _ => some (job.orgId, doc.id)
    | _ => none
  | .failDocument worker _ => match s.workers worker with
    | .dead job _ => job.documentId.map fun documentId => (job.orgId, documentId)
    | _ => none
  | .updateAcl ctx documentId _ _ | .deleteDocument ctx documentId => some (ctx.orgId, documentId)
  | _ => none

/-- The org whose row the foreign keys of a transaction's inserts lock for `key share`. -/
def referenced (s : Pipeline) : Pipeline.Label → Option Uuid
  | .enqueue request _ => match s.requests request with
    | [] => none
    | job :: _ =>
      if s.db.jobs.any fun j => j.idempotencyKey == job.idempotencyKey then none else some job.orgId
  | .write worker _ => match s.workers worker with
    | .embedded job _ rows => if rows.isEmpty then none else some job.orgId
    | _ => none
  | _ => none

/-- The rows a transaction of the pipeline needs. -/
def needs (s : Pipeline) (l : Pipeline.Label) : List UploadLock :=
  ((target s l).elim [] fun t => documentLocks t.1 t.2 s.db) ++ (referenced s l).elim [] fun org => [.org org]

/-- The transaction waits for an upload that has one of them locked. -/
def waits (s : UploadSystem) (l : Pipeline.Label) : Bool :=
  (needs s.store l).any fun row => s.locked.any fun lock => lock.1 == row

/-- One step. The document transactions of uploads are those of the sessions. -/
def step (s : UploadSystem) : Label → UploadSystem
  | .sync l => ReadCommitted.step (fun call _ => syncSourceProg env call) s l
  | .pipeline (.sync ..) => s
  | .pipeline l => if waits s l then s else { s with store := Pipeline.step env s.store l }

/-- No upload under way, over a pipeline at rest. -/
def atRest (db : Db) (nextId : Uuid) : UploadSystem := ReadCommitted.atRest (Pipeline.atRest db nextId) 0

/-- The transaction sets the status of the document a worker has a job for. -/
def setsStatus : Pipeline.Label → Bool
  | .write .. | .failDocument .. => true
  | _ => false

/-- A worker sets the status of a document of the org whose row is a tombstone by now. -/
def Revives (org : Uuid) (s : UploadSystem) : Label → Prop
  | .sync _ => False
  | .pipeline l => setsStatus l = true ∧ waits s l = false ∧
      ∃ d ∈ s.store.db.documents, target s.store l = some (org, d.id) ∧ d.orgId = org ∧ d.status = .deleted

instance (org : Uuid) (s : UploadSystem) : ∀ l, Decidable (Revives org s l)
  | .sync _ => inferInstanceAs (Decidable False)
  | .pipeline l => inferInstanceAs (Decidable (setsStatus l = true ∧ waits s l = false ∧
      ∃ d ∈ s.store.db.documents, target s.store l = some (org, d.id) ∧ d.orgId = org ∧ d.status = .deleted))

end UploadSystem

end KnowledgeDesk
