import KnowledgeDesk.Chunking
import KnowledgeDesk.Jobs
import KnowledgeDesk.Pii

/-!
# Ingestion

`ingest.py`. `sync_documents` reconciles the documents of one source with an upload in one transaction
(`syncTx`) and enqueues a job for each new or changed document afterwards, one transaction each.
`process_ingest_document` reads the document in one transaction (`readDocument`) and replaces its
chunks in another (`writeDocument`), with the chunking and the embedding in between.
-/

namespace KnowledgeDesk

open Table

variable (env : Env)

/-- `DEFAULT_ACL`. -/
def DEFAULT_ACL : List String := ["public-to-org"]

/-- An uploaded document; `acl` is `none` when the upload does not mention one. -/
structure Item where
  path : String
  content : String
  acl : Option (List String) := none
  deriving DecidableEq

/-- What `sync_documents` returns. -/
structure SyncResult where
  enqueued : Nat
  unchanged : Nat
  deleted : Nat
  deriving DecidableEq, Repr

/-- A job `sync_documents` still has to enqueue. -/
structure PendingJob where
  orgId : Uuid
  documentId : Uuid
  idempotencyKey : String
  deriving DecidableEq

/-- `f"ingest:{doc_id}:{content_hash}:{revision}"`. -/
def ingestKey (documentId : Uuid) (contentHash : String) (revision : Nat) : String :=
  s!"ingest:{documentId}:{contentHash}:{revision}"

/-- The row an item is uploaded as. -/
def Item.row (orgId : Uuid) (source : String) (now : Time) (fresh : Uuid) (item : Item) : Document where
  id := fresh
  orgId := orgId
  source := source
  path := item.path
  content := item.content
  contentHash := env.sha256 item.content
  acl := item.acl.getD DEFAULT_ACL
  piiTypes := Pii.detectTypes env item.content
  status := .pending
  revision := 0
  updatedAt := now

/-- The columns `unique (org_id, source, path)` is about. -/
def Document.key (d : Document) : Uuid × String × String := (d.orgId, d.source, d.path)

/-- `do update set content = excluded.content, ...`. -/
def Document.uploadOver (row d : Document) : Document :=
  { d with
    content := row.content, contentHash := row.contentHash, acl := row.acl, piiTypes := row.piiTypes
    status := .pending, updatedAt := row.updatedAt }

/-- `insert into documents ... on conflict (org_id, source, path) do update ... returning id, revision`. -/
def upsertDocument (row : Document) : Tx Db Err (Uuid × Nat) := fun db =>
  match db.documents.find? fun d => d.key == row.key with
  | some d => .ok ((d.id, d.revision), { db with
      documents := updateWhere (fun d => d.key == row.key) row.uploadOver db.documents })
  | none => do
    Db.references (db.hasOrg row.orgId)
    .ok ((row.id, row.revision), { db with documents := db.documents ++ [row] })

/-- What the loop over the items has done so far. -/
structure SyncAcc where
  db : Db
  unchanged : Nat
  toEnqueue : List PendingJob

/-- Whether an item finds its document unchanged and ingested: `prior is not None and ...`. -/
def isUnchanged (existing : List Document) (item : Item) : Bool :=
  match existing.find? fun d => d.path == item.path with
  | some prior => prior.contentHash == env.sha256 item.content && prior.status == .ingested
  | none => false

/-- One round of the loop over the items, against the snapshot `existing`. `fresh` is the id a new row
gets. -/
def syncItem (orgId : Uuid) (source : String) (existing : List Document) (now : Time)
    (acc : SyncAcc) (item : Item × Uuid) : Except Err SyncAcc :=
  if isUnchanged env existing item.1 then
    .ok { acc with unchanged := acc.unchanged + 1 }
  else
    let row := item.1.row env orgId source now item.2
    match upsertDocument row acc.db with
    | .error e => .error e
    | .ok ((id, revision), db) =>
      .ok { acc with
        db, toEnqueue := acc.toEnqueue ++ [⟨orgId, id, ingestKey id row.contentHash revision⟩] }

/-- The tombstone of a document's row. -/
def Document.bury (now : Time) (d : Document) : Document :=
  { d with status := .deleted, content := "", revision := d.revision + 1, updatedAt := now }

/-- One round of the deletion loop: tombstone the row, drop its chunks. -/
def tombstone (orgId : Uuid) (now : Time) (db : Db) (row : Document) : Db :=
  { db with
    documents := updateWhere (rls orgId Document.orgId fun d => d.id == row.id) (·.bury now) db.documents
    chunks := deleteWhere (rls orgId Chunk.orgId fun c => c.documentId == row.id) db.chunks }

/-- `select ... from documents where org_id = %s and source = %s`. -/
def sourceDocuments (orgId : Uuid) (source : String) (db : Db) : List Document :=
  db.documents.filter (rls orgId Document.orgId fun d => d.orgId == orgId && d.source == source)

/-- The rows of the snapshot the deletion loop tombstones: paths no item names, not deleted already. -/
def missing (existing : List Document) (items : List Item) : List Document :=
  existing.filter fun d => !(items.any fun i => i.path == d.path) && d.status != .deleted

/-- The document transaction of `sync_documents`: what it returns, and the jobs it still has to enqueue.
`precheck` measures and may raise, as the caps of `sync_source` do. The `i`-th item's row, if it is
new, gets the id `fresh + i`. -/
def syncTx (precheck : Db → Except Err Unit) (orgId : Uuid) (source : String) (items : List Item)
    (fresh : Uuid) (now : Time) : Tx Db Err (SyncResult × List PendingJob) := fun db => do
  precheck db
  let existing := sourceDocuments orgId source db
  let acc ← (items.zipIdx fresh).foldlM (syncItem env orgId source existing now) ⟨db, 0, []⟩
  let gone := missing existing items
  .ok ((⟨acc.toEnqueue.length, acc.unchanged, gone.length⟩, acc.toEnqueue),
    gone.foldl (tombstone orgId now) acc.db)

/-- `jobs.enqueue` of one changed document. -/
def enqueuePending (job : PendingJob) (fresh : Uuid) (now : Time) : Tx Db Err Bool :=
  enqueue env job.orgId "ingest_document" [("document_id", job.documentId)] job.idempotencyKey none
    fresh now

/-- `sync_documents`. The jobs get the ids after those of the rows. -/
def syncDocuments (precheck : Db → Except Err Unit) (orgId : Uuid) (source : String) (items : List Item)
    (fresh : Uuid) (now : Time) : Proc Db Err SyncResult := do
  let (result, toEnqueue) ← Proc.transact (syncTx env precheck orgId source items fresh now)
  Proc.forEach (toEnqueue.zipIdx (fresh + items.length)) fun job =>
    Proc.transact fun db => (enqueuePending env job.1 job.2 now db).map fun r => ((), r.2)
  return result

/-! ## The worker's side -/

/-- The read transaction of `process_ingest_document`. -/
def readDocument (orgId documentId : Uuid) (db : Db) : Option Document :=
  db.documents.find? (rls orgId Document.orgId fun d => d.id == documentId && d.orgId == orgId)

/-- `zip(texts, embeddings, strict=True)`, numbered: the rows to insert. -/
def chunkRows (orgId documentId : Uuid) (acl : List String) (texts : List String)
    (embeddings : List Embedding) : Except Err (List Chunk) :=
  if texts.length = embeddings.length then
    .ok ((texts.zip embeddings).zipIdx.map fun r =>
      { orgId, documentId, ordinal := r.2, text := r.1.1, embedding := r.1.2, acl })
  else .error (.valueError "zip() argument 2 is shorter or longer than argument 1")

/-- Between the two transactions of `process_ingest_document`: chunk, embed, and number the rows. The
embedder is not called for an empty list of texts. -/
def embedDocument (embedDocuments : List String → Except Err (List Embedding)) (orgId : Uuid)
    (doc : Document) : Except Err (List Chunk) := do
  let texts ← chunkText env doc.content
  let embeddings ← if texts.isEmpty then .ok [] else embedDocuments texts
  chunkRows orgId doc.id doc.acl texts embeddings

/-- `update documents set status = 'ingested'` of the write transaction. -/
def Document.ingest (now : Time) (d : Document) : Document :=
  { d with status := .ingested, updatedAt := now }

/-- The write transaction of `process_ingest_document`: replace the chunks, then the status. -/
def writeDocument (orgId documentId : Uuid) (rows : List Chunk) (now : Time) : Tx Db Err Unit :=
  fun db => do
    let kept := deleteWhere (rls orgId Chunk.orgId fun c => c.documentId == documentId) db.chunks
    Db.references (rows.isEmpty || db.hasDocument documentId)
    .ok ((), { db with
      chunks := kept ++ rows
      documents := updateWhere (rls orgId Document.orgId fun d => d.id == documentId) (·.ingest now)
        db.documents })

/-- `process_ingest_document`. -/
def processIngestDocument (embedDocuments : List String → Except Err (List Embedding)) (orgId : Uuid)
    (payload : Payload) (now : Time) : Proc Db Err Unit :=
  match payload.lookup "document_id" with
  | none => Proc.raise (.valueError "'document_id'")
  | some documentId => do
    let doc ← Proc.read (readDocument orgId documentId)
    match doc with
    | none => return ()
    | some doc =>
      if doc.status = .deleted then return ()
      match embedDocument env embedDocuments orgId doc with
      | .error e => Proc.raise e
      | .ok rows => Proc.transact (writeDocument orgId documentId rows now)

/-- The failed version of a document's row. -/
def Document.fail (now : Time) (d : Document) : Document :=
  { d with status := .failed, updatedAt := now }

/-- `_mark_document_failed`. -/
def markDocumentFailed (orgId documentId : Uuid) (now : Time) : Tx Db Err Unit := fun db =>
  .ok ((), { db with
    documents := updateWhere (rls orgId Document.orgId fun d => d.id == documentId && d.orgId == orgId)
      (·.fail now) db.documents })

/-- What `run_pending` counts. -/
structure DrainCounts where
  processed : Nat := 0
  succeeded : Nat := 0
  requeued : Nat := 0
  dead : Nat := 0
  deriving DecidableEq, Repr

/-- The handler `DISPATCH` has for the job's kind, applied to the job. -/
def runHandler (embedDocuments : List String → Except Err (List Embedding)) (job : Job) (now : Time) :
    Proc Db Err Unit :=
  if job.kind = "ingest_document" then
    processIngestDocument env embedDocuments job.orgId job.payload now
  else Proc.raise (.valueError s!"no handler for job kind: {job.kind}")

/-- The `except` clause of `run_pending`. -/
def handleFailure (job : Job) (e : Err) (now : Time) : Proc Db Err JobStatus := do
  let outcome ← Proc.transact (markFailed job.id e.text none now)
  if outcome = .dead ∧ job.kind = "ingest_document" then
    match job.payload.lookup "document_id" with
    | none => Proc.raise (.valueError "'document_id'")
    | some documentId => Proc.transact (markDocumentFailed job.orgId documentId now)
  return outcome

/-- `run_pending`, of at most `maxJobs` jobs. -/
def runPending (embedDocuments : List String → Except Err (List Embedding)) (now : Time) :
    Nat → DrainCounts → Proc Db Err DrainCounts
  | 0, counts => return counts
  | maxJobs + 1, counts => do
    let job ← Proc.transact (claimOne env (fun _ => false) now)
    match job with
    | none => return counts
    | some job =>
      let outcome ← Proc.tryExcept
        (do
          runHandler env embedDocuments job now
          Proc.transact (markSucceeded job.id now)
          return JobStatus.succeeded)
        fun e => some (handleFailure job e now)
      let counts := { counts with processed := counts.processed + 1 }
      runPending embedDocuments now maxJobs (match outcome with
        | .succeeded => { counts with succeeded := counts.succeeded + 1 }
        | .dead => { counts with dead := counts.dead + 1 }
        | _ => { counts with requeued := counts.requeued + 1 })

end KnowledgeDesk
