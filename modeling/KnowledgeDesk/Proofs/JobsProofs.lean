import KnowledgeDesk.Ingest

/-!
# The queue and the worker's transactions: what each one does

One lemma for each transaction: the outcomes it has, and the database after each.
-/

open Table

namespace KnowledgeDesk.Proofs

variable {env : Env}

/-- `enqueue` finds the key taken, or appends a queued job. -/
theorem enqueuePending_cases {p : PendingJob} {n : Uuid} {now : Time} {db db' : Db} {created : Bool}
    (h : enqueuePending env p n now db = .ok (created, db')) :
    ((∃ j ∈ db.jobs, j.idempotencyKey = p.idempotencyKey) ∧ db' = db) ∨
    ((∀ j ∈ db.jobs, j.idempotencyKey ≠ p.idempotencyKey) ∧
      ∃ j : Job, j.id = n ∧ j.orgId = p.orgId ∧ j.kind = "ingest_document" ∧
        j.payload = [("document_id", p.documentId)] ∧ j.status = .queued ∧
        j.idempotencyKey = p.idempotencyKey ∧ db' = { db with jobs := db.jobs ++ [j] }) := by
  simp only [enqueuePending, enqueue] at h
  split at h
  · rename_i htaken
    obtain ⟨-, rfl⟩ := Prod.mk.inj (Except.ok.inj h)
    exact .inl ⟨by simpa using htaken, rfl⟩
  · rename_i hfree
    simp only [Db.references] at h
    split at h
    · simp only [bind, Except.bind, Except.ok.injEq, Prod.mk.injEq] at h
      exact .inr ⟨by simpa using hfree, _, rfl, rfl, rfl, rfl, rfl, rfl, h.2.symm⟩
    · cases h

/-- A claim that returns a job: a due one, updated in place. -/
theorem claimOne_some {locked : Uuid → Bool} {now : Time} {db db' : Db} {job : Job}
    (h : claimOne env locked now db = .ok (some job, db')) :
    ∃ j ∈ db.jobs, isDue env now j = true ∧ job = j.claim now ∧ db' = { db with
      jobs := updateWhere (fun r => r.id == j.id) (·.claim now) db.jobs } := by
  simp only [claimOne] at h
  split at h
  · cases h
  · rename_i j hj
    simp only [Except.ok.injEq, Prod.mk.injEq, Option.some.injEq] at h
    have hmem := List.mem_of_mem_head? hj
    simp only [mem_orderBy, List.mem_filter, Bool.and_eq_true] at hmem
    exact ⟨j, hmem.1, hmem.2.1, h.1.symm, h.2.symm⟩

/-- `mark_failed` finds no job, dead-letters it, or requeues it. -/
theorem markFailed_cases {jobId : Uuid} {error : String} {backoff : Option Nat} {now : Time}
    {db db' : Db} {outcome : JobStatus}
    (h : markFailed jobId error backoff now db = .ok (outcome, db')) :
    (db.job? jobId = none ∧ outcome = .dead ∧ db' = db) ∨
    (∃ j, db.job? jobId = some j ∧ j.maxAttempts ≤ j.attempts ∧ outcome = .dead ∧
      db' = { db with jobs := updateWhere (fun j => j.id == jobId) (·.bury error now) db.jobs }) ∨
    ∃ j delay, db.job? jobId = some j ∧ j.attempts < j.maxAttempts ∧ outcome = .queued ∧
      db' = { db with
        jobs := updateWhere (fun j => j.id == jobId) (·.requeue error delay now) db.jobs } := by
  simp only [markFailed] at h
  split at h
  · rename_i hnone
    simp only [Except.ok.injEq, Prod.mk.injEq] at h
    exact .inl ⟨hnone, h.1.symm, h.2.symm⟩
  · rename_i j hj
    split at h
    · rename_i hmax
      simp only [Except.ok.injEq, Prod.mk.injEq] at h
      exact .inr (.inl ⟨j, hj, hmax, h.1.symm, h.2.symm⟩)
    · rename_i hmax
      simp only [Except.ok.injEq, Prod.mk.injEq] at h
      exact .inr (.inr ⟨j, _, hj, Nat.lt_of_not_le hmax, h.1.symm, h.2.symm⟩)

/-- The read transaction returns a row of the job's org with the id asked for. -/
theorem readDocument_some {orgId documentId : Uuid} {db : Db} {doc : Document}
    (h : readDocument orgId documentId db = some doc) :
    doc ∈ db.documents ∧ doc.id = documentId ∧ doc.orgId = orgId := by
  have hp := List.find?_some h
  simp only [rls, Bool.and_eq_true, beq_iff_eq] at hp
  exact ⟨List.mem_of_find?_eq_some h, hp.2.1, hp.1⟩

theorem readDocument_none {orgId documentId : Uuid} {db : Db} (h : readDocument orgId documentId db = none) :
    ∀ doc ∈ db.documents, doc.id = documentId → doc.orgId ≠ orgId := by
  intro doc hdoc he ho
  have := List.find?_eq_none.1 h doc hdoc
  simp [rls, he, ho] at this

/-- The rows the handler writes for the document it read: the chunks of its content, numbered from 0,
under its ACL. -/
structure RowsOf (env : Env) (orgId : Uuid) (doc : Document) (rows : List Chunk) : Prop where
  texts : chunkText env doc.content = .ok (rows.map Chunk.text)
  ordinals : rows.map Chunk.ordinal = List.range rows.length
  owner : ∀ c ∈ rows, c.orgId = orgId ∧ c.documentId = doc.id ∧ c.acl = doc.acl

theorem chunkRows_ok {orgId documentId : Uuid} {acl texts : List String} {embeddings : List Embedding}
    {rows : List Chunk} (h : chunkRows orgId documentId acl texts embeddings = .ok rows) :
    rows.map Chunk.text = texts ∧ rows.map Chunk.ordinal = List.range rows.length ∧
      ∀ c ∈ rows, c.orgId = orgId ∧ c.documentId = documentId ∧ c.acl = acl := by
  unfold chunkRows at h
  split at h
  · rename_i hlen
    obtain rfl := Except.ok.inj h
    refine ⟨?_, ?_, ?_⟩
    · rw [List.map_map]
      have : (fun c : Chunk => c.text) ∘ (fun r : (String × Embedding) × Nat =>
          ({ orgId, documentId, ordinal := r.2, text := r.1.1, embedding := r.1.2, acl } : Chunk)) =
          Prod.fst ∘ Prod.fst := rfl
      rw [this, ← List.map_map, List.zipIdx_map_fst, List.map_fst_zip (le_of_eq hlen)]
    · rw [List.map_map, List.length_map, List.length_zipIdx]
      have : (fun c : Chunk => c.ordinal) ∘ (fun r : (String × Embedding) × Nat =>
          ({ orgId, documentId, ordinal := r.2, text := r.1.1, embedding := r.1.2, acl } : Chunk)) =
          Prod.snd := rfl
      rw [this, List.zipIdx_map_snd, List.range_eq_range']
    · intro c hc
      obtain ⟨r, -, rfl⟩ := List.mem_map.1 hc
      exact ⟨rfl, rfl, rfl⟩
  · cases h

theorem embedDocument_ok {embedDocuments : List String → Except Err (List Embedding)} {orgId : Uuid}
    {doc : Document} {rows : List Chunk} (h : embedDocument env embedDocuments orgId doc = .ok rows) :
    RowsOf env orgId doc rows := by
  simp only [embedDocument, bind, Except.bind] at h
  split at h
  · cases h
  rename_i texts htexts
  have hrows : ∃ embeddings, chunkRows orgId doc.id doc.acl texts embeddings = .ok rows := by
    split at h
    · exact ⟨_, h⟩
    · split at h
      · cases h
      · exact ⟨_, h⟩
  obtain ⟨embeddings, hrows⟩ := hrows
  obtain ⟨ht, ho, hc⟩ := chunkRows_ok hrows
  exact ⟨by rw [htexts, ht], ho, hc⟩

/-- The write transaction commits: the document's old chunks are replaced and its row marked. -/
theorem writeDocument_ok {orgId documentId : Uuid} {rows : List Chunk} {now : Time} {db db' : Db}
    {u : Unit} (h : writeDocument orgId documentId rows now db = .ok (u, db')) :
    (rows = [] ∨ ∃ doc ∈ db.documents, doc.id = documentId) ∧ db' = { db with
      chunks := deleteWhere (rls orgId Chunk.orgId fun c => c.documentId == documentId) db.chunks ++ rows
      documents := updateWhere (rls orgId Document.orgId fun d => d.id == documentId) (·.ingest now)
        db.documents } := by
  simp only [writeDocument, Db.references] at h
  split at h
  · rename_i href
    simp only [bind, Except.bind, Except.ok.injEq, Prod.mk.injEq] at h
    refine ⟨?_, h.2.symm⟩
    simpa [Db.hasDocument] using href
  · cases h

/-- The write transaction aborts only where its document is gone. -/
theorem writeDocument_error {orgId documentId : Uuid} {rows : List Chunk} {now : Time} {db : Db}
    {e : Err} (h : writeDocument orgId documentId rows now db = .error e) :
    db.document? documentId = none := by
  simp only [writeDocument, Db.references] at h
  split at h
  · simp only [bind, Except.bind] at h
    cases h
  · rename_i href
    simp only [Bool.or_eq_true, not_or, Bool.not_eq_true, Db.hasDocument, List.any_eq_false] at href
    simp only [Db.document?, List.find?_eq_none]
    exact fun doc hdoc => by simpa using href.2 doc hdoc

end KnowledgeDesk.Proofs
