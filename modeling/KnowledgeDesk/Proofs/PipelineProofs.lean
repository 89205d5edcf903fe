import KnowledgeDesk.Pipeline
import KnowledgeDesk.Proofs.JobsProofs
import KnowledgeDesk.Proofs.SyncProofs

/-!
# The pipeline's invariant, and what a step does to one document

`Inv` collects what holds in every reachable state: the constraints of the tables, and that a job, an
upload or a worker that refers to a document refers to one of its own org. `step_document` is the
inversion lemma of the machine for one document: each step keeps its row and its chunks, or is one of
seven that write them.
-/

open Table

namespace KnowledgeDesk.Proofs

open Pipeline

variable {env : Env} {s s' : Pipeline}

/-- The id is taken, and a document that has it is of `orgId`. -/
def Owned (s : Pipeline) (id orgId : Uuid) : Prop :=
  id < s.nextId ∧ ∀ doc ∈ s.db.documents, doc.id = id → doc.orgId = orgId

/-- The job is an ingest job of a document of its own org. -/
def IngestJob (s : Pipeline) (j : Job) : Prop :=
  j.id < s.nextId ∧ j.kind = "ingest_document" ∧ ∃ id, j.documentId = some id ∧ Owned s id j.orgId

/-- What a worker holds: an ingest job, the row it read for it, and the chunks of that row. -/
structure PhaseInv (env : Env) (s : Pipeline) (phase : Phase) : Prop where
  job : ∀ j, phase.job? = some j → IngestJob s j
  seen : ∀ j doc, phase.job? = some j → phase.seen = some doc →
    j.documentId = some doc.id ∧ doc.orgId = j.orgId
  rows : ∀ j doc rows, phase = .embedded j doc rows → RowsOf env j.orgId doc rows

/-- The invariant of the machine. -/
structure Inv (env : Env) (s : Pipeline) : Prop where
  docs : DocsInv s.nextId s.db
  jobIds : (s.db.jobs.map Job.id).Nodup
  jobs : ∀ j ∈ s.db.jobs, IngestJob s j
  requests : ∀ r, ∀ p ∈ s.requests r, Owned s p.documentId p.orgId
  workers : ∀ w, PhaseInv env s (s.workers w)

/-! ## Ids keep their meaning -/

/-- No id has come to mean a document of another org. -/
def Grows (s s' : Pipeline) : Prop :=
  s.nextId ≤ s'.nextId ∧ ∀ doc' ∈ s'.db.documents,
    (∃ doc ∈ s.db.documents, doc.id = doc'.id ∧ doc.orgId = doc'.orgId) ∨ s.nextId ≤ doc'.id

theorem Grows.of_documents (hn : s.nextId ≤ s'.nextId) (hd : s'.db.documents = s.db.documents) :
    Grows s s' :=
  ⟨hn, fun doc hdoc => .inl ⟨doc, hd ▸ hdoc, rfl, rfl⟩⟩

theorem Owned.grows {id orgId : Uuid} (h : Owned s id orgId) (hg : Grows s s') : Owned s' id orgId := by
  refine ⟨Nat.lt_of_lt_of_le h.1 hg.1, fun doc' hdoc' he => ?_⟩
  rcases hg.2 doc' hdoc' with ⟨doc, hdoc, hid, horg⟩ | hge
  · exact horg.symm.trans (h.2 doc hdoc (hid.trans he))
  · exact absurd h.1 (by lia)

theorem IngestJob.grows {j : Job} (h : IngestJob s j) (hg : Grows s s') : IngestJob s' j := by
  obtain ⟨hlt, hk, id, hid, ho⟩ := h
  exact ⟨Nat.lt_of_lt_of_le hlt hg.1, hk, id, hid, ho.grows hg⟩

theorem PhaseInv.grows {phase : Phase} (h : PhaseInv env s phase) (hg : Grows s s') :
    PhaseInv env s' phase :=
  ⟨fun j hj => (h.job j hj).grows hg, h.seen, h.rows⟩

/-- A job's row as far as the invariant goes. -/
def SameJob (j₀ j : Job) : Prop :=
  j.id = j₀.id ∧ j.orgId = j₀.orgId ∧ j.kind = j₀.kind ∧ j.payload = j₀.payload

theorem IngestJob.same {j₀ j : Job} (h : IngestJob s j₀) (hs : SameJob j₀ j) : IngestJob s j := by
  obtain ⟨hlt, hk, id, hid, ho⟩ := h
  refine ⟨by rw [hs.1]; exact hlt, hs.2.2.1.trans hk, id, ?_, by rw [hs.2.1]; exact ho⟩
  rw [← hid, Job.documentId, Job.documentId, hs.2.2.2]

/-- The invariant after a step, when everything the step has not written is as it was. -/
theorem Inv.of_step (h : Inv env s) (hg : Grows s s') (hdocs : DocsInv s'.nextId s'.db)
    (hids : (s'.db.jobs.map Job.id).Nodup)
    (hjobs : ∀ j ∈ s'.db.jobs, (∃ j₀ ∈ s.db.jobs, SameJob j₀ j) ∨ IngestJob s' j)
    (hreq : ∀ r, ∀ p ∈ s'.requests r, p ∈ s.requests r ∨ Owned s' p.documentId p.orgId)
    (hw : ∀ w, s'.workers w = s.workers w ∨ PhaseInv env s' (s'.workers w)) : Inv env s' where
  docs := hdocs
  jobIds := hids
  jobs := fun j hj => by
    rcases hjobs j hj with ⟨j₀, hj₀, hs⟩ | hj
    · exact ((h.jobs j₀ hj₀).grows hg).same hs
    · exact hj
  requests := fun r p hp => (hreq r p hp).elim (fun hp => (h.requests r p hp).grows hg) id
  workers := fun w => (hw w).elim (fun he => he ▸ (h.workers w).grows hg) id

theorem mem_same (j : Job) (hj : j ∈ s.db.jobs) : ∃ j₀ ∈ s.db.jobs, SameJob j₀ j :=
  ⟨j, hj, rfl, rfl, rfl, rfl⟩

/-! ## Steps of one kind -/

/-- A worker goes on to a phase the invariant allows. -/
theorem Inv.goto (h : Inv env s) (w : Nat) {phase : Phase} (hp : PhaseInv env s phase) :
    Inv env (s.goto w phase) := by
  have hg : Grows s (s.goto w phase) := Grows.of_documents (le_refl _) rfl
  refine h.of_step hg h.docs h.jobIds (fun j hj => .inl (mem_same j hj)) (fun r p hp => .inl hp) ?_
  intro w'
  by_cases hw : w' = w
  · subst hw
    refine .inr ?_
    simpa only [Pipeline.goto, Function.update_self] using hp.grows hg
  · exact .inl (by simp [Pipeline.goto, hw])

/-- A transaction updates job rows, without changing what the invariant is about. -/
theorem Inv.updateJobs (h : Inv env s) (p : Job → Bool) (f : Job → Job) (hf : ∀ j, SameJob j (f j)) :
    Inv env { s with db := { s.db with jobs := updateWhere p f s.db.jobs } } := by
  refine h.of_step (Grows.of_documents (le_refl _) rfl)
    ⟨h.docs.ids, h.docs.keys, h.docs.fresh, h.docs.owner⟩ ?_ ?_ (fun r p hp => .inl hp)
    (fun w => .inl rfl)
  · simpa only [map_updateWhere Job.id fun j => (hf j).1] using h.jobIds
  · intro j hj
    obtain ⟨j₀, hj₀, rfl⟩ := mem_updateWhere.1 hj
    refine .inl ⟨j₀, hj₀, ?_⟩
    split
    · exact hf j₀
    · exact ⟨rfl, rfl, rfl, rfl⟩

/-- Updating document rows keeps the constraints, if the chunks written are of documents there are. -/
theorem DocsInv.update {n : Uuid} {db : Db} (h : DocsInv n db) {p : Document → Bool}
    {f : Document → Document} (hf : ∀ d, (f d).id = d.id ∧ (f d).key = d.key) {chunks : List Chunk}
    (hc : ∀ c ∈ chunks, ∃ doc ∈ db.documents, doc.id = c.documentId ∧ doc.orgId = c.orgId) :
    DocsInv n { db with documents := updateWhere p f db.documents, chunks := chunks } := by
  refine ⟨?_, ?_, ?_, ?_⟩
  · simpa only [map_updateWhere Document.id fun d => (hf d).1] using h.ids
  · simpa only [map_updateWhere Document.key fun d => (hf d).2] using h.keys
  · intro doc hdoc
    obtain ⟨doc₀, hdoc₀, rfl⟩ := mem_updateWhere.1 hdoc
    split
    · rw [(hf doc₀).1]
      exact h.fresh doc₀ hdoc₀
    · exact h.fresh doc₀ hdoc₀
  · intro c hcm
    obtain ⟨doc, hdoc, h1, h2⟩ := hc c hcm
    refine ⟨_, mem_updateWhere.2 ⟨doc, hdoc, rfl⟩, ?_⟩
    split
    · exact ⟨(hf doc).1.trans h1, (congrArg (·.1) (hf doc).2).trans h2⟩
    · exact ⟨h1, h2⟩

/-- A transaction updates document rows and replaces chunks. -/
theorem Inv.updateDocs (h : Inv env s) (p : Document → Bool) (f : Document → Document)
    (hf : ∀ d, (f d).id = d.id ∧ (f d).key = d.key) {chunks : List Chunk}
    (hc : ∀ c ∈ chunks, ∃ doc ∈ s.db.documents, doc.id = c.documentId ∧ doc.orgId = c.orgId) :
    Inv env { s with db := { s.db with
      documents := updateWhere p f s.db.documents
      chunks := chunks } } := by
  refine h.of_step ⟨le_refl _, ?_⟩ (h.docs.update hf hc) h.jobIds (fun j hj => .inl (mem_same j hj))
    (fun r p hp => .inl hp) (fun w => .inl rfl)
  intro doc' hdoc'
  obtain ⟨doc, hdoc, rfl⟩ := mem_updateWhere.1 hdoc'
  refine .inl ⟨doc, hdoc, ?_⟩
  split
  · exact ⟨(hf doc).1.symm, (congrArg (·.1) (hf doc).2).symm⟩
  · exact ⟨rfl, rfl⟩

/-- A transaction deletes documents, and with them their chunks. -/
theorem Inv.deleteDocuments (h : Inv env s) (p : Document → Bool) :
    Inv env { s with db := s.db.deleteDocuments p } := by
  have hsub : (deleteWhere p s.db.documents).Sublist s.db.documents := sublist_deleteWhere
  refine h.of_step ⟨le_refl _, ?_⟩ ⟨h.docs.ids.sublist (hsub.map _), h.docs.keys.sublist (hsub.map _),
    fun doc hdoc => h.docs.fresh doc (hsub.subset hdoc), ?_⟩ h.jobIds
    (fun j hj => .inl (mem_same j hj)) (fun r p hp => .inl hp) (fun w => .inl rfl)
  · exact fun doc hdoc => .inl ⟨doc, hsub.subset hdoc, rfl, rfl⟩
  · intro c hc
    simp only [Db.deleteDocuments, mem_deleteWhere, List.any_eq_false] at hc
    obtain ⟨doc, hdoc, h1, h2⟩ := h.docs.owner c hc.1
    refine ⟨doc, mem_deleteWhere.2 ⟨hdoc, ?_⟩, h1, h2⟩
    have := hc.2 doc hdoc
    simpa [h1] using this

/-! ## The invariant is inductive -/

theorem PhaseInv.idle : PhaseInv env s .idle :=
  ⟨by simp [Phase.job?], by simp [Phase.job?], by simp⟩

/-- A phase with the job and the row of another, and no rows to write. -/
theorem PhaseInv.next {phase phase' : Phase} (h : PhaseInv env s phase) (hj : phase'.job? = phase.job?)
    (hs : ∀ doc, phase'.seen = some doc → phase.seen = some doc)
    (hr : ∀ j doc rows, phase' ≠ .embedded j doc rows) : PhaseInv env s phase' :=
  ⟨fun j he => h.job j (hj ▸ he), fun j doc he hd => h.seen j doc (hj ▸ he) (hs doc hd),
    fun j doc rows he => absurd he (hr j doc rows)⟩

/-- What the handler holds after its read transaction is a row of its job's document. -/
theorem PhaseInv.startHandler {job : Job} (h : PhaseInv env s (.claimed job)) :
    PhaseInv env s (Pipeline.startHandler job s.db) := by
  have hnext : ∀ phase : Phase, phase.job? = some job → phase.seen = none →
      (∀ j doc rows, phase ≠ .embedded j doc rows) → PhaseInv env s phase :=
    fun phase hj hs hr => h.next hj (fun doc he => by simp [hs] at he) hr
  unfold Pipeline.startHandler
  split
  · split
    · exact hnext _ rfl rfl (by simp)
    · rename_i documentId hid
      split
      · exact hnext _ rfl rfl (by simp)
      · rename_i doc hread
        obtain ⟨-, hdid, horg⟩ := readDocument_some hread
        have hseen : ∀ phase : Phase, phase.job? = some job → phase.seen = some doc →
            (∀ j doc rows, phase ≠ .embedded j doc rows) → PhaseInv env s phase := by
          intro phase hj hs hr
          refine ⟨fun j he => h.job j (hj.symm.trans he), fun j d he hd => ?_, fun j _ rows he =>
            absurd he (hr j _ rows)⟩
          obtain rfl : job = j := by simpa [hj] using he
          obtain rfl : doc = d := by simpa [hs] using hd
          exact ⟨hdid ▸ hid, horg⟩
        split
        · exact hseen _ rfl rfl (by simp)
        · exact hseen _ rfl rfl (by simp)
  · exact hnext _ rfl rfl (by simp)

theorem PhaseInv.interrupted {phase : Phase} (h : PhaseInv env s phase) (error : Err) :
    PhaseInv env s (Pipeline.interrupted error phase) := by
  cases phase with
  | claimed job | loaded job doc | embedded job doc rows | handled job seen =>
    exact h.next rfl (fun doc hd => hd) (by simp [Pipeline.interrupted])
  | idle | raised | dead => exact h

/-- Two rows of the chunks' table belong to documents there are, if the second was to be written. -/
theorem owner_written (h : Inv env s) {job : Job} {doc : Document} {rows : List Chunk}
    (hr : RowsOf env job.orgId doc rows) (ho : Owned s doc.id job.orgId)
    (href : rows = [] ∨ ∃ d ∈ s.db.documents, d.id = doc.id) :
    ∀ c ∈ deleteWhere (rls job.orgId Chunk.orgId fun c => c.documentId == doc.id) s.db.chunks ++ rows,
      ∃ d ∈ s.db.documents, d.id = c.documentId ∧ d.orgId = c.orgId := by
  intro c hc
  rcases List.mem_append.1 hc with hc | hc
  · exact h.docs.owner c (mem_deleteWhere.1 hc).1
  · obtain ⟨h1, h2, -⟩ := hr.owner c hc
    rcases href with rfl | ⟨d, hdm, he⟩
    · cases hc
    · exact ⟨d, hdm, he.trans h2.symm, (ho.2 d hdm he).trans h1.symm⟩

theorem updateDocumentAclTx_ok {ctx : AuthContext} {documentId : Uuid} {acl : List String} {now : Time}
    {db db' : Db} {u : Unit} (h : updateDocumentAclTx ctx documentId acl now db = .ok (u, db')) :
    db' = { db with
      documents := updateWhere (rls ctx.orgId Document.orgId fun d =>
        d.id == documentId && d.orgId == ctx.orgId) (·.setAcl acl now) db.documents
      chunks := updateWhere
        (rls ctx.orgId Chunk.orgId fun c => c.documentId == documentId && c.orgId == ctx.orgId)
        (fun c => { c with acl }) db.chunks } := by
  simp only [updateDocumentAclTx] at h
  split at h
  · exact (Prod.mk.inj (Except.ok.inj h)).2.symm
  · cases h

theorem deleteDocumentTx_ok {ctx : AuthContext} {documentId : Uuid} {db db' : Db} {u : Unit}
    (h : deleteDocumentTx ctx documentId db = .ok (u, db')) :
    db' = db.deleteDocuments (rls ctx.orgId Document.orgId fun d =>
      d.id == documentId && d.orgId == ctx.orgId) := by
  simp only [deleteDocumentTx] at h
  split at h
  · exact (Prod.mk.inj (Except.ok.inj h)).2.symm
  · cases h

/-- The statement's own org predicate says what the policy's says already. -/
theorem rls_and_org {ρ : Type} (org : Uuid) (orgId : ρ → Uuid) (p : ρ → Bool) :
    rls org orgId (fun r => p r && orgId r == org) = rls org orgId p := by
  funext r
  simp only [rls]
  cases orgId r == org <;> simp

theorem updateDocumentAclTx_target {ctx : AuthContext} {documentId : Uuid} {acl : List String}
    {now : Time} {db db' : Db} {u : Unit}
    (h : updateDocumentAclTx ctx documentId acl now db = .ok (u, db')) :
    ∃ doc ∈ db.documents, doc.orgId = ctx.orgId ∧ doc.id = documentId := by
  simp only [updateDocumentAclTx, rls_and_org] at h
  split at h
  · rename_i hany
    simpa [rls] using hany
  · cases h

theorem deleteDocumentTx_target {ctx : AuthContext} {documentId : Uuid} {db db' : Db} {u : Unit}
    (h : deleteDocumentTx ctx documentId db = .ok (u, db')) :
    ∃ doc ∈ db.documents, doc.orgId = ctx.orgId ∧ doc.id = documentId := by
  simp only [deleteDocumentTx, rls_and_org] at h
  split at h
  · rename_i hany
    simpa [rls] using hany
  · cases h

/-- Ids are drawn upwards. -/
theorem nextId_le_step (s : Pipeline) (l : Label) : s.nextId ≤ (step env s l).nextId := by
  cases l <;> simp only [step, commit] <;> (repeat' split) <;>
    first
    | exact le_refl _
    | exact Nat.le_add_right _ _

/-- An upload keeps the invariant. -/
theorem Inv.sync (h : Inv env s) {request : Nat} {precheck : Db → Except Err Unit} {orgId : Uuid}
    {source : String} {items : List Item} {now : Time} :
    Inv env (step env s (.sync request precheck orgId source items now)) := by
  simp only [step]
  split
  · split
    · rename_i result jobs db' htx
      have hspec := syncTx_spec h.docs htx
      have hg : Grows s { s with
          db := db', nextId := s.nextId + items.length
          requests := Function.update s.requests request jobs } := by
        refine ⟨Nat.le_add_right _ _, fun doc' hdoc' => ?_⟩
        rcases hspec.rows doc' hdoc' with ⟨hold, -⟩ | ⟨-, ⟨doc, hdoc, hid, hkey⟩ | ⟨hge, -⟩⟩ |
          ⟨doc, hdoc, -, hid, hkey, -⟩
        · exact .inl ⟨doc', hold, rfl, rfl⟩
        · exact .inl ⟨doc, hdoc, hid, congrArg (·.1) hkey⟩
        · exact .inr hge
        · exact .inl ⟨doc, hdoc, hid, congrArg (·.1) hkey⟩
      have hjobs : db'.jobs = s.db.jobs := by rw [hspec.frame]
      refine h.of_step hg hspec.docs ?_ (fun j hj => .inl (mem_same j (hjobs ▸ hj))) ?_
        (fun w => .inl rfl)
      · simpa only [hjobs] using h.jobIds
      · intro r p hp
        by_cases hr : r = request
        · subst hr
          simp only [Function.update_self] at hp
          obtain ⟨ho, doc, hdoc, he, hdo⟩ := hspec.jobs p hp
          refine .inr ⟨?_, fun d hd hid => ?_⟩
          · rw [← he]
            exact hspec.docs.fresh doc hdoc
          · rw [hspec.docs.eq_of_id hd hdoc (hid.trans he.symm), hdo, ho]
        · exact .inl (by simpa [hr] using hp)
    · exact h
  · exact h

/-- An enqueue keeps the invariant. -/
theorem Inv.enqueue (h : Inv env s) {request : Nat} {now : Time} :
    Inv env (step env s (.enqueue request now)) := by
  simp only [step]
  split
  · exact h
  · rename_i p rest hreq
    split
    · rename_i created db' htx
      have hp : Owned s p.documentId p.orgId := h.requests request p (by simp [hreq])
      have hrest : ∀ (db₁ : Db), ∀ r, ∀ q ∈ Function.update s.requests request rest r,
          q ∈ s.requests r ∨ Owned ⟨db₁, s.nextId + 1, s.workers,
            Function.update s.requests request rest⟩ q.documentId q.orgId := by
        intro db₁ r q hq
        by_cases hr : r = request
        · subst hr
          simp only [Function.update_self] at hq
          exact .inl (by simp [hreq, hq])
        · exact .inl (by simpa [hr] using hq)
      have hdocs : DocsInv (s.nextId + 1) s.db :=
        { h.docs with fresh := fun doc hdoc => Nat.lt_succ_of_lt (h.docs.fresh doc hdoc) }
      rcases enqueuePending_cases htx with ⟨-, rfl⟩ | ⟨-, j, hid, horg, hkind, hpay, -, -, rfl⟩
      · exact h.of_step (Grows.of_documents (Nat.le_succ _) rfl) hdocs h.jobIds
          (fun j hj => .inl (mem_same j hj)) (hrest _) (fun w => .inl rfl)
      · have hg : Grows s ⟨{ s.db with jobs := s.db.jobs ++ [j] }, s.nextId + 1, s.workers,
            Function.update s.requests request rest⟩ := Grows.of_documents (Nat.le_succ _) rfl
        refine h.of_step hg ⟨hdocs.ids, hdocs.keys, hdocs.fresh, hdocs.owner⟩ ?_ ?_ (hrest _)
          (fun w => .inl rfl)
        · rw [List.map_append, List.nodup_append]
          refine ⟨h.jobIds, by simp, ?_⟩
          simp only [List.mem_map, List.map_cons, List.map_nil, List.mem_singleton]
          rintro _ ⟨j₀, hj₀, rfl⟩ _ rfl
          have := (h.jobs j₀ hj₀).1
          lia
        · intro j' hj'
          rcases List.mem_append.1 hj' with hj' | hj'
          · exact .inl (mem_same j' hj')
          · obtain rfl := List.mem_singleton.1 hj'
            refine .inr ⟨by rw [hid]; exact Nat.lt_succ_self _, hkind, p.documentId, ?_, ?_⟩
            · simp [Job.documentId, hpay]
            · rw [horg]
              exact hp.grows hg
    · exact h

/-- A claim keeps the invariant. -/
theorem Inv.claim (h : Inv env s) {worker : Nat} {locked : Uuid → Bool} {now : Time} :
    Inv env (step env s (.claim worker locked now)) := by
  simp only [step]
  split
  · split
    · rename_i job db' htx
      obtain ⟨j, hj, -, rfl, rfl⟩ := claimOne_some htx
      have h' := h.updateJobs (fun r => r.id == j.id) (·.claim now)
        fun j => ⟨rfl, rfl, rfl, rfl⟩
      refine h'.goto worker ⟨?_, by simp [Phase.seen], by simp⟩
      intro j' hj'
      obtain rfl : j.claim now = j' := by simpa [Phase.job?] using hj'
      exact h'.jobs _ (mem_updateWhere.2 ⟨j, hj, by simp⟩)
    · exact h
  · exact h

/-- A worker's write keeps the invariant. -/
theorem Inv.write (h : Inv env s) {worker : Nat} {now : Time} :
    Inv env (step env s (.write worker now)) := by
  simp only [step]
  split
  · rename_i job doc rows hph
    have hw : PhaseInv env s (.embedded job doc rows) := hph ▸ h.workers worker
    split
    · rename_i db' htx
      obtain ⟨href, rfl⟩ := writeDocument_ok htx
      obtain ⟨hid, -⟩ := hw.seen job doc rfl rfl
      obtain ⟨-, -, id, hid', hown⟩ := hw.job job rfl
      obtain rfl : id = doc.id := by simpa [hid] using hid'.symm
      have h' := h.updateDocs (rls job.orgId Document.orgId fun d => d.id == doc.id)
        (·.ingest now) (fun d => ⟨rfl, rfl⟩)
        (owner_written h (hw.rows job doc rows rfl) hown href)
      have hp : PhaseInv env s (.handled job (some doc)) :=
        hw.next rfl (fun _ hd => hd) (by simp)
      refine h'.goto worker (hp.grows ⟨le_refl _, fun d hd => ?_⟩)
      obtain ⟨d₀, hd₀, rfl⟩ := mem_updateWhere.1 hd
      refine .inl ⟨d₀, hd₀, ?_⟩
      split <;> exact ⟨rfl, rfl⟩
    · exact h.goto worker (hw.next rfl (fun _ hd => hd) (by simp))
  · exact h

/-- A job's failure mark keeps the invariant. -/
theorem Inv.fail (h : Inv env s) {worker : Nat} {now : Time} :
    Inv env (step env s (.fail worker now)) := by
  simp only [step]
  split
  · rename_i job seen error hph
    have hw : PhaseInv env s (.raised job seen error) := hph ▸ h.workers worker
    split
    · rename_i outcome db' htx
      have hdead : ∀ s₁ : Pipeline, Inv env s₁ → Grows s s₁ → Inv env
          (if outcome = .dead ∧ job.kind = "ingest_document" then s₁.goto worker (.dead job seen)
            else s₁.goto worker .idle) := by
        intro s₁ h₁ hg
        split
        · have hp : PhaseInv env s (.dead job seen) := hw.next rfl (fun _ hd => hd) (by simp)
          exact h₁.goto worker (hp.grows hg)
        · exact h₁.goto worker .idle
      rcases markFailed_cases htx with ⟨-, -, rfl⟩ | ⟨j, -, -, -, rfl⟩ | ⟨j, delay, -, -, -, rfl⟩
      · exact hdead s h (Grows.of_documents (le_refl _) rfl)
      · exact hdead _ (h.updateJobs _ _ fun j => ⟨rfl, rfl, rfl, rfl⟩)
          (Grows.of_documents (le_refl _) rfl)
      · exact hdead _ (h.updateJobs _ _ fun j => ⟨rfl, rfl, rfl, rfl⟩)
          (Grows.of_documents (le_refl _) rfl)
    · exact h
  · exact h

/-- Every step keeps the invariant. -/
theorem step_inv (h : Inv env s) (l : Label) : Inv env (step env s l) := by
  cases l with
  | sync request precheck orgId source items now => exact h.sync
  | enqueue request now => exact h.enqueue
  | abandon request =>
    refine h.of_step (Grows.of_documents (le_refl _) rfl) h.docs h.jobIds
      (fun j hj => .inl (mem_same j hj)) (fun r p hp => ?_) (fun w => .inl rfl)
    by_cases hr : r = request
    · subst hr
      simp [step] at hp
    · exact .inl (by simpa [step, hr] using hp)
  | claim worker locked now => exact h.claim
  | read worker =>
    simp only [step]
    split
    · rename_i job hph
      exact h.goto worker (hph ▸ h.workers worker).startHandler
    · exact h
  | embed worker embedDocuments =>
    simp only [step]
    split
    · rename_i job doc hph
      have hw : PhaseInv env s (.loaded job doc) := hph ▸ h.workers worker
      split
      · rename_i rows hrows
        refine h.goto worker ⟨hw.job, hw.seen, fun j d r he => ?_⟩
        obtain ⟨rfl, rfl, rfl⟩ : job = j ∧ doc = d ∧ rows = r := by simpa using he
        exact embedDocument_ok hrows
      · exact h.goto worker (hw.next rfl (fun _ hd => hd) (by simp))
    · exact h
  | write worker now => exact h.write
  | succeed worker now =>
    simp only [step]
    split
    · exact (h.updateJobs _ (·.succeed now) fun j => ⟨rfl, rfl, rfl, rfl⟩).goto worker .idle
    · exact h
  | interrupt worker error => exact h.goto worker ((h.workers worker).interrupted error)
  | fail worker now => exact h.fail
  | failDocument worker now =>
    simp only [step]
    split
    · split
      · exact h.goto worker .idle
      · exact (h.updateDocs _ (·.fail now) (fun d => ⟨rfl, rfl⟩) h.docs.owner).goto worker .idle
    · exact h
  | crash worker => exact h.goto worker .idle
  | updateAcl ctx documentId acl now =>
    simp only [step, commit]
    split
    · rename_i db' htx
      rw [updateDocumentAclTx_ok htx]
      refine h.updateDocs _ (·.setAcl acl now) (fun d => ⟨rfl, rfl⟩) fun c hc => ?_
      obtain ⟨c₀, hc₀, rfl⟩ := mem_updateWhere.1 hc
      obtain ⟨doc, hdoc, he⟩ := h.docs.owner c₀ hc₀
      refine ⟨doc, hdoc, ?_⟩
      split <;> exact he
    · exact h
  | deleteDocument ctx documentId =>
    simp only [step, commit]
    split
    · rename_i db' htx
      rw [deleteDocumentTx_ok htx]
      exact h.deleteDocuments _
    · exact h

/-- The invariant holds in every reachable state. -/
theorem inv_of_reachable (h : Reachable env s) : Inv env s := by
  obtain ⟨db, n, ls, hd, hc, hj, rfl⟩ := h
  refine Runs.run_inv (P := Inv env) (fun s l hs => step_inv hs l) ?_ ls
  refine ⟨⟨by simp [atRest, hd], by simp [atRest, hd], by simp [atRest, hd], by simp [atRest, hc]⟩,
    by simp [atRest, hj], by simp [atRest, hj], by simp [atRest], fun w => PhaseInv.idle⟩

/-! ## What a step does to one document -/

/-- The step is a worker's update of the row with this id. -/
def Touches (s : Pipeline) (id : Uuid) : Label → Prop
  | .write worker _ => ∃ job doc rows, s.workers worker = .embedded job doc rows ∧ doc.id = id
  | .failDocument worker _ => ∃ job seen, s.workers worker = .dead job seen ∧ job.documentId = some id
  | _ => False

/-- What a step can do to the row with this id and to its chunks. -/
inductive Effect (s : Pipeline) (id : Uuid) : Label → Pipeline → Prop
  /-- Nothing. -/
  | same {l : Label} {s' : Pipeline} (hdoc : s'.db.document? id = s.db.document? id)
      (hchunks : s'.db.chunksOf id = s.db.chunksOf id)
      (hno : Touches s id l → s.db.document? id = none) : Effect s id l s'
  /-- An upload inserts or replaces the row; its job is still to be enqueued. -/
  | uploaded {request precheck orgId source items now} {s' : Pipeline} (doc' : Document)
      (hdoc : s'.db.document? id = some doc')
      (hup : Uploaded orgId source items (s'.requests request) doc')
      (hold : ∀ doc, s.db.document? id = some doc → doc.key = doc'.key)
      (hnew : s.db.document? id = none → s.nextId ≤ id)
      (hchunks : s'.db.chunksOf id = s.db.chunksOf id) :
      Effect s id (.sync request precheck orgId source items now) s'
  /-- An upload drops the row. -/
  | dropped {request precheck orgId source items now} {s' : Pipeline} (doc doc' : Document)
      (hold : s.db.document? id = some doc) (hmiss : Missing orgId source items doc)
      (hdoc : s'.db.document? id = some doc') (hkey : doc'.key = doc.key)
      (hstatus : doc'.status = .deleted) (hchunks : s'.db.chunksOf id = []) :
      Effect s id (.sync request precheck orgId source items now) s'
  /-- A worker writes the chunks of the row it read. -/
  | written {worker now} {s' : Pipeline} (job : Job) (doc : Document) (rows : List Chunk)
      (hphase : s.workers worker = .embedded job doc rows) (hid : doc.id = id)
      (hdoc : s'.db.document? id = (s.db.document? id).map (·.ingest now))
      (hchunks : s'.db.chunksOf id = rows) : Effect s id (.write worker now) s'
  /-- A worker marks the row failed. -/
  | failed {worker now} {s' : Pipeline} (job : Job) (seen : Option Document)
      (hphase : s.workers worker = .dead job seen) (hid : job.documentId = some id)
      (hdoc : s'.db.document? id = (s.db.document? id).map (·.fail now))
      (hchunks : s'.db.chunksOf id = s.db.chunksOf id) : Effect s id (.failDocument worker now) s'
  /-- An administrator sets the ACL of the row and of its chunks. -/
  | permitted {ctx acl now} {s' : Pipeline} (doc : Document) (hold : s.db.document? id = some doc)
      (hdoc : s'.db.document? id = some (doc.setAcl acl now))
      (hchunks : s'.db.chunksOf id = (s.db.chunksOf id).map fun c => { c with acl }) :
      Effect s id (.updateAcl ctx id acl now) s'
  /-- An administrator deletes the row. -/
  | deleted {ctx} {s' : Pipeline} (hdoc : s'.db.document? id = none)
      (hchunks : s'.db.chunksOf id = []) : Effect s id (.deleteDocument ctx id) s'

/-- A document of the org the chunks of the id are of. -/
theorem chunk_org (h : Inv env s) {id orgId : Uuid} (ho : Owned s id orgId) {c : Chunk}
    (hc : c ∈ s.db.chunks) (hid : c.documentId = id) : c.orgId = orgId := by
  obtain ⟨doc, hdoc, h1, h2⟩ := h.docs.owner c hc
  exact h2.symm.trans (ho.2 doc hdoc (h1.trans hid))

/-- An update by id, within the org of the row, of the row with another id or with this one. -/
theorem document?_update (h : Inv env s) {id orgId : Uuid} (ho : Owned s id orgId)
    {f : Document → Document} (hf : ∀ d, (f d).id = d.id) (id' : Uuid) :
    (updateWhere (rls orgId Document.orgId fun d => d.id == id) f s.db.documents).find?
        (fun d => d.id == id') =
      if id' = id then (s.db.document? id').map f else s.db.document? id' := by
  rw [find?_updateWhere fun d => by rw [hf]]
  change (s.db.document? id').map _ = _
  cases hdoc : s.db.document? id' with
  | none => simp
  | some doc =>
    obtain ⟨hmem, rfl⟩ := (document?_eq_some h.docs).1 hdoc
    by_cases hid : doc.id = id
    · simp [rls, hid, ho.2 doc hmem hid]
    · simp [rls, hid]

/-- The handler's write replaces the chunks of its document and no others. -/
theorem chunksOf_written (h : Inv env s) {job : Job} {doc : Document} {rows : List Chunk}
    (hr : RowsOf env job.orgId doc rows) (ho : Owned s doc.id job.orgId) (id : Uuid) :
    (deleteWhere (rls job.orgId Chunk.orgId fun c => c.documentId == doc.id) s.db.chunks ++ rows).filter
        (fun c => c.documentId == id) =
      if id = doc.id then rows else s.db.chunksOf id := by
  rw [List.filter_append]
  by_cases hid : id = doc.id
  · subst hid
    have hnone : (deleteWhere (rls job.orgId Chunk.orgId fun c => c.documentId == doc.id)
        s.db.chunks).filter (fun c => c.documentId == doc.id) = [] := by
      rw [List.filter_eq_nil_iff]
      intro c hc hcid
      obtain ⟨hcm, hp⟩ := mem_deleteWhere.1 hc
      have hco := chunk_org h ho hcm (by simpa using hcid)
      simp [rls, hco] at hp
      exact hp (by simpa using hcid)
    have hall : rows.filter (fun c => c.documentId == doc.id) = rows := by
      rw [List.filter_eq_self]
      intro c hc
      simp [(hr.owner c hc).2.1]
    rw [hnone, hall, if_pos rfl, List.nil_append]
  · have hrows : rows.filter (fun c => c.documentId == id) = [] := by
      rw [List.filter_eq_nil_iff]
      intro c hc
      simp only [(hr.owner c hc).2.1, beq_iff_eq]
      exact fun he => hid he.symm
    rw [hrows, if_neg hid, List.append_nil, Db.chunksOf]
    refine filter_deleteWhere_of_disjoint fun c hc hp => ?_
    simp only [rls, Bool.and_eq_true, beq_iff_eq] at hp
    simp [hp.2, Ne.symm hid]

/-- A worker's job, of a document of its org. -/
theorem worker_job (h : Inv env s) {worker : Nat} {job : Job} {id : Uuid}
    (hj : (s.workers worker).job? = some job) (hid : job.documentId = some id) :
    Owned s id job.orgId := by
  obtain ⟨-, -, id', hid', ho⟩ := (h.workers worker).job job hj
  obtain rfl : id' = id := by simpa [hid] using hid'.symm
  exact ho

/-- An upload deletes the chunks of the documents it drops. -/
theorem chunksOf_dropped (h : Inv env s) {orgId : Uuid} {source : String} {items : List Item}
    {jobs : List PendingJob} {db' : Db} (hspec : SyncSpec orgId source items s.nextId s.db jobs db')
    {doc : Document} (hdoc : doc ∈ s.db.documents) (hmiss : Missing orgId source items doc) :
    db'.chunksOf doc.id = [] := by
  rw [Db.chunksOf, hspec.chunks, List.filter_filter, List.filter_eq_nil_iff]
  intro c hc hp
  simp only [Bool.and_eq_true, beq_iff_eq, Bool.not_eq_true', Bool.and_eq_false_iff] at hp
  have hco : c.orgId = orgId := by
    obtain ⟨d, hdm, h1, h2⟩ := h.docs.owner c hc
    rw [← h2, h.docs.eq_of_id hdm hdoc (h1.trans hp.1), hmiss.1]
  have hany : (missing (sourceDocuments orgId source s.db) items).any
      (fun g => g.id == c.documentId) = true := by
    rw [List.any_eq_true]
    exact ⟨doc, mem_missing.2 ⟨hdoc, hmiss⟩, by simp [hp.1]⟩
  simp [hco, hany] at hp

/-- What an upload does to the row. -/
theorem sync_document (h : Inv env s) {request : Nat} {precheck : Db → Except Err Unit} {orgId : Uuid}
    {source : String} {items : List Item} {now : Time} (id : Uuid) :
    Effect s id (.sync request precheck orgId source items now)
      (step env s (.sync request precheck orgId source items now)) := by
  simp only [step]
  split
  swap
  · exact .same rfl rfl False.elim
  split
  swap
  · exact .same rfl rfl False.elim
  rename_i result jobs db' htx
  have hspec := syncTx_spec h.docs htx
  have hchunks : (∀ doc ∈ s.db.documents, Missing orgId source items doc → doc.id ≠ id) →
      db'.chunksOf id = s.db.chunksOf id := by
    intro hno
    rw [Db.chunksOf, hspec.chunks, List.filter_filter, Db.chunksOf]
    refine List.filter_congr fun c _ => ?_
    by_cases hc : c.documentId = id
    · have : (missing (sourceDocuments orgId source s.db) items).any
          (fun g => g.id == c.documentId) = false := by
        rw [List.any_eq_false]
        intro g hg
        obtain ⟨hgm, hm⟩ := mem_missing.1 hg
        simpa [hc] using hno g hgm hm
      simp [this]
    · simp [hc]
  cases hd' : db'.document? id with
  | none =>
    have hnone : s.db.document? id = none := by
      rw [document?_eq_none] at hd' ⊢
      intro doc hdoc he
      obtain ⟨doc', hdoc', he'⟩ := hspec.kept doc hdoc
      exact hd' doc' hdoc' (he'.trans he)
    refine .same (hd'.trans hnone.symm) (hchunks fun doc hdoc _ => ?_) False.elim
    exact document?_eq_none.1 hnone doc hdoc
  | some doc' =>
    obtain ⟨hmem', rfl⟩ := (document?_eq_some hspec.docs).1 hd'
    rcases hspec.rows doc' hmem' with ⟨hold, hnm⟩ | ⟨hup, hrow⟩ | ⟨doc, hdoc, hmiss, hid, hkey, hst⟩
    · refine .same (hd'.trans ((document?_eq_some h.docs).2 ⟨hold, rfl⟩).symm) (hchunks ?_) False.elim
      intro g hg hm he
      rw [h.docs.eq_of_id hg hold he] at hm
      exact hnm hm
    · have hold : ∀ doc, s.db.document? doc'.id = some doc → doc.key = doc'.key := by
        intro doc hdoc
        obtain ⟨hm, he⟩ := (document?_eq_some h.docs).1 hdoc
        rcases hrow with ⟨old, hom, hoid, hok⟩ | ⟨hge, -⟩
        · rw [h.docs.eq_of_id hm hom (he.trans hoid.symm), hok]
        · exact absurd (h.docs.fresh doc hm) (by lia)
      have hnew : s.db.document? doc'.id = none → s.nextId ≤ doc'.id := by
        intro hnone
        rcases hrow with ⟨old, hom, hoid, -⟩ | ⟨hge, -⟩
        · exact absurd hoid (document?_eq_none.1 hnone old hom)
        · exact hge
      refine .uploaded doc' hd' (by simpa using hup) hold hnew (hchunks fun g hg hm he => ?_)
      obtain ⟨i, hi, hp⟩ := hup.named
      have hgk := hold g ((document?_eq_some h.docs).2 ⟨hg, he⟩)
      exact hm.2.2.1 i hi (hp.trans (congrArg (fun k => k.2.2) hgk).symm)
    · refine .dropped doc doc' ((document?_eq_some h.docs).2 ⟨hdoc, hid⟩) hmiss hd' hkey.symm hst ?_
      rw [← hid]
      exact chunksOf_dropped h hspec hdoc hmiss

/-- What a worker's write does to the row. -/
theorem write_document (h : Inv env s) {worker : Nat} {now : Time} (id : Uuid) :
    Effect s id (.write worker now) (step env s (.write worker now)) := by
  simp only [step]
  split
  swap
  · rename_i hph
    exact .same rfl rfl fun ⟨job, doc, rows, he, _⟩ => absurd he (hph job doc rows)
  rename_i job doc rows hph
  split
  swap
  · rename_i htx
    refine .same rfl rfl ?_
    rintro ⟨job', doc', rows', he, rfl⟩
    obtain ⟨rfl, rfl, rfl⟩ : job = job' ∧ doc = doc' ∧ rows = rows' := by simpa [hph] using he
    exact writeDocument_error htx
  rename_i db' htx
  obtain ⟨href, rfl⟩ := writeDocument_ok htx
  have hw : PhaseInv env s (.embedded job doc rows) := hph ▸ h.workers worker
  have ho := worker_job h (by rw [hph]; rfl) (hw.seen job doc rfl rfl).1
  have hdoc := document?_update h ho (f := (·.ingest now)) (fun _ => rfl) id
  have hchunks := chunksOf_written h (hw.rows job doc rows rfl) ho id
  by_cases hid : id = doc.id
  · rw [if_pos hid] at hdoc hchunks
    exact .written job doc rows hph hid.symm hdoc hchunks
  · rw [if_neg hid] at hdoc hchunks
    refine .same hdoc hchunks ?_
    rintro ⟨job', doc', rows', he, rfl⟩
    obtain ⟨rfl, rfl, rfl⟩ : job = job' ∧ doc = doc' ∧ rows = rows' := by simpa [hph] using he
    exact absurd rfl hid

/-- What a worker's failure mark does to the row. -/
theorem failDocument_document (h : Inv env s) {worker : Nat} {now : Time} (id : Uuid) :
    Effect s id (.failDocument worker now) (step env s (.failDocument worker now)) := by
  simp only [step]
  split
  swap
  · rename_i hph
    exact .same rfl rfl fun ⟨job, seen, he, _⟩ => absurd he (hph job seen)
  rename_i job seen hph
  have htouch : Touches s id (.failDocument worker now) → job.documentId = some id := by
    rintro ⟨job', seen', he, hid⟩
    obtain ⟨rfl, -⟩ : job = job' ∧ seen = seen' := by simpa [hph] using he
    exact hid
  split
  · rename_i hnone
    exact .same rfl rfl fun ht => by simp [hnone] at htouch; exact absurd ht htouch
  · rename_i documentId hid'
    have ho := worker_job h (by rw [hph]; rfl) hid'
    have hdoc : ((s.commit (markDocumentFailed job.orgId documentId now)).goto worker .idle).db.document?
        id = if id = documentId then (s.db.document? id).map (·.fail now)
          else s.db.document? id := by
      rw [← document?_update h ho (f := (·.fail now)) (fun _ => rfl) id]
      simp only [commit, markDocumentFailed, Pipeline.goto, Db.document?]
      rw [rls_and_org]
    by_cases hid : id = documentId
    · rw [if_pos hid] at hdoc
      exact .failed job seen hph (hid ▸ hid') hdoc rfl
    · rw [if_neg hid] at hdoc
      exact .same hdoc rfl fun ht => absurd (Option.some.inj ((htouch ht).symm.trans hid')) hid

/-- What a change of ACL does to the row. -/
theorem updateAcl_document (h : Inv env s) {ctx : AuthContext} {documentId : Uuid} {acl : List String}
    {now : Time} (id : Uuid) :
    Effect s id (.updateAcl ctx documentId acl now) (step env s (.updateAcl ctx documentId acl now)) := by
  simp only [step, commit]
  split
  swap
  · exact .same rfl rfl False.elim
  rename_i db' htx
  obtain ⟨doc, hdoc, horg, hdid⟩ := updateDocumentAclTx_target htx
  rw [updateDocumentAclTx_ok htx]
  have ho : Owned s documentId ctx.orgId := by
    refine ⟨hdid ▸ h.docs.fresh doc hdoc, fun d hd he => ?_⟩
    rw [h.docs.eq_of_id hd hdoc (he.trans hdid.symm), horg]
  have hrow := document?_update h ho (f := (·.setAcl acl now)) (fun _ => rfl) id
  rw [← rls_and_org] at hrow
  by_cases hid : id = documentId
  · subst hid
    rw [if_pos rfl, (document?_eq_some h.docs).2 ⟨hdoc, hdid⟩] at hrow
    refine .permitted doc ((document?_eq_some h.docs).2 ⟨hdoc, hdid⟩) hrow ?_
    simp only [Db.chunksOf]
    rw [filter_updateWhere (f := fun c : Chunk => { c with acl }) (fun _ => rfl), updateWhere]
    refine List.map_congr_left fun c hc => ?_
    have hcd : c.documentId = id := by simpa using (List.mem_filter.1 hc).2
    simp [rls, hcd, chunk_org h ho (List.mem_filter.1 hc).1 hcd]
  · rw [if_neg hid] at hrow
    refine .same hrow (filter_updateWhere_of_disjoint ?_ ?_) False.elim <;>
    · intro c hc hp
      simp only [rls, Bool.and_eq_true, beq_iff_eq] at hp
      simp [hp.2.1, Ne.symm hid]

/-- What a deletion does to the row. -/
theorem deleteDocument_document (h : Inv env s) {ctx : AuthContext} {documentId : Uuid} (id : Uuid) :
    Effect s id (.deleteDocument ctx documentId) (step env s (.deleteDocument ctx documentId)) := by
  simp only [step, commit]
  split
  swap
  · exact .same rfl rfl False.elim
  rename_i db' htx
  obtain ⟨doc, hdoc, horg, hdid⟩ := deleteDocumentTx_target htx
  rw [deleteDocumentTx_ok htx]
  by_cases hid : id = documentId
  · subst hid
    have hgone : ∀ d ∈ s.db.documents, d.id = id → d.orgId = ctx.orgId := by
      intro d hd he
      rw [h.docs.eq_of_id hd hdoc (he.trans hdid.symm), horg]
    refine .deleted ?_ ?_
    · rw [document?_eq_none]
      intro d hd he
      obtain ⟨hdm, hp⟩ := mem_deleteWhere.1 hd
      simp [rls, he, hgone d hdm he] at hp
    · simp only [Db.chunksOf, Db.deleteDocuments]
      rw [List.filter_eq_nil_iff]
      intro c hc hcid
      obtain ⟨-, hp⟩ := mem_deleteWhere.1 hc
      rw [List.any_eq_false] at hp
      refine hp doc hdoc ?_
      have : c.documentId = id := by simpa using hcid
      simp [rls, horg, hdid, this]
  · refine .same ?_ ?_ False.elim
    · refine find?_deleteWhere_of_disjoint fun d _ hp => ?_
      simp only [rls, Bool.and_eq_true, beq_iff_eq] at hp
      simp [hp.2.1, Ne.symm hid]
    · refine filter_deleteWhere_of_disjoint fun c _ hp => ?_
      obtain ⟨d, -, hd⟩ := List.any_eq_true.1 hp
      simp only [rls, Bool.and_eq_true, beq_iff_eq] at hd
      simp [← hd.2, hd.1.2.1, Ne.symm hid]

/-- Every step does one of these things to the row with the id. -/
theorem step_document (h : Inv env s) (l : Label) (id : Uuid) : Effect s id l (step env s l) := by
  cases l with
  | sync request precheck orgId source items now => exact sync_document h id
  | enqueue request now =>
    simp only [step]
    split
    · exact .same rfl rfl False.elim
    · split
      · rename_i htx
        rcases enqueuePending_cases htx with ⟨-, rfl⟩ | ⟨-, j, -, -, -, -, -, -, rfl⟩
        · exact .same rfl rfl False.elim
        · exact .same rfl rfl False.elim
      · exact .same rfl rfl False.elim
  | abandon request => exact .same rfl rfl False.elim
  | claim worker locked now =>
    simp only [step]
    split
    · split
      · rename_i htx
        obtain ⟨j, -, -, -, rfl⟩ := claimOne_some htx
        exact .same rfl rfl False.elim
      · exact .same rfl rfl False.elim
    · exact .same rfl rfl False.elim
  | read worker =>
    simp only [step]
    split <;> exact .same rfl rfl False.elim
  | embed worker embedDocuments =>
    simp only [step]
    split
    · split <;> exact .same rfl rfl False.elim
    · exact .same rfl rfl False.elim
  | write worker now => exact write_document h id
  | succeed worker now =>
    simp only [step]
    split <;> exact .same rfl rfl False.elim
  | interrupt worker error => exact .same rfl rfl False.elim
  | fail worker now =>
    simp only [step]
    split
    · split
      · rename_i htx
        rcases markFailed_cases htx with ⟨-, -, rfl⟩ | ⟨j, -, -, -, rfl⟩ | ⟨j, delay, -, -, -, rfl⟩ <;>
          split <;> exact .same rfl rfl False.elim
      · exact .same rfl rfl False.elim
    · exact .same rfl rfl False.elim
  | failDocument worker now => exact failDocument_document h id
  | crash worker => exact .same rfl rfl False.elim
  | updateAcl ctx documentId acl now => exact updateAcl_document h id
  | deleteDocument ctx documentId => exact deleteDocument_document h id

end KnowledgeDesk.Proofs
