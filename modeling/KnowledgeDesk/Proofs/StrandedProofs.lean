import KnowledgeDesk.Lib.Digits
import KnowledgeDesk.Proofs.ReconcileProofs
import KnowledgeDesk.Proofs.StepsProofs

/-!
# Pending documents and the jobs that will ingest them

A pending document is covered while an upload has still to enqueue a job for it, or a queued or running
job of it is in the table that no worker is done with. Two steps can take the cover away: an `enqueue`
that finds its key taken, and a `mark_failed` that dead-letters the job. `pending_covered_step` says
they are the only ones.

When is a key taken? A key names a version of a document: its row, the hash of its content and its
revision (`ingestKey_injective`), and a job is enqueued for versions that were uploaded (`Keyed`). So the
key of a version that has not been uploaded before is free, and a job to enqueue under a free key is
enqueued, unless another of the same version is first (`awaited_step`).
-/

open Table

namespace KnowledgeDesk.Proofs

open Pipeline Runs

variable {env : Env} {s s' : Pipeline}

def Pending (s : Pipeline) (id : Uuid) : Prop :=
  ∃ doc, s.db.document? id = some doc ∧ doc.status = .pending

/-- The job is queued or running. -/
def Live (j : Job) : Prop := j.status = .queued ∨ j.status = .running

/-- No upload is between its document transaction and its last `jobs.enqueue`. -/
def UploadsDone (s : Pipeline) : Prop := ∀ request, s.requests request = []

/-- Every pending document has a queued or running job, whenever no upload is under way. -/
def NoneStranded (s : Pipeline) : Prop :=
  UploadsDone s → ∀ id, Pending s id → ∃ j ∈ s.db.jobs, j.documentId = some id ∧ Live j

/-- A worker has dead-lettered a job of the document, and is about to mark the document failed. -/
def BeingFailed (s : Pipeline) (id : Uuid) : Prop :=
  ∃ worker job seen, s.workers worker = .dead job seen ∧ job.documentId = some id

/-- The same, but for the documents that are being marked failed. -/
def NoneStrandedButFailing (s : Pipeline) : Prop :=
  UploadsDone s → ∀ id, Pending s id →
    (∃ j ∈ s.db.jobs, j.documentId = some id ∧ Live j) ∨ BeingFailed s id

/-- A worker's handler has returned for the job: the worker will only mark it. -/
def Handled (s : Pipeline) (jobId : Uuid) : Prop :=
  ∃ worker job seen, s.workers worker = .handled job seen ∧ job.id = jobId

/-- A queued or running job of the document that no worker is done with. -/
def HasJob (s : Pipeline) (id : Uuid) : Prop :=
  ∃ j ∈ s.db.jobs, j.documentId = some id ∧ Live j ∧ ¬ Handled s j.id

/-- An upload has still to enqueue a job for the document. -/
def ToEnqueue (requests : Nat → List PendingJob) (id : Uuid) : Prop :=
  ∃ request, ∃ p ∈ requests request, p.documentId = id

/-- The document will be ingested or, when `failing`, marked failed. -/
def Covered (failing : Prop) (s : Pipeline) (id : Uuid) : Prop :=
  ToEnqueue s.requests id ∨ HasJob s id ∨ (failing ∧ BeingFailed s id)

/-- The step enqueues a job under a key that is taken, for a pending document that no other upload and
no job covers. -/
def LosesJob (s : Pipeline) : Label → Prop
  | .enqueue request _ => ∃ p rest, s.requests request = p :: rest ∧
      (∃ j ∈ s.db.jobs, j.idempotencyKey = p.idempotencyKey) ∧ Pending s p.documentId ∧
      ¬ ToEnqueue (Function.update s.requests request rest) p.documentId ∧
      ¬ HasJob s p.documentId
  | _ => False

/-- The step is the `mark_failed` of a job of a pending document, and the job has no attempt left. -/
def DeadLetters (s : Pipeline) : Label → Prop
  | .fail worker _ => ∃ job seen error j id, s.workers worker = .raised job seen error ∧
      s.db.job? job.id = some j ∧ j.maxAttempts ≤ j.attempts ∧ job.documentId = some id ∧ Pending s id
  | _ => False

/-- No process dies. -/
def CrashFree : Label → Prop
  | .crash _ | .abandon _ => False
  | _ => True

/-! ## The cover of a pending document -/

/-- A handler is done with a job after a step, where it was before, or its read or write does it. -/
theorem handled_step {l : Label} {jobId : Uuid} (h : Handled (step env s l) jobId) :
    Handled s jobId ∨
    (∃ w job seen, l = .read w ∧ s.workers w = .claimed job ∧ job.id = jobId ∧
      startHandler job s.db = .handled job seen) ∨
    ∃ w now job doc rows, l = .write w now ∧ s.workers w = .embedded job doc rows ∧ job.id = jobId := by
  obtain ⟨w, job, seen, hw, rfl⟩ := h
  have hmove := worker_step env s l w
  rw [hw] at hmove
  generalize hp : Phase.handled job seen = phase at hmove
  cases hmove with
  | stay => exact .inl ⟨w, job, seen, hp.symm, rfl⟩
  | @started job' hph =>
    have hjob := congrArg Phase.job? hp
    rw [startHandler_job] at hjob
    obtain rfl : job = job' := by simpa [Phase.job?] using hjob
    exact .inr (.inl ⟨w, job, seen, rfl, hph, rfl, hp.symm⟩)
  | @written now job' doc rows hph =>
    obtain ⟨rfl, -⟩ : job = job' ∧ seen = some doc := by simpa using hp
    exact .inr (.inr ⟨w, now, job, doc, rows, rfl, hph, rfl⟩)
  | claimed | embedded | marked | raised | buried | requeued | documentFailed | crashed => cases hp

/-- A live job nobody is done with still covers its pending document after a step that does not write
the row, unless the step dead-letters it. -/
theorem hasJob_step (h : Inv env s) (hk : JobsKept s) {id : Uuid} (hp : Pending s id) {l : Label}
    (ht : ¬ Touches s id l) {j : Job} (hm : j ∈ s.db.jobs) (hid : j.documentId = some id) (hl : Live j)
    (hh : ¬ Handled s j.id) :
    HasJob (step env s l) id ∨
    ∃ w now job seen error, l = .fail w now ∧ s.workers w = .raised job seen error ∧ job.id = j.id ∧
      j.maxAttempts ≤ j.attempts := by
  have hh' : ¬ Handled (step env s l) j.id := by
    intro hh'
    rcases handled_step hh' with hh' | ⟨w, job, seen, rfl, hph, hjid, hst⟩ |
      ⟨w, now, job, doc, rows, rfl, hph, hjid⟩
    · exact hh hh'
    · -- the read of a pending document does not end the handler
      have hjd := (worker_documentId h hk (by rw [hph]; rfl) hm hjid).trans hid
      have hown := worker_job h (by rw [hph]; rfl) hjd
      obtain ⟨-, hkind, -⟩ := (h.workers w).job job (by rw [hph]; rfl)
      obtain ⟨doc, hdoc, hpend⟩ := hp
      obtain ⟨hdm, hdid⟩ := (document?_eq_some h.docs).1 hdoc
      simp only [startHandler, hkind, if_true, hjd] at hst
      split at hst
      · rename_i hnone
        exact readDocument_none hnone doc hdm hdid (hown.2 doc hdm hdid)
      · rename_i doc' hread
        obtain ⟨hm', hid', -⟩ := readDocument_some hread
        rw [h.docs.eq_of_id hm' hdm (hid'.trans hdid.symm)] at hst
        simp [hpend] at hst
    · have hjd := (worker_documentId h hk (by rw [hph]; rfl) hm hjid).trans hid
      have hseen := ((h.workers w).seen job doc (by rw [hph]; rfl) (by rw [hph]; rfl)).1
      exact ht ⟨job, doc, rows, hph, Option.some.inj (hseen.symm.trans hjd)⟩
  obtain ⟨j', hm', hc⟩ := job_step h l hm
  have hs := hc.sameJob
  have hcover : Live j' → HasJob (step env s l) id := fun hl' =>
    ⟨j', hm', hs.documentId.trans hid, hl', by rwa [hs.1]⟩
  cases hc with
  | same => exact .inl (hcover hl)
  | claimed => exact .inl (hcover (.inr rfl))
  | succeeded hph hjid => exact absurd ⟨_, _, _, hph, hjid⟩ hh
  | buried hph hjid hmax => exact .inr ⟨_, _, _, _, _, rfl, hph, hjid, hmax⟩
  | requeued => exact .inl (hcover (.inl rfl))

/-- The enqueue of a job under a free key brings the job, unless it raises. -/
theorem enqueue_free (h : Inv env s) {r : Nat} {p : PendingJob} {rest : List PendingJob} (now : Time)
    (hreq : s.requests r = p :: rest) (hfree : ∀ j ∈ s.db.jobs, j.idempotencyKey ≠ p.idempotencyKey) :
    step env s (.enqueue r now) = s ∨ HasJob (step env s (.enqueue r now)) p.documentId := by
  cases htx : enqueuePending env p s.nextId now s.db with
  | error e => exact .inl (by simp [step, hreq, htx])
  | ok res =>
    obtain ⟨created, db'⟩ := res
    have hstep : step env s (.enqueue r now) = ⟨db', s.nextId + 1, s.workers,
        Function.update s.requests r rest⟩ := by
      simp [step, hreq, htx]
    rw [hstep]
    rcases enqueuePending_cases htx with ⟨⟨j, hj, hkey⟩, rfl⟩ | ⟨-, j, hjid, -, -, hpay, hst, -, rfl⟩
    · exact absurd hkey (hfree j hj)
    · refine .inr ⟨j, List.mem_append_right _ List.mem_cons_self, ?_, .inl hst, ?_⟩
      · simp [Job.documentId, hpay]
      · -- no worker can be done with a job whose id was free
        rintro ⟨w, job, seen, hw, he⟩
        have hlt := ((h.workers w).job job (by rw [show s.workers w = _ from hw]; rfl)).1
        lia

/-- The enqueue of a job for a pending document covers it, unless the key is taken and nothing else
covers the document. -/
theorem covered_enqueue (h : Inv env s) {id : Uuid} (hp : Pending s id) {r : Nat} {p : PendingJob}
    {rest : List PendingJob} {now : Time} (hreq : s.requests r = p :: rest) (hid : p.documentId = id)
    (hlose : ¬ LosesJob s (.enqueue r now)) :
    ToEnqueue (step env s (.enqueue r now)).requests id ∨ HasJob (step env s (.enqueue r now)) id := by
  by_cases htaken : ∃ j ∈ s.db.jobs, j.idempotencyKey = p.idempotencyKey
  · by_contra hno
    obtain ⟨hno₁, hno₂⟩ := not_or.1 hno
    cases htx : enqueuePending env p s.nextId now s.db with
    | error e => exact hno₁ ⟨r, p, by simp [step, hreq, htx], hid⟩
    | ok res =>
      obtain ⟨created, db'⟩ := res
      have hstep : step env s (.enqueue r now) = ⟨db', s.nextId + 1, s.workers,
          Function.update s.requests r rest⟩ := by
        simp [step, hreq, htx]
      rw [hstep] at hno₁ hno₂
      rcases enqueuePending_cases htx with ⟨-, rfl⟩ | ⟨hfree, -⟩
      · exact hlose ⟨p, rest, hreq, htaken, hid ▸ hp, hid ▸ hno₁, hid ▸ hno₂⟩
      · obtain ⟨j, hj, hkey⟩ := htaken
        exact hfree j hj hkey
  · have hfree : ∀ j ∈ s.db.jobs, j.idempotencyKey ≠ p.idempotencyKey :=
      fun j hj hkey => htaken ⟨j, hj, hkey⟩
    rcases enqueue_free h now hreq hfree with hstep | hjob
    · exact .inl ⟨r, p, by rw [hstep, hreq]; exact List.mem_cons_self, hid⟩
    · exact .inr (hid ▸ hjob)

/-- A dead-lettered job of a document makes its worker mark the document failed. -/
theorem beingFailed_of_buried (h : Inv env s) (hk : JobsKept s) {w : Nat} {now : Time} {job j : Job}
    {seen : Option Document} {error : Err} {id : Uuid} (hph : s.workers w = .raised job seen error)
    (hm : j ∈ s.db.jobs) (hjid : job.id = j.id) (hmax : j.maxAttempts ≤ j.attempts)
    (hid : j.documentId = some id) : BeingFailed (step env s (.fail w now)) id := by
  have hjob : (s.workers w).job? = some job := by rw [hph]; rfl
  have hfind : s.db.job? job.id = some j := (find?_eq_some_iff h.jobIds).2 ⟨hm, hjid.symm⟩
  have hkind := ((h.workers w).job job hjob).2.1
  refine ⟨w, job, seen, ?_, (worker_documentId h hk hjob hm hjid).trans hid⟩
  simp [step, hph, markFailed, hfind, hmax, hkind, Pipeline.goto]

/-- A job that will be run, or the failure mark it ends in, still covers its pending document after a step
that does not write the row. -/
theorem jobOrFailing_step {failing : Prop} (h : Inv env s) (hk : JobsKept s) {id : Uuid}
    (hp : Pending s id) (hc : HasJob s id ∨ (failing ∧ BeingFailed s id)) {l : Label}
    (ht : ¬ Touches s id l) (hcrash : CrashFree l) (hdead : failing ∨ ¬ DeadLetters s l) :
    HasJob (step env s l) id ∨ (failing ∧ BeingFailed (step env s l) id) := by
  rcases hc with ⟨j, hm, hid, hl, hh⟩ | ⟨hf, w, job, seen, hw, hid⟩
  · rcases hasJob_step h hk hp ht hm hid hl hh with hj | ⟨w, now, job, seen, error, rfl, hph, hjid, hmax⟩
    · exact .inl hj
    · refine .inr ⟨hdead.resolve_right fun hdead => hdead ?_,
        beingFailed_of_buried h hk hph hm hjid hmax hid⟩
      have hfind : s.db.job? job.id = some j := (find?_eq_some_iff h.jobIds).2 ⟨hm, hjid.symm⟩
      have hjd := (worker_documentId h hk (by rw [hph]; rfl) hm hjid).trans hid
      exact ⟨job, seen, error, j, id, hph, hfind, hmax, hjd, hp⟩
  · rcases dead_step env l hw with hw' | ⟨now, rfl⟩ | rfl
    · exact .inr ⟨hf, w, job, seen, hw', hid⟩
    · exact absurd ⟨job, seen, hw, hid⟩ ht
    · exact hcrash.elim

/-- One step: a pending document stays covered, unless the step loses its job or dead-letters it. -/
theorem pending_covered_step {failing : Prop} (h : Inv env s) (hk : JobsKept s) {id : Uuid}
    (hp : Pending s id) (hc : Covered failing s id) {l : Label} (ht : ¬ Touches s id l)
    (hcrash : CrashFree l)
    (hlose : ∀ r now p rest, l = .enqueue r now → s.requests r = p :: rest → p.documentId = id →
      ¬ LosesJob s l)
    (hdead : failing ∨ ¬ DeadLetters s l) :
    Covered failing (step env s l) id := by
  rcases hc with ⟨r, p, hpr, hid⟩ | hc
  · rcases request_step env l hpr with hpr' | ⟨now, rest, rfl, hreq⟩ | rfl
    · exact .inl ⟨r, p, hpr', hid⟩
    · exact (covered_enqueue h hp hreq hid (hlose r now p rest rfl hreq hid)).imp_right .inl
    · exact hcrash.elim
  · exact .inr (jobOrFailing_step h hk hp hc ht hcrash hdead)

/-- One step: a document that is covered while it is pending stays so, unless the step loses its job or
dead-letters it. -/
theorem covered_step {failing : Prop} {id : Uuid} (h : Inv env s) (hk : JobsKept s)
    (hc : Pending s id → Covered failing s id) {l : Label} (hcrash : CrashFree l) (hlose : ¬ LosesJob s l)
    (hdead : failing ∨ ¬ DeadLetters s l) :
    Pending (step env s l) id → Covered failing (step env s l) id := by
  rintro ⟨doc', hdoc', hst⟩
  cases step_document h l id with
  | same hdoc _ hno =>
    rw [hdoc] at hdoc'
    have hp : Pending s id := ⟨doc', hdoc', hst⟩
    exact pending_covered_step h hk hp (hc hp) (fun ht => by simp [hno ht] at hdoc') hcrash
      (fun _ _ _ _ _ _ _ => hlose) hdead
  | uploaded doc₁ hdoc hup _ _ _ =>
    obtain rfl : doc₁ = doc' := by simpa [hdoc] using hdoc'
    obtain ⟨p, hp, he⟩ := hup.queued
    obtain ⟨-, rfl⟩ := (document?_eq_some (step_inv h _).docs).1 hdoc'
    exact .inl ⟨_, p, hp, he⟩
  | dropped _ doc₁ _ _ hdoc _ hstatus _ =>
    obtain rfl : doc₁ = doc' := by simpa [hdoc] using hdoc'
    simp [hstatus] at hst
  | written _ _ _ _ _ hdoc _ | failed _ _ _ _ hdoc _ =>
    obtain ⟨row, -, rfl⟩ := Option.map_eq_some_iff.1 (hdoc ▸ hdoc')
    cases hst
  | permitted d hold hdoc _ =>
    obtain rfl : d.setAcl _ _ = doc' := by simpa [hdoc] using hdoc'
    have hp : Pending s id := ⟨d, hold, hst⟩
    exact pending_covered_step h hk hp (hc hp) (fun ht => ht) hcrash (fun _ _ _ _ _ _ _ => hlose) hdead
  | deleted hdoc _ => simp [hdoc] at hdoc'

/-- A covered document has a queued or running job when no upload is under way. -/
theorem Covered.job {failing : Prop} (hd : UploadsDone s) {id : Uuid} (hc : Covered failing s id) :
    (∃ j ∈ s.db.jobs, j.documentId = some id ∧ Live j) ∨ (failing ∧ BeingFailed s id) := by
  rcases hc with ⟨r, p, hp, -⟩ | ⟨j, hm, hid, hl, -⟩ | hf
  · simp [hd r] at hp
  · exact .inl ⟨j, hm, hid, hl⟩
  · exact .inr hf

/-! ## Keys -/

/-- What an upload asks to be ingested: the row of a document, the hash of its content, its revision. -/
structure Version where
  documentId : Uuid
  contentHash : String
  revision : Nat
  deriving DecidableEq

/-- The key of the job that ingests a version. -/
def Version.key (v : Version) : String := ingestKey v.documentId v.contentHash v.revision

/-- The versions a committed upload asks to be ingested: those of the items it does not find unchanged. -/
def given (env : Env) (s : Pipeline) : Label → List Version
  | .sync request precheck orgId source items now =>
    if s.requests request = [] then
      match syncTx env precheck orgId source items s.nextId now s.db with
      | .ok (_, db) =>
        (items.filter fun i => !isUnchanged env (sourceDocuments orgId source s.db) i).filterMap fun i =>
          (db.documents.find? fun d => d.key == (orgId, source, i.path)).map fun d =>
            ⟨d.id, env.sha256 i.content, d.revision⟩
      | .error _ => []
    else []
  | _ => []

/-- All versions uploaded in a run. -/
def uploadedSoFar (env : Env) (s : Pipeline) (l : Label) (versions : List Version) : List Version :=
  versions ++ given env s l

/-- An upload has still to enqueue a job for the document under a free key, or one is queued or running
that no worker is done with. -/
def Awaited (s : Pipeline) (id : Uuid) : Prop :=
  (∃ r, ∃ p ∈ s.requests r, p.documentId = id ∧ ∀ j ∈ s.db.jobs, j.idempotencyKey ≠ p.idempotencyKey) ∨
    HasJob s id

/-- The versions the step uploads have not been uploaded before, or are of documents that are awaited. -/
def GivesNew (env : Env) (p : Pipeline × List Version) (l : Label) : Prop :=
  ∀ v ∈ given env p.1 l, v ∉ p.2 ∨ Awaited p.1 v.documentId

/-- Every job, and every job to enqueue, is for a version that was uploaded, under its key. -/
structure Keyed (p : Pipeline × List Version) : Prop where
  jobs : ∀ j ∈ p.1.db.jobs, ∃ v ∈ p.2, j.idempotencyKey = v.key ∧ j.documentId = some v.documentId
  requests : ∀ r, ∀ q ∈ p.1.requests r, ∃ v ∈ p.2, q.idempotencyKey = v.key ∧ q.documentId = v.documentId

/-- The key tells versions apart: the id and the revision are written in digits, and the separators are
none, whatever the hash. -/
theorem ingestKey_injective {id id' : Uuid} {hash hash' : String} {revision revision' : Nat}
    (h : ingestKey id hash revision = ingestKey id' hash' revision') :
    id = id' ∧ hash = hash' ∧ revision = revision' := by
  have hcolon : PyText.isDigit ':' = false := by decide
  have hdigits := fun n : Nat => (PyText.digits_toString n).2
  have hchars : ∀ (id : Uuid) (hash : String) (revision : Nat), (ingestKey id hash revision).toList =
      "ingest:".toList ++ ((toString id).toList ++ ':' :: (hash.toList ++ ':' :: (toString revision).toList)) := by
    intro id hash revision
    simp only [ingestKey, String.toList_append, List.append_assoc]
    rfl
  have hlist := List.append_cancel_left ((hchars _ _ _).symm.trans ((congrArg _ h).trans (hchars _ _ _)))
  obtain ⟨hid, hrest⟩ := PyText.digits_cons_inj hcolon (hdigits id) (hdigits id') hlist
  -- the revision, read from the end
  have hback := congrArg List.reverse hrest
  simp only [List.reverse_append, List.reverse_cons, List.append_assoc, List.singleton_append] at hback
  obtain ⟨hrevision, hhash⟩ := PyText.digits_cons_inj hcolon
    (fun c hc => hdigits revision c (List.mem_reverse.1 hc))
    (fun c hc => hdigits revision' c (List.mem_reverse.1 hc)) hback
  exact ⟨PyText.toString_injective hid, String.toList_inj.1 (List.reverse_injective hhash),
    PyText.toString_injective (List.reverse_injective hrevision)⟩

theorem Version.key_injective {v v' : Version} (h : v.key = v'.key) : v = v' := by
  obtain ⟨h₁, h₂, h₃⟩ := ingestKey_injective h
  cases v
  cases v'
  simp_all

/-- The jobs an upload has to enqueue are for the versions it gives. -/
theorem mem_given (h : Inv env s) {request : Nat} {precheck : Db → Except Err Unit} {orgId : Uuid}
    {source : String} {items : List Item} {now : Time} {result : SyncResult} {jobs : List PendingJob}
    {db' : Db} (hidle : s.requests request = [])
    (htx : syncTx env precheck orgId source items s.nextId now s.db = .ok ((result, jobs), db'))
    {p : PendingJob} (hp : p ∈ jobs) :
    ∃ v ∈ given env s (.sync request precheck orgId source items now),
      p.idempotencyKey = v.key ∧ p.documentId = v.documentId := by
  obtain ⟨acc, hs, rfl, -⟩ := syncTx_synced h.docs htx
  obtain ⟨i, hi, hchanged, doc, hdoc, hkey, rfl⟩ := hs.queued hp
  have hfind : db'.documents.find? (fun d => d.key == (orgId, source, i.path)) = some doc :=
    (find?_eq_some_iff (syncTx_spec h.docs htx).docs.keys).2 ⟨hdoc, hkey⟩
  refine ⟨⟨doc.id, env.sha256 i.content, doc.revision⟩, ?_, rfl, rfl⟩
  simp only [given, hidle, htx, if_true, List.mem_filterMap, List.mem_filter]
  exact ⟨i, ⟨hi, by simp [hchanged]⟩, by simp [hfind]⟩

/-- Every step keeps the keys those of versions that were uploaded. -/
theorem keyed_step {p : Pipeline × List Version} (h : Inv env p.1) (hk : Keyed p) (l : Label) :
    Keyed (noted (step env) (uploadedSoFar env) p l) := by
  obtain ⟨s, versions⟩ := p
  refine ⟨fun j' hj' => ?_, fun r q hq => ?_⟩
  · rcases job_origin h l hj' with ⟨j, hj, hkey, hid⟩ | ⟨r, now, q, rest, rfl, hreq, hkey, hid⟩
    · obtain ⟨v, hv, hjk, hjd⟩ := hk.jobs j hj
      exact ⟨v, List.mem_append_left _ hv, hkey.trans hjk, hid.trans hjd⟩
    · obtain ⟨v, hv, hqk, hqd⟩ := hk.requests r q (hreq ▸ List.mem_cons_self)
      exact ⟨v, List.mem_append_left _ hv, hkey.trans hqk, by rw [hid, hqd]⟩
  · rcases request_origin env s l hq with hq | ⟨_, _, _, _, _, _, jobs, _, rfl, hidle, htx, -, hq⟩
    · obtain ⟨v, hv, hqv⟩ := hk.requests r q hq
      exact ⟨v, List.mem_append_left _ hv, hqv⟩
    · obtain ⟨v, hv, hqv⟩ := mem_given h hidle htx hq
      exact ⟨v, List.mem_append_right _ hv, hqv⟩

/-- A document that is awaited stays so over an upload. -/
theorem awaited_sync (h : Inv env s) {id : Uuid} (ha : Awaited s id) {request : Nat}
    {precheck : Db → Except Err Unit} {orgId : Uuid} {source : String} {items : List Item} {now : Time} :
    Awaited (step env s (.sync request precheck orgId source items now)) id := by
  have hjobs := sync_jobs h request precheck orgId source items now
  rcases ha with ⟨r, p, hp, hid, hfree⟩ | ⟨j, hj, hid, hlive, hh⟩
  · rcases request_step env (.sync request precheck orgId source items now) hp with hp' | ⟨_, _, hl, -⟩ | hl
    · exact .inl ⟨r, p, hp', hid, by rwa [hjobs]⟩
    · cases hl
    · cases hl
  · refine .inr ⟨j, by rwa [hjobs], hid, hlive, fun hh' => ?_⟩
    rcases handled_step hh' with hh' | ⟨_, _, _, hl, -⟩ | ⟨_, _, _, _, _, hl, -⟩
    · exact hh hh'
    · cases hl
    · cases hl

/-- A document an upload has set pending is awaited, if what it gives is new. -/
theorem awaited_uploaded {versions : List Version} (h : Inv env s) (hk : Keyed (s, versions)) {request : Nat}
    {precheck : Db → Except Err Unit} {orgId : Uuid} {source : String} {items : List Item} {now : Time}
    (hidle : s.requests request = [])
    (hnew : GivesNew env (s, versions) (.sync request precheck orgId source items now)) {p : PendingJob}
    (hp : p ∈ (step env s (.sync request precheck orgId source items now)).requests request) :
    Awaited (step env s (.sync request precheck orgId source items now)) p.documentId := by
  rcases request_origin env s _ hp with hp' | ⟨_, _, _, _, _, _, jobs, _, hl, -, htx, -, hpj⟩
  · simp [hidle] at hp'
  · cases hl
    obtain ⟨v, hv, hkey, hid⟩ := mem_given h hidle htx hpj
    rcases hnew v hv with hfresh | ha
    · refine .inl ⟨request, p, hp, rfl, fun j hj hjkey => hfresh ?_⟩
      rw [sync_jobs h] at hj
      obtain ⟨v', hv', hjv, -⟩ := hk.jobs j hj
      rwa [Version.key_injective (hkey.symm.trans (hjkey.symm.trans hjv))]
    · rw [hid]
      exact awaited_sync h ha

/-- One step: a pending document stays awaited, or is being marked failed. The only thing that can take the
key of a job to enqueue is a job for the same version. -/
theorem awaited_step {failing : Prop} {versions : List Version} (h : Inv env s) (hj : JobsKept s)
    (hk : Keyed (s, versions)) {id : Uuid} (hp : Pending s id)
    (ha : Awaited s id ∨ (failing ∧ BeingFailed s id)) {l : Label} (ht : ¬ Touches s id l)
    (hcrash : CrashFree l) (hdead : failing ∨ ¬ DeadLetters s l) :
    Awaited (step env s l) id ∨ (failing ∧ BeingFailed (step env s l) id) := by
  have hcovered : HasJob s id ∨ (failing ∧ BeingFailed s id) →
      Awaited (step env s l) id ∨ (failing ∧ BeingFailed (step env s l) id) := fun hc =>
    (jobOrFailing_step h hj hp hc ht hcrash hdead).imp_left .inr
  rcases ha with (⟨r, p, hpr, hid, hfree⟩ | hjob) | hfailing
  · -- an enqueue under the key is for the same document
    have henqueue : ∀ r' now p' rest, l = .enqueue r' now → s.requests r' = p' :: rest →
        p'.idempotencyKey = p.idempotencyKey →
        step env s l = s ∨ HasJob (step env s l) id := by
      rintro r' now p' rest rfl hreq hkey
      obtain ⟨v, -, hv, hd⟩ := hk.requests r p hpr
      obtain ⟨v', -, hv', hd'⟩ := hk.requests r' p' (hreq ▸ List.mem_cons_self)
      have hsame : p'.documentId = id := by
        rw [hd', Version.key_injective (hv'.symm.trans (hkey.trans hv)), ← hd, hid]
      exact hsame ▸ enqueue_free h now hreq fun j hj => hkey ▸ hfree j hj
    have hback : step env s l = s → Awaited (step env s l) id := fun hs => by
      rw [hs]
      exact .inl ⟨r, p, hpr, hid, hfree⟩
    rcases request_step env l hpr with hpr' | ⟨now, rest, hl, hreq⟩ | rfl
    · by_cases htaken : ∃ j' ∈ (step env s l).db.jobs, j'.idempotencyKey = p.idempotencyKey
      · obtain ⟨j', hj', hkey⟩ := htaken
        rcases job_origin h l hj' with ⟨j, hjm, hjk, -⟩ | ⟨r', now, p', rest, hl, hreq, hjk, -⟩
        · exact absurd (hjk.symm.trans hkey) (hfree j hjm)
        · exact .inl ((henqueue r' now p' rest hl hreq (hjk.symm.trans hkey)).elim hback .inr)
      · exact .inl (.inl ⟨r, p, hpr', hid, fun j' hj' hkey => htaken ⟨j', hj', hkey⟩⟩)
    · exact .inl ((henqueue r now p rest hl hreq rfl).elim hback .inr)
    · exact hcrash.elim
  · exact hcovered (.inl hjob)
  · exact hcovered (.inr hfailing)

/-- The same for whatever is pending after the step. -/
theorem pending_awaited_step {failing : Prop} {versions : List Version} (h : Inv env s) (hj : JobsKept s)
    (hk : Keyed (s, versions)) {id : Uuid}
    (ha : Pending s id → Awaited s id ∨ (failing ∧ BeingFailed s id)) {l : Label} (hcrash : CrashFree l)
    (hnew : GivesNew env (s, versions) l) (hdead : failing ∨ ¬ DeadLetters s l) :
    Pending (step env s l) id → Awaited (step env s l) id ∨ (failing ∧ BeingFailed (step env s l) id) := by
  rintro ⟨doc', hdoc', hst⟩
  cases step_document h l id with
  | same hdoc _ hno =>
    rw [hdoc] at hdoc'
    have hp : Pending s id := ⟨doc', hdoc', hst⟩
    exact awaited_step h hj hk hp (ha hp) (fun ht => by simp [hno ht] at hdoc') hcrash hdead
  | @uploaded request precheck orgId source items now _ doc₁ hdoc hup _ _ _ =>
    by_cases hidle : s.requests request = []
    · obtain rfl : doc₁ = doc' := by simpa [hdoc] using hdoc'
      obtain ⟨p, hp, he⟩ := hup.queued
      obtain ⟨-, rfl⟩ := (document?_eq_some (step_inv h _).docs).1 hdoc'
      exact .inl (he ▸ awaited_uploaded h hk hidle hnew hp)
    · -- an upload that is still under way starts no second one
      have hstep : step env s (.sync request precheck orgId source items now) = s := by simp [step, hidle]
      rw [hstep] at hdoc' ⊢
      exact ha ⟨doc', hdoc', hst⟩
  | dropped _ doc₁ _ _ hdoc _ hstatus _ =>
    obtain rfl : doc₁ = doc' := by simpa [hdoc] using hdoc'
    simp [hstatus] at hst
  | written _ _ _ _ _ hdoc _ | failed _ _ _ _ hdoc _ =>
    obtain ⟨row, -, rfl⟩ := Option.map_eq_some_iff.1 (hdoc ▸ hdoc')
    cases hst
  | permitted d hold hdoc _ =>
    obtain rfl : d.setAcl _ _ = doc' := by simpa [hdoc] using hdoc'
    have hp : Pending s id := ⟨d, hold, hst⟩
    exact awaited_step h hj hk hp (ha hp) (fun ht => ht) hcrash hdead
  | deleted hdoc _ => simp [hdoc] at hdoc'

/-- What an awaited document has when no upload is under way. -/
theorem Awaited.job (hd : UploadsDone s) {id : Uuid} (ha : Awaited s id) :
    ∃ j ∈ s.db.jobs, j.documentId = some id ∧ Live j := by
  rcases ha with ⟨r, p, hp, -⟩ | ⟨j, hm, hid, hl, -⟩
  · simp [hd r] at hp
  · exact ⟨j, hm, hid, hl⟩

/-- A run whose uploads give new versions keeps every pending document awaited, or being marked failed. -/
theorem awaited_run (failing : Prop) {db : Db} {n : Uuid} {ls : List Label} (hd : db.documents = [])
    (hc : db.chunks = []) (hj : db.jobs = []) (hcrash : ∀ l ∈ ls, CrashFree l)
    (hnew : EachStep (noted (step env) (uploadedSoFar env)) (GivesNew env) (atRest db n, []) ls)
    (hdead : failing ∨ EachStep (step env) (fun s l => ¬ DeadLetters s l) (atRest db n) ls) :
    Throughout (step env)
      (fun s => ∀ id, Pending s id → Awaited s id ∨ (failing ∧ BeingFailed s id)) (atRest db n) ls := by
  have hstart : Reachable env (atRest db n) := ⟨db, n, [], hd, hc, hj, rfl⟩
  have hletters : EachStep (noted (step env) (uploadedSoFar env)) (fun p l => failing ∨ ¬ DeadLetters p.1 l)
      (atRest db n, []) ls := by
    rcases hdead with hf | hdead
    · exact eachStep_of_labels fun _ _ _ => .inl hf
    · exact (eachStep_noted hdead).mono fun _ _ h => .inr h
  refine throughout_of_noted (I := fun p => Inv env p.1 ∧ JobsKept p.1 ∧ Keyed p ∧
    ∀ id, Pending p.1 id → Awaited p.1 id ∨ (failing ∧ BeingFailed p.1 id)) (fun p l hp hl => ?_)
    (fun p hp => hp.2.2.2) ⟨inv_of_reachable hstart, jobsKept_of_reachable hstart, ⟨?_, ?_⟩, ?_⟩
    (eachStep_and.2 ⟨eachStep_label.2 hcrash, eachStep_and.2 ⟨hnew, hletters⟩⟩)
  · obtain ⟨hinv, hkept, hkeyed, ha⟩ := hp
    exact ⟨step_inv hinv l, jobsKept_step hinv hkept l, keyed_step hinv hkeyed l,
      fun id => pending_awaited_step hinv hkept hkeyed (ha id) hl.1 hl.2.1 hl.2.2⟩
  · simp [atRest, hj]
  · simp [atRest]
  · rintro id ⟨doc, hdoc, -⟩
    simp [Db.document?, atRest, hd] at hdoc

/-- No document is stranded: in a crash-free run in which an upload sets a document pending only with a
content that the document was not uploaded with before, since it was last dropped, or while it is awaited
anyway, every pending document has a queued or running job or is being marked failed, whenever no upload
is under way; and it has a job, if no `mark_failed` dead-letters one of a pending document. -/
theorem none_stranded_of_new_contents {db : Db} {n : Uuid} {ls : List Label} (hd : db.documents = [])
    (hc : db.chunks = []) (hj : db.jobs = []) (hcrash : ∀ l ∈ ls, CrashFree l)
    (hnew : EachStep (noted (step env) (uploadedSoFar env)) (GivesNew env) (atRest db n, []) ls) :
    Throughout (step env) NoneStrandedButFailing (atRest db n) ls ∧
      (EachStep (step env) (fun s l => ¬ DeadLetters s l) (atRest db n) ls →
        Throughout (step env) NoneStranded (atRest db n) ls) := by
  constructor
  · refine (awaited_run True hd hc hj hcrash hnew (.inl trivial)).mono fun s hs hdone id hp => ?_
    exact (hs id hp).imp (·.job hdone) And.right
  · intro hdead
    refine (awaited_run False hd hc hj hcrash hnew (.inr hdead)).mono fun s hs hdone id hp => ?_
    exact ((hs id hp).resolve_right fun hf => hf.1).job hdone

/-- A first upload, its edit, its drop and a new upload of the first content, each ingested. -/
def reupload : List Label :=
  [upload 0 [⟨"a.txt", "alpha", none⟩] (seconds 1), .enqueue 0 (seconds 2)] ++ process 0 (seconds 3) ++
  [upload 0 [⟨"a.txt", "beta", none⟩] (seconds 4), .enqueue 0 (seconds 5)] ++ process 0 (seconds 6) ++
  [upload 0 [] (seconds 7), upload 0 [⟨"a.txt", "alpha", none⟩] (seconds 8), .enqueue 0 (seconds 9)] ++
  process 0 (seconds 10)

/-- The drop has moved the revision, so the first content is new again. -/
theorem none_stranded_after_reupload :
    Throughout (step (asciiEnv digest)) NoneStranded oneOrg reupload := by
  have hnew : EachStep (noted (step (asciiEnv digest)) (uploadedSoFar (asciiEnv digest)))
      (fun p l => ∀ v ∈ given (asciiEnv digest) p.1 l, v ∉ p.2) (oneOrg, []) reupload := by
    decide
  have hrun := @none_stranded_of_new_contents (asciiEnv digest) oneOrg.db 10 reupload rfl rfl rfl
    (by simp [reupload, process, prepare, upload, CrashFree]) (hnew.mono fun _ _ h v hv => .inl (h v hv))
  exact hrun.2 (eachStep_of_labels (by simp [reupload, process, prepare, upload, DeadLetters]))

/-- An upload, its edit, and the edit back to the first content, each but the last ingested. -/
def editBack : List Label :=
  [upload 0 [⟨"a.txt", "alpha", none⟩] (seconds 1), .enqueue 0 (seconds 2)] ++ process 0 (seconds 3) ++
  [upload 0 [⟨"a.txt", "beta", none⟩] (seconds 4), .enqueue 0 (seconds 5)] ++ process 0 (seconds 6) ++
  [upload 0 [⟨"a.txt", "alpha", none⟩] (seconds 7), .enqueue 0 (seconds 8)]

/-- An edit back to earlier content strands the document: the key of its job is that of the first
upload's job, so nothing is enqueued. -/
theorem edit_back_strands :
    (∀ l ∈ editBack, CrashFree l) ∧
      ¬ Throughout (step (asciiEnv digest)) NoneStranded oneOrg editBack := by
  refine ⟨by simp [editBack, process, prepare, upload, CrashFree], fun h => ?_⟩
  have hdone : UploadsDone (run (step (asciiEnv digest)) oneOrg editBack) := by
    intro r
    by_cases hr : r = 0
    · subst hr
      decide
    · have hne : ∀ l ∈ editBack, uploadOf l ≠ some r := by
        simp [editBack, process, prepare, upload, uploadOf, Ne.symm hr]
      rw [requests_run_of_ne _ _ hne]
      rfl
  have hpending : Pending (run (step (asciiEnv digest)) oneOrg editBack) 10 :=
    ⟨{ inFlight with updatedAt := seconds 7 }, by decide, rfl⟩
  obtain ⟨j, hj, -, hlive⟩ := h.last hdone 10 hpending
  have hover : ∀ j ∈ (run (step (asciiEnv digest)) oneOrg editBack).db.jobs, j.status = .succeeded := by
    decide
  rcases hlive with hlive | hlive <;> simp [hover j hj] at hlive

end KnowledgeDesk.Proofs
