import KnowledgeDesk.Proofs.StepsProofs

/-!
# Deletion: how long a tombstone lasts

A row dropped by an upload stays a tombstone without chunks under every step but two: a worker's write of
it, and its failure mark. The handler ends where it reads a tombstone, so a worker that writes one has
read the row before the drop (`ReadBefore`); and a document is marked failed only after a `mark_failed`
has found no attempt left for one of its jobs.
-/

open Table

namespace KnowledgeDesk.Proofs

open Pipeline Runs

variable {env : Env} {s : Pipeline}

/-- The document with this id is deleted, and owns no chunks. -/
def Tombstoned (id : Uuid) (s : Pipeline) : Prop :=
  (∃ doc, s.db.document? id = some doc ∧ doc.status = .deleted) ∧ s.db.chunksOf id = []

/-- An upload of the document's org and source that names its path. -/
def Reuploads (doc : Document) : Label → Prop
  | .sync _ _ orgId source items _ =>
    orgId = doc.orgId ∧ source = doc.source ∧ ∃ i ∈ items, i.path = doc.path
  | _ => False

/-- A deletion of the row itself. -/
def Deletes (id : Uuid) : Label → Prop
  | .deleteDocument _ documentId => documentId = id
  | _ => False

/-- No row with this id is, or will be, of another path than `doc`. -/
def KeyOf (doc : Document) (s : Pipeline) : Prop :=
  doc.id < s.nextId ∧ ∀ d, s.db.document? doc.id = some d → d.key = doc.key

theorem KeyOf.step (h : Inv env s) {doc : Document} (hk : KeyOf doc s) (l : Label) :
    KeyOf doc (step env s l) := by
  refine ⟨Nat.lt_of_lt_of_le hk.1 (nextId_le_step s l), fun d hd => ?_⟩
  cases step_document h l doc.id with
  | same hdoc _ _ => exact hk.2 d (hdoc ▸ hd)
  | uploaded doc' hdoc hup hold hnew _ =>
    obtain rfl : doc' = d := by simpa [hdoc] using hd
    cases hs : s.db.document? doc.id with
    | none => exact absurd hk.1 (Nat.not_lt.2 (hnew hs))
    | some d₀ => exact (hold d₀ hs).symm.trans (hk.2 d₀ hs)
  | dropped d₀ d' hold _ hdoc hkey _ _ =>
    obtain rfl : d' = d := by simpa [hdoc] using hd
    exact hkey.trans (hk.2 d₀ hold)
  | written job d₀ rows _ _ hdoc _ =>
    obtain ⟨d₁, hd₁, rfl⟩ := Option.map_eq_some_iff.1 (hdoc ▸ hd)
    exact hk.2 d₁ hd₁
  | failed job seen _ _ hdoc _ =>
    obtain ⟨d₁, hd₁, rfl⟩ := Option.map_eq_some_iff.1 (hdoc ▸ hd)
    exact hk.2 d₁ hd₁
  | permitted d₀ hold hdoc _ =>
    obtain rfl : d₀.setAcl _ _ = d := by simpa [hdoc] using hd
    exact hk.2 d₀ hold
  | deleted hdoc _ => simp [hdoc] at hd

/-- One step: the tombstone stays unless a worker updates the row. -/
theorem tombstoned_step (h : Inv env s) {doc : Document} (hk : KeyOf doc s)
    (ht : Tombstoned doc.id s) {l : Label} (hl : ¬ Reuploads doc l ∧ ¬ Deletes doc.id l) :
    Tombstoned doc.id (step env s l) ↔ ¬ Touches s doc.id l := by
  obtain ⟨⟨d, hd, hst⟩, hc⟩ := ht
  cases step_document h l doc.id with
  | same hdoc hchunks hno =>
    refine ⟨fun _ ht => ?_, fun _ => ⟨⟨d, hdoc.trans hd, hst⟩, hchunks.trans hc⟩⟩
    simp [hno ht] at hd
  | uploaded doc' hdoc hup hold _ _ =>
    have hkey : doc'.key = doc.key := (hold d hd).symm.trans (hk.2 d hd)
    simp only [Document.key, Prod.mk.injEq] at hkey
    obtain ⟨i, hi, hp⟩ := hup.named
    exact absurd ⟨hup.org.symm.trans hkey.1, hup.source.symm.trans hkey.2.1, i, hi,
      hp.trans hkey.2.2⟩ hl.1
  | dropped d₀ doc' hold hmiss _ _ _ _ =>
    obtain rfl : d₀ = d := Option.some.inj (hold.symm.trans hd)
    exact absurd hst hmiss.2.2.2
  | written job d₀ rows hphase hid hdoc _ =>
    refine ⟨fun ht' => ?_, fun hn => absurd ⟨job, d₀, rows, hphase, hid⟩ hn⟩
    obtain ⟨⟨d', hd', hst'⟩, -⟩ := ht'
    simp only [hdoc, hd, Option.map_some, Option.some.injEq] at hd'
    rw [← hd'] at hst'
    cases hst'
  | failed job seen hphase hid hdoc _ =>
    refine ⟨fun ht' => ?_, fun hn => absurd ⟨job, seen, hphase, hid⟩ hn⟩
    obtain ⟨⟨d', hd', hst'⟩, -⟩ := ht'
    simp only [hdoc, hd, Option.map_some, Option.some.injEq] at hd'
    rw [← hd'] at hst'
    cases hst'
  | permitted d₀ hold hdoc hchunks =>
    obtain rfl : d₀ = d := Option.some.inj (hold.symm.trans hd)
    exact ⟨fun _ => id, fun _ => ⟨⟨_, hdoc, hst⟩, by rw [hchunks, hc, List.map_nil]⟩⟩
  | deleted _ _ => exact absurd rfl hl.2

/-- The upload that drops a document leaves a tombstone. -/
theorem tombstoned_sync (h : Inv env s) {request : Nat} {precheck : Db → Except Err Unit}
    {orgId : Uuid} {source : String} {items : List Item} {now : Time}
    (hidle : s.requests request = [])
    (hok : (syncTx env precheck orgId source items s.nextId now s.db).isOk = true) {doc : Document}
    (hmissing : doc ∈ missing (sourceDocuments orgId source s.db) items) :
    Tombstoned doc.id (step env s (.sync request precheck orgId source items now)) := by
  obtain ⟨hdoc, hmiss⟩ := mem_missing.1 hmissing
  cases htx : syncTx env precheck orgId source items s.nextId now s.db with
  | error e => simp [htx, Except.isOk, Except.toBool] at hok
  | ok r =>
    obtain ⟨⟨result, jobs⟩, db'⟩ := r
    have hspec := syncTx_spec h.docs htx
    have hdb : (step env s (.sync request precheck orgId source items now)).db = db' := by
      simp [step, hidle, htx]
    rw [Tombstoned, hdb]
    refine ⟨?_, chunksOf_dropped h hspec hdoc hmiss⟩
    obtain ⟨doc', hdoc', he⟩ := hspec.kept doc hdoc
    refine ⟨doc', (document?_eq_some hspec.docs).2 ⟨hdoc', he⟩, ?_⟩
    rcases hspec.rows doc' hdoc' with ⟨hold, hn⟩ | ⟨hup, ⟨old, hom, hoid, hkey⟩ | ⟨hge, -⟩⟩ |
      ⟨_, _, _, _, _, hst⟩
    · rw [h.docs.eq_of_id hold hdoc he] at hn
      exact absurd hmiss hn
    · rw [h.docs.eq_of_id hom hdoc (hoid.trans he)] at hkey
      obtain ⟨i, hi, hp⟩ := hup.named
      exact absurd (hp.trans (congrArg (fun k => k.2.2) hkey).symm) (hmiss.2.2.1 i hi)
    · have := h.docs.fresh doc hdoc
      lia
    · exact hst

/-- Who holds the document for writing held it at the drop already. -/
def ReadBefore (drop s : Pipeline) (id : Uuid) : Prop :=
  ∀ w job doc, s.workers w = .loaded job doc ∨ (∃ rows, s.workers w = .embedded job doc rows) →
    doc.id = id → (drop.workers w).job? = some job ∧ (drop.workers w).seen = some doc

/-- No worker is about to mark the document failed. -/
def NoneFailing (s : Pipeline) (id : Uuid) : Prop :=
  ∀ w job seen, s.workers w = .dead job seen → job.documentId ≠ some id

/-- The step is the write of a worker that had read the document, for this job, before the drop. -/
def WritesStale (drop : Pipeline) (id : Uuid) (s : Pipeline) : Label → Prop
  | .write w _ => ∃ job doc rows, s.workers w = .embedded job doc rows ∧ doc.id = id ∧
      (drop.workers w).job? = some job ∧ (drop.workers w).seen = some doc
  | _ => False

/-- The step is the `mark_failed` of a job of the document, and the job has no attempt left. -/
def GivesUp (id : Uuid) (s : Pipeline) : Label → Prop
  | .fail w _ => ∃ job seen error j, s.workers w = .raised job seen error ∧ job.documentId = some id ∧
      s.db.job? job.id = some j ∧ j.maxAttempts ≤ j.attempts
  | _ => False

/-- While the tombstone stands, no worker comes to hold the document for writing. -/
theorem readBefore_step {drop : Pipeline} {id : Uuid} (h : Inv env s) (ht : Tombstoned id s)
    (hr : ReadBefore drop s id) (l : Label) : ReadBefore drop (step env s l) id := by
  intro w job doc hphase hid
  have hmove := worker_step env s l w
  generalize (step env s l).workers w = phase at hphase hmove
  cases hmove with
  | stay => exact hr w job doc hphase hid
  | @started job' hph =>
    -- what the handler reads of the document is the tombstone
    exfalso
    obtain ⟨⟨d, hd, hst⟩, -⟩ := ht
    obtain ⟨hdm, hdid⟩ := (document?_eq_some h.docs).1 hd
    simp only [startHandler] at hphase
    repeat' split at hphase
    all_goals try simp at hphase
    rename_i _ _ hread hlive
    obtain ⟨rfl, rfl⟩ := hphase
    obtain ⟨hm, -, -⟩ := readDocument_some hread
    rw [h.docs.eq_of_id hm hdm (hid.trans hdid.symm)] at hlive
    exact hlive hst
  | @embedded _ job' doc' rows hph =>
    obtain ⟨rfl, rfl⟩ : job' = job ∧ doc' = doc := by simpa using hphase
    exact hr w job' doc' (.inl hph) hid
  | claimed | written | marked | raised | buried | requeued | documentFailed | crashed =>
    simp at hphase

/-- Only a `mark_failed` that finds no attempt left makes a worker mark the document failed. -/
theorem noneFailing_step {id : Uuid} (h : Inv env s) (hk : JobsKept s) (hn : NoneFailing s id) {l : Label}
    (hl : ¬ GivesUp id s l) : NoneFailing (step env s l) id := by
  intro w job seen hphase hid
  have hmove := worker_step env s l w
  generalize hp : (step env s l).workers w = phase at hphase hmove
  cases hmove with
  | stay => exact hn w job seen hphase hid
  | @buried _ job' _ _ hph hspent =>
    obtain ⟨rfl, -⟩ : job' = job ∧ _ := by simpa using hphase
    obtain ⟨j, hm, hs⟩ := hk w job' (by rw [hph]; rfl)
    have hj : s.db.job? job'.id = some j := (Table.find?_eq_some_iff h.jobIds).2 ⟨hm, hs.1.symm⟩
    exact hl ⟨job', _, _, j, hph, hid, hj, hspent j hj⟩
  | @started job' hph =>
    unfold startHandler at hphase
    repeat' split at hphase
    all_goals cases hphase
  | claimed | embedded | written | marked | raised | requeued | documentFailed | crashed => cases hphase

theorem noneFailing_run {id : Uuid} (h : Inv env s) (hk : JobsKept s) (hn : NoneFailing s id)
    {ls : List Label} (hls : EachStep (step env) (fun s l => ¬ GivesUp id s l) s ls) :
    NoneFailing (run (step env) s ls) id :=
  (throughout_of_eachStep (P := fun s => Inv env s ∧ JobsKept s ∧ NoneFailing s id)
    (fun _ l hp hl => ⟨step_inv hp.1 l, jobsKept_step hp.1 hp.2.1 l, noneFailing_step hp.1 hp.2.1 hp.2.2 hl⟩)
    ⟨h, hk, hn⟩ hls).last.2.2

/-- Deletion until re-upload: from the drop on, in a run that neither uploads the path again nor deletes
the row, the tombstone stands in every state, if no worker writes what it read before the drop, and no
`mark_failed` finds that a job of the document has no attempt left (nor has found it before the drop,
with the document still to be marked). -/
theorem tombstone_stands_unless_stale (hs : Reachable env s) {request : Nat}
    {precheck : Db → Except Err Unit} {orgId : Uuid} {source : String} {items : List Item} {now : Time}
    (hidle : s.requests request = [])
    (hok : (syncTx env precheck orgId source items s.nextId now s.db).isOk = true) {doc : Document}
    (hmissing : doc ∈ missing (sourceDocuments orgId source s.db) items)
    (hfailing : NoneFailing s doc.id) {ls : List Label}
    (hls : ∀ l ∈ ls, ¬ Reuploads doc l ∧ ¬ Deletes doc.id l)
    (hsteps : EachStep (step env) (fun t l => ¬ WritesStale s doc.id t l ∧ ¬ GivesUp doc.id t l)
      (step env s (.sync request precheck orgId source items now)) ls) :
    Throughout (step env) (Tombstoned doc.id)
      (step env s (.sync request precheck orgId source items now)) ls := by
  have hinv := inv_of_reachable hs
  have hkept := jobsKept_of_reachable hs
  have hdoc := (mem_missing.1 hmissing).1
  have hk : KeyOf doc s := by
    refine ⟨hinv.docs.fresh doc hdoc, fun d hd => ?_⟩
    obtain ⟨hm, he⟩ := (document?_eq_some hinv.docs).1 hd
    rw [hinv.docs.eq_of_id hm hdoc he]
  -- the upload moves no worker
  have hworkers : (step env s (.sync request precheck orgId source items now)).workers = s.workers := by
    simp only [step]
    repeat' split
    all_goals rfl
  have hread : ReadBefore s (step env s (.sync request precheck orgId source items now)) doc.id := by
    intro w job d hphase _
    rw [hworkers] at hphase
    rcases hphase with hph | ⟨rows, hph⟩ <;> simp [hph, Phase.job?, Phase.seen]
  have hfail : NoneFailing (step env s (.sync request precheck orgId source items now)) doc.id := by
    simpa [NoneFailing, hworkers] using hfailing
  refine (throughout_of_eachStep (P := fun t => (Inv env t ∧ JobsKept t ∧ KeyOf doc t) ∧
    ReadBefore s t doc.id ∧ NoneFailing t doc.id ∧ Tombstoned doc.id t) (fun t l hp hl => ?_)
    ⟨⟨step_inv hinv _, jobsKept_step hinv hkept _, hk.step hinv _⟩, hread, hfail,
      tombstoned_sync hinv hidle hok hmissing⟩
    (eachStep_and.2 ⟨eachStep_label.2 hls, hsteps⟩)).mono fun _ h => h.2.2.2
  obtain ⟨⟨hi, hj, hkey⟩, hr, hn, ht⟩ := hp
  have hnot : ¬ Touches t doc.id l := by
    cases l with
    | write w now =>
      rintro ⟨job, d, rows, hph, hid⟩
      exact hl.2.1 ⟨job, d, rows, hph, hid, hr w job d (.inr ⟨rows, hph⟩) hid⟩
    | failDocument w now =>
      rintro ⟨job, seen, hph, hid⟩
      exact hn w job seen hph hid
    | _ => exact id
  exact ⟨⟨step_inv hi l, jobsKept_step hi hj l, hkey.step hi l⟩, readBefore_step hi ht hr l,
    noneFailing_step hi hj hn hl.2.2, (tombstoned_step hi hkey ht hl.1).2 hnot⟩

/-- An upload drops the document while a worker embeds it, and the worker's process dies. When the claim
has gone stale another worker reclaims the job, reads the tombstone, and has nothing to write. -/
theorem tombstone_stands_after_reclaim :
    Throughout (step (asciiEnv digest)) (Tombstoned 10)
      (step (asciiEnv digest) embeddedInFlight (upload 0 [] (seconds 4)))
      [.crash 0, .claim 1 unlocked (seconds 4000), .read 1, .succeed 1 (seconds 4001)] := by
  have hstart : Reachable (asciiEnv digest) oneOrg := ⟨_, _, [], rfl, rfl, rfl, rfl⟩
  have hfailing : NoneFailing embeddedInFlight inFlight.id :=
    noneFailing_run (inv_of_reachable hstart) (jobsKept_of_reachable hstart)
      (fun w job seen hw => by cases hw) ⟨id, id, id, id, id, trivial⟩
  exact @tombstone_stands_unless_stale (asciiEnv digest) embeddedInFlight reachable_embeddedInFlight 0
    (fun _ => .ok ()) 1 "upload" [] (seconds 4) (by decide) (by decide) inFlight (by decide) hfailing
    _ (by simp [Reuploads, Deletes]) ⟨⟨id, id⟩, ⟨id, id⟩, ⟨id, id⟩, ⟨id, id⟩, trivial⟩

/-- An upload drops the document while a worker embeds it: the worker's write ingests the tombstone. -/
theorem write_revives_tombstone :
    Reachable (asciiEnv digest) embeddedInFlight ∧
      inFlight ∈ missing (sourceDocuments 1 "upload" embeddedInFlight.db) [] ∧
      ¬ Throughout (step (asciiEnv digest)) (Tombstoned 10)
        (step (asciiEnv digest) embeddedInFlight (upload 0 [] (seconds 4))) [.write 0 (seconds 5)] := by
  refine ⟨reachable_embeddedInFlight, by decide, fun h => ?_⟩
  obtain ⟨-, hchunks⟩ := h.last
  revert hchunks
  decide

end KnowledgeDesk.Proofs
