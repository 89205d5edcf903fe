import KnowledgeDesk.Proofs.PipelineProofs

/-!
# What a document's status says about its content

The writes at the end of a job are keyed by the document's id alone. A document stays truthfully
'ingested', and 'failed' stays the verdict on the stored content, under every step but the write and the
failure mark of a worker whose document has been replaced since it was read.
-/

open Table

namespace KnowledgeDesk.Proofs

open Pipeline Runs

variable {env : Env} {s : Pipeline}

/-- An ingested document has exactly the chunks of its content, numbered from 0. -/
def IngestedTruthfully (env : Env) (s : Pipeline) : Prop :=
  ∀ id doc, s.db.document? id = some doc → doc.status = .ingested →
    chunkText env doc.content = .ok ((s.db.chunksOf id).map Chunk.text) ∧
      (s.db.chunksOf id).map Chunk.ordinal = List.range (s.db.chunksOf id).length

/-- Where the step leaves a document 'failed', it was failed and is left alone, or the step is the
failure mark of a worker that read the content now stored. -/
def FailsWhatWasRead (env : Env) (s : Pipeline) (l : Label) : Prop :=
  ∀ id doc', (step env s l).db.document? id = some doc' → doc'.status = .failed →
    (¬ Touches s id l ∧ ∃ doc, s.db.document? id = some doc ∧ doc.status = .failed) ∨
    ∃ worker now job read, l = .failDocument worker now ∧ s.workers worker = .dead job (some read) ∧
      job.documentId = some id ∧ read.content = doc'.content

/-- The step writes the chunks of a text that chunks otherwise than the content stored. -/
def WritesStaleText (env : Env) (s : Pipeline) : Label → Prop
  | .write worker _ => ∃ job doc rows row, s.workers worker = .embedded job doc rows ∧
      s.db.document? doc.id = some row ∧ chunkText env doc.content ≠ chunkText env row.content
  | _ => False

/-- The step marks a row failed whose content its worker has not read. -/
def FailsUnread (s : Pipeline) : Label → Prop
  | .failDocument worker _ => ∃ job seen id row, s.workers worker = .dead job seen ∧
      job.documentId = some id ∧ s.db.document? id = some row ∧
      ∀ read, seen = some read → read.content ≠ row.content
  | _ => False

/-- One step: what is ingested stays true to its content unless a worker writes a stale text. -/
theorem ingestedTruthfully_step (h : Inv env s) (hs : IngestedTruthfully env s) (l : Label) :
    IngestedTruthfully env (step env s l) ↔ ¬ WritesStaleText env s l := by
  constructor
  · intro hs' hstale
    cases l with
    | write worker now =>
      obtain ⟨job, doc, rows, row, hphase, hrow, hne⟩ := hstale
      have hw : PhaseInv env s (.embedded job doc rows) := hphase ▸ h.workers worker
      cases step_document h (.write worker now) doc.id with
      | same _ _ hno => simp [hno ⟨job, doc, rows, hphase, rfl⟩] at hrow
      | written job' doc' rows' hphase' _ hdoc hchunks =>
        obtain ⟨rfl, rfl, rfl⟩ : job = job' ∧ doc = doc' ∧ rows = rows' := by
          simpa [hphase] using hphase'
        obtain ⟨ht, -⟩ := hs' doc.id _ (by rw [hdoc, hrow, Option.map_some]) rfl
        rw [hchunks] at ht
        exact hne ((hw.rows job doc rows rfl).texts.trans ht.symm)
    | _ => exact hstale
  · intro hn id doc hdoc' hst
    cases step_document h l id with
    | same hdoc hchunks _ =>
      rw [hchunks]
      exact hs id doc (hdoc ▸ hdoc') hst
    | uploaded doc' hdoc hup _ _ _ =>
      obtain rfl : doc' = doc := by simpa [hdoc] using hdoc'
      simp [hup.pending] at hst
    | dropped _ doc' _ _ hdoc _ hstatus _ =>
      obtain rfl : doc' = doc := by simpa [hdoc] using hdoc'
      simp [hstatus] at hst
    | @written worker now _ job read rows hphase hid hdoc hchunks =>
      obtain ⟨row, hrow, rfl⟩ := Option.map_eq_some_iff.1 (hdoc ▸ hdoc')
      have hw : PhaseInv env s (.embedded job read rows) := hphase ▸ h.workers worker
      have htext : chunkText env read.content = chunkText env row.content := by
        by_contra hne
        exact hn ⟨job, read, rows, row, hphase, hid ▸ hrow, hne⟩
      have hr := hw.rows job read rows rfl
      rw [hchunks]
      exact ⟨htext ▸ hr.texts, hr.ordinals⟩
    | failed _ _ _ _ hdoc _ =>
      obtain ⟨row, -, rfl⟩ := Option.map_eq_some_iff.1 (hdoc ▸ hdoc')
      cases hst
    | permitted d hold hdoc hchunks =>
      obtain rfl : d.setAcl _ _ = doc := by simpa [hdoc] using hdoc'
      obtain ⟨ht, ho⟩ := hs id d hold hst
      rw [hchunks, List.map_map, List.map_map, List.length_map]
      exact ⟨ht, ho⟩
    | deleted hdoc _ => simp [hdoc] at hdoc'

/-- One step: 'failed' is set on the content read unless a worker marks a row it has not read. -/
theorem failsWhatWasRead_step (h : Inv env s) (l : Label) :
    FailsWhatWasRead env s l ↔ ¬ FailsUnread s l := by
  constructor
  · intro hf hun
    cases l with
    | failDocument worker now =>
      obtain ⟨job, seen, id, row, hphase, hid, hrow, hne⟩ := hun
      have htouch : Touches s id (.failDocument worker now) := ⟨job, seen, hphase, hid⟩
      cases step_document h (.failDocument worker now) id with
      | same _ _ hno => simp [hno htouch] at hrow
      | failed job' seen' hphase' _ hdoc _ =>
        rw [hrow, Option.map_some] at hdoc
        rcases hf id _ hdoc rfl with ⟨hn, -⟩ | ⟨w, t, job₁, read, hl, hphase₁, -, hread⟩
        · exact hn htouch
        · obtain ⟨rfl, rfl⟩ : worker = w ∧ now = t := by simpa using hl
          obtain ⟨-, rfl⟩ : job = job₁ ∧ seen = some read := by simpa [hphase] using hphase₁
          exact hne read rfl hread
    | _ => exact hun
  · intro hn id doc' hdoc' hst
    cases step_document h l id with
    | same hdoc _ hno =>
      rw [hdoc] at hdoc'
      exact .inl ⟨fun ht => by simp [hno ht] at hdoc', doc', hdoc', hst⟩
    | uploaded doc₁ hdoc hup _ _ _ =>
      obtain rfl : doc₁ = doc' := by simpa [hdoc] using hdoc'
      simp [hup.pending] at hst
    | dropped _ doc₁ _ _ hdoc _ hstatus _ =>
      obtain rfl : doc₁ = doc' := by simpa [hdoc] using hdoc'
      simp [hstatus] at hst
    | written _ _ _ _ _ hdoc _ =>
      obtain ⟨row, -, rfl⟩ := Option.map_eq_some_iff.1 (hdoc ▸ hdoc')
      cases hst
    | @failed worker now _ job seen hphase hid hdoc _ =>
      obtain ⟨row, hrow, rfl⟩ := Option.map_eq_some_iff.1 (hdoc ▸ hdoc')
      by_contra hno
      refine hn ⟨job, seen, id, row, hphase, hid, hrow, fun read hread hc => hno (.inr ?_)⟩
      exact ⟨worker, now, job, read, rfl, hread ▸ hphase, hid, hc⟩
    | permitted d hold hdoc _ =>
      obtain rfl : d.setAcl _ _ = doc' := by simpa [hdoc] using hdoc'
      exact .inl ⟨fun ht => ht, d, hold, hst⟩
    | deleted hdoc _ => simp [hdoc] at hdoc'

/-- The truth of the status: over a whole run, from a database without documents, what is ingested has
the chunks of its content in every state and 'failed' is only set on the content read, iff every
write and every failure mark that reaches a row is by a worker whose text is still the row's. -/
theorem status_truthful_iff {db : Db} {n : Uuid} {ls : List Label} (hd : db.documents = [])
    (hc : db.chunks = []) (hj : db.jobs = []) :
    (Throughout (step env) (IngestedTruthfully env) (atRest db n) ls ∧
        EachStep (step env) (FailsWhatWasRead env) (atRest db n) ls) ↔
      EachStep (step env) (fun s l => ¬ WritesStaleText env s l ∧ ¬ FailsUnread s l) (atRest db n) ls := by
  have hinv : Inv env (atRest db n) := inv_of_reachable ⟨db, n, [], hd, hc, hj, rfl⟩
  have hstart : IngestedTruthfully env (atRest db n) := fun id doc hdoc => by
    simp [Db.document?, atRest, hd] at hdoc
  have hI : ∀ s l, Inv env s → Inv env (step env s l) := fun s l hi => step_inv hi l
  rw [eachStep_and]
  refine and_congr (throughout_iff_eachStep hI ?_ hinv hstart) (eachStep_congr hI ?_ hinv)
  · exact fun s l hi hs => ingestedTruthfully_step hi hs l
  · exact fun s l hi => failsWhatWasRead_step hi l

/-- An upload, its job and the worker's run: the worker writes the chunks of the text that the row has. -/
theorem status_truthful_after_write :
    Throughout (step (asciiEnv digest)) (IngestedTruthfully (asciiEnv digest)) oneOrg
        ([upload 0 [⟨"a.txt", "alpha", none⟩] (seconds 1), .enqueue 0 (seconds 2)] ++
          process 0 (seconds 3)) ∧
      EachStep (step (asciiEnv digest)) (FailsWhatWasRead (asciiEnv digest)) oneOrg
        ([upload 0 [⟨"a.txt", "alpha", none⟩] (seconds 1), .enqueue 0 (seconds 2)] ++
          process 0 (seconds 3)) := by
  have hwrite : ¬ WritesStaleText (asciiEnv digest) embeddedInFlight (.write 0 (seconds 3)) := by
    rintro ⟨job, doc, rows, row, hphase, hrow, hstale⟩
    have hworker : embeddedInFlight.workers 0 = .embedded _ inFlight _ := rfl
    have hrow' : embeddedInFlight.db.document? inFlight.id = some inFlight := rfl
    obtain ⟨-, rfl, -⟩ := Phase.embedded.inj (hworker.symm.trans hphase)
    obtain rfl := Option.some.inj (hrow'.symm.trans hrow)
    exact hstale rfl
  exact (status_truthful_iff rfl rfl rfl).2
    ⟨⟨id, id⟩, ⟨id, id⟩, ⟨id, id⟩, ⟨id, id⟩, ⟨id, id⟩, ⟨hwrite, id⟩, ⟨id, id⟩, trivial⟩

/-- An upload replaces a document while a worker embeds its first version: the worker's write marks the
new content ingested with the chunks of the old. -/
theorem write_ingests_old_text :
    Reachable (asciiEnv digest) embeddedInFlight ∧
      ¬ Throughout (step (asciiEnv digest)) (IngestedTruthfully (asciiEnv digest)) embeddedInFlight
        [upload 0 [⟨"a.txt", "beta", none⟩] (seconds 4), .write 0 (seconds 5)] := by
  refine ⟨reachable_embeddedInFlight, fun h => ?_⟩
  obtain ⟨htext, -⟩ := h.last 10
    { inFlight with content := "beta", contentHash := digest "beta", status := .ingested,
                    updatedAt := seconds 5 } (by decide) rfl
  revert htext
  decide

end KnowledgeDesk.Proofs
