import KnowledgeDesk.Tenancy

/-!
# `sync_documents`: what its document transaction does to every row

The loop over the items keeps `SyncInv`; the deletion loop is described row by row by
`mem_tombstones`. `syncTx_spec` puts the two together: every row of the result is a row the
transaction kept, one it uploaded (with a job to enqueue), or the tombstone of a missing one.
-/

open Table

namespace KnowledgeDesk.Proofs

variable {env : Env}

/-- The constraints of the tables `documents` and `chunks`, and that no id below `n` is in use for a
new row: ids and `(org, source, path)` are unique, a chunk is of the org of its document. -/
structure DocsInv (n : Uuid) (db : Db) : Prop where
  ids : (db.documents.map Document.id).Nodup
  keys : (db.documents.map Document.key).Nodup
  fresh : ∀ doc ∈ db.documents, doc.id < n
  owner : ∀ c ∈ db.chunks, ∃ doc ∈ db.documents, doc.id = c.documentId ∧ doc.orgId = c.orgId

/-- Looking a document up by id is finding the row with that id. -/
theorem document?_eq_some {n : Uuid} {db : Db} (h : DocsInv n db) {id : Uuid} {doc : Document} :
    db.document? id = some doc ↔ doc ∈ db.documents ∧ doc.id = id :=
  find?_eq_some_iff h.ids

theorem document?_eq_none {db : Db} {id : Uuid} :
    db.document? id = none ↔ ∀ doc ∈ db.documents, doc.id ≠ id := by
  simp [Db.document?, List.find?_eq_none]

/-- Two rows with the same path of the same source are one. -/
theorem DocsInv.eq_of_key {n : Uuid} {db : Db} (h : DocsInv n db) {a b : Document}
    (ha : a ∈ db.documents) (hb : b ∈ db.documents) (hk : a.key = b.key) : a = b :=
  Table.eq_of_key h.keys ha hb hk

theorem DocsInv.eq_of_id {n : Uuid} {db : Db} (h : DocsInv n db) {a b : Document}
    (ha : a ∈ db.documents) (hb : b ∈ db.documents) (hk : a.id = b.id) : a = b :=
  Table.eq_of_key h.ids ha hb hk

/-- `check_caps` lets an upload through iff what is stored and what comes fit. -/
theorem checkCaps_ok_iff {org : Uuid} {items : List Item} {db : Db} : checkCaps env org items db = .ok () ↔
    (storageUsed org db).2 + (items.map fun i => i.content.utf8ByteSize).sum ≤
        env.settings.orgStorageBytesCap ∧
      (storageUsed org db).1 + items.length ≤ env.settings.orgDocCap := by
  unfold checkCaps
  by_cases hbytes : env.settings.orgStorageBytesCap <
      (storageUsed org db).2 + (items.map fun i => i.content.utf8ByteSize).sum
  · simp [hbytes, Nat.not_le.2 hbytes]
  · by_cases hdocs : env.settings.orgDocCap < (storageUsed org db).1 + items.length
    · simp [hbytes, hdocs, Nat.not_le.2 hdocs]
    · simp [hbytes, hdocs, Nat.le_of_not_lt hbytes, Nat.le_of_not_lt hdocs]

/-! ## The loop over the items -/

@[simp] theorem uploadOver_id (row d : Document) : (row.uploadOver d).id = d.id := rfl

@[simp] theorem uploadOver_key (row d : Document) : (row.uploadOver d).key = d.key := rfl

/-- The two ways of an upsert: the row with its key is replaced, or there is none and it is added. -/
theorem upsertDocument_cases {row : Document} {db db' : Db} {id revision : Nat}
    (h : upsertDocument row db = .ok ((id, revision), db')) :
    (∃ d ∈ db.documents, d.key = row.key ∧ d.id = id ∧ d.revision = revision ∧ db' = { db with
      documents := updateWhere (fun d => d.key == row.key) row.uploadOver db.documents }) ∨
    ((∀ d ∈ db.documents, d.key ≠ row.key) ∧ row.id = id ∧ row.revision = revision ∧
      db.hasOrg row.orgId = true ∧ db' = { db with documents := db.documents ++ [row] }) := by
  unfold upsertDocument at h
  cases hf : db.documents.find? fun d => d.key == row.key with
  | some d =>
    simp only [hf, Except.ok.injEq, Prod.mk.injEq] at h
    obtain ⟨⟨rfl, rfl⟩, rfl⟩ := h
    exact .inl ⟨d, List.mem_of_find?_eq_some hf, by simpa using List.find?_some hf, rfl, rfl, rfl⟩
  | none =>
    simp only [hf, Db.references] at h
    split at h
    · rename_i horg
      simp only [bind, Except.bind, Except.ok.injEq, Prod.mk.injEq] at h
      obtain ⟨⟨rfl, rfl⟩, rfl⟩ := h
      exact .inr ⟨by simpa using hf, rfl, rfl, horg, rfl⟩
    · cases h

/-- Where a row stands that an upload of `items` has written. -/
structure Uploaded (orgId : Uuid) (source : String) (items : List Item) (jobs : List PendingJob)
    (doc : Document) : Prop where
  pending : doc.status = .pending
  org : doc.orgId = orgId
  source : doc.source = source
  named : ∃ i ∈ items, i.path = doc.path
  queued : ∃ job ∈ jobs, job.documentId = doc.id

/-- The invariant of the loop over the items, when the first free id is `k` and was `n`. -/
structure SyncInv (orgId : Uuid) (source : String) (items : List Item) (db : Db) (n k : Uuid)
    (acc : SyncAcc) : Prop where
  frame : acc.db = { db with documents := acc.db.documents }
  docs : DocsInv k acc.db
  rows : ∀ doc ∈ acc.db.documents, doc ∈ db.documents ∨
    (Uploaded orgId source items acc.toEnqueue doc ∧
      ((∃ old ∈ db.documents, old.id = doc.id ∧ old.key = doc.key) ∨
        (n ≤ doc.id ∧ db.hasOrg orgId = true)))
  kept : ∀ doc ∈ db.documents, ∃ doc' ∈ acc.db.documents, doc'.id = doc.id
  jobs : ∀ job ∈ acc.toEnqueue, job.orgId = orgId ∧
    ∃ doc ∈ acc.db.documents, doc.id = job.documentId ∧ doc.orgId = orgId

theorem Uploaded.mono {orgId : Uuid} {source : String} {items : List Item}
    {jobs jobs' : List PendingJob} {doc : Document} (h : Uploaded orgId source items jobs doc)
    (hsub : ∀ job ∈ jobs, job ∈ jobs') : Uploaded orgId source items jobs' doc :=
  { h with queued := let ⟨job, hj, he⟩ := h.queued; ⟨job, hsub job hj, he⟩ }

/-- One upsert of the loop keeps its invariant. -/
theorem SyncInv.upsert {orgId : Uuid} {source : String} {items : List Item} {db : Db} {n k : Uuid}
    {acc : SyncAcc} (hinv : SyncInv orgId source items db n k acc) (hnk : n ≤ k) {item : Item}
    (hitem : item ∈ items) {now : Time} {id revision : Nat} {db' : Db} {unchanged : Nat} {key : String}
    (h : upsertDocument (item.row env orgId source now k) acc.db = .ok ((id, revision), db')) :
    SyncInv orgId source items db n (k + 1)
      ⟨db', unchanged, acc.toEnqueue ++ [⟨orgId, id, key⟩]⟩ := by
  set row := item.row env orgId source now k with hrow
  have hsub : ∀ job ∈ acc.toEnqueue, job ∈ acc.toEnqueue ++ [⟨orgId, id, key⟩] :=
    fun job hj => List.mem_append_left _ hj
  rcases upsertDocument_cases h with ⟨d, hd, hkey, rfl, -, rfl⟩ | ⟨hnew, rfl, -, horg, rfl⟩
  · -- the row of this path is replaced
    have hids : (updateWhere (fun d => d.key == row.key) row.uploadOver acc.db.documents).map
        Document.id = acc.db.documents.map Document.id := map_updateWhere _ fun _ => rfl
    have hkeys : (updateWhere (fun d => d.key == row.key) row.uploadOver acc.db.documents).map
        Document.key = acc.db.documents.map Document.key := map_updateWhere _ fun _ => rfl
    have hkept : ∀ doc ∈ acc.db.documents, ∃ doc' ∈ updateWhere (fun d => d.key == row.key)
        row.uploadOver acc.db.documents, doc'.id = doc.id ∧ doc'.orgId = doc.orgId := by
      intro doc hdoc
      refine ⟨_, mem_updateWhere.2 ⟨doc, hdoc, rfl⟩, ?_⟩
      split <;> exact ⟨rfl, rfl⟩
    refine ⟨by rw [hinv.frame], ⟨by simpa [hids] using hinv.docs.ids,
      by simpa [hkeys] using hinv.docs.keys, ?_, ?_⟩, ?_, ?_, ?_⟩
    · intro doc hdoc
      obtain ⟨d₀, hd₀, rfl⟩ := mem_updateWhere.1 hdoc
      have := hinv.docs.fresh d₀ hd₀
      split <;> simp <;> lia
    · intro c hc
      obtain ⟨doc, hdoc, h1, h2⟩ := hinv.docs.owner c hc
      obtain ⟨doc', hdoc', h3, h4⟩ := hkept doc hdoc
      exact ⟨doc', hdoc', h3.trans h1, h4.trans h2⟩
    · intro doc hdoc
      obtain ⟨d₀, hd₀, rfl⟩ := mem_updateWhere.1 hdoc
      by_cases hk : d₀.key = row.key
      · obtain rfl : d₀ = d := hinv.docs.eq_of_key hd₀ hd (hk.trans hkey.symm)
        have hkey' := hk
        simp only [Document.key, hrow, Item.row, Prod.mk.injEq] at hkey'
        simp only [hk, beq_self_eq_true, if_true]
        refine .inr ⟨⟨rfl, hkey'.1, hkey'.2.1, ⟨item, hitem, hkey'.2.2.symm⟩,
          ⟨_, List.mem_append_right _ List.mem_cons_self, rfl⟩⟩, ?_⟩
        rcases hinv.rows d₀ hd₀ with hold | ⟨-, hold⟩
        · exact .inl ⟨d₀, hold, rfl, rfl⟩
        · exact hold
      · simp only [hk, beq_iff_eq, if_false]
        exact (hinv.rows d₀ hd₀).imp_right fun ⟨hup, hold⟩ => ⟨hup.mono hsub, hold⟩
    · intro doc hdoc
      obtain ⟨doc', hdoc', he⟩ := hinv.kept doc hdoc
      obtain ⟨doc'', hdoc'', he', -⟩ := hkept doc' hdoc'
      exact ⟨doc'', hdoc'', he'.trans he⟩
    · intro job hjob
      rcases List.mem_append.1 hjob with hjob | hjob
      · obtain ⟨ho, doc, hdoc, he, hdo⟩ := hinv.jobs job hjob
        obtain ⟨doc', hdoc', he', ho'⟩ := hkept doc hdoc
        exact ⟨ho, doc', hdoc', he'.trans he, ho'.trans hdo⟩
      · obtain rfl := List.mem_singleton.1 hjob
        obtain ⟨doc', hdoc', he', ho'⟩ := hkept d hd
        have hdo : d.orgId = orgId := congrArg (·.1) hkey
        exact ⟨rfl, doc', hdoc', he', ho'.trans hdo⟩
  · -- the path is new
    have hid : row.id = k := rfl
    refine ⟨by rw [hinv.frame], ⟨?_, ?_, ?_, ?_⟩, ?_, ?_, ?_⟩
    · rw [List.map_append, List.nodup_append]
      refine ⟨hinv.docs.ids, by simp, ?_⟩
      simp only [List.mem_map, List.map_cons, List.map_nil, List.mem_singleton]
      rintro _ ⟨doc, hdoc, rfl⟩ _ rfl
      have := hinv.docs.fresh doc hdoc
      lia
    · rw [List.map_append, List.nodup_append]
      refine ⟨hinv.docs.keys, by simp, ?_⟩
      simp only [List.mem_map, List.map_cons, List.map_nil, List.mem_singleton]
      rintro _ ⟨doc, hdoc, rfl⟩ _ rfl
      exact hnew doc hdoc
    · intro doc hdoc
      rcases List.mem_append.1 hdoc with hdoc | hdoc
      · have := hinv.docs.fresh doc hdoc
        lia
      · obtain rfl := List.mem_singleton.1 hdoc
        lia
    · intro c hc
      obtain ⟨doc, hdoc, he⟩ := hinv.docs.owner c hc
      exact ⟨doc, List.mem_append_left _ hdoc, he⟩
    · intro doc hdoc
      rcases List.mem_append.1 hdoc with hdoc | hdoc
      · exact (hinv.rows doc hdoc).imp_right fun ⟨hup, hold⟩ => ⟨hup.mono hsub, hold⟩
      · obtain rfl := List.mem_singleton.1 hdoc
        refine .inr ⟨⟨rfl, rfl, rfl, ⟨item, hitem, rfl⟩,
          ⟨_, List.mem_append_right _ List.mem_cons_self, rfl⟩⟩, .inr ⟨hnk, ?_⟩⟩
        rw [hinv.frame] at horg
        exact horg
    · intro doc hdoc
      obtain ⟨doc', hdoc', he⟩ := hinv.kept doc hdoc
      exact ⟨doc', List.mem_append_left _ hdoc', he⟩
    · intro job hjob
      rcases List.mem_append.1 hjob with hjob | hjob
      · obtain ⟨ho, doc, hdoc, he⟩ := hinv.jobs job hjob
        exact ⟨ho, doc, List.mem_append_left _ hdoc, he⟩
      · obtain rfl := List.mem_singleton.1 hjob
        exact ⟨rfl, row, List.mem_append_right _ List.mem_cons_self, rfl, rfl⟩

theorem SyncInv.next {orgId : Uuid} {source : String} {items : List Item} {db : Db} {n k : Uuid}
    {acc : SyncAcc} (h : SyncInv orgId source items db n k acc) (unchanged : Nat) :
    SyncInv orgId source items db n (k + 1) { acc with unchanged } :=
  ⟨h.frame, { h.docs with fresh := fun doc hdoc => Nat.lt_succ_of_lt (h.docs.fresh doc hdoc) },
    h.rows, h.kept, h.jobs⟩

/-- The loop over the items keeps its invariant. -/
theorem syncItems_inv {orgId : Uuid} {source : String} {items : List Item} {db : Db} {n : Uuid}
    {existing : List Document} {now : Time} {l : List Item} (hl : ∀ i ∈ l, i ∈ items) {k : Uuid}
    (hnk : n ≤ k) {acc acc' : SyncAcc} (hinv : SyncInv orgId source items db n k acc)
    (h : (l.zipIdx k).foldlM (syncItem env orgId source existing now) acc = .ok acc') :
    SyncInv orgId source items db n (k + l.length) acc' := by
  induction l generalizing k acc with
  | nil =>
    simp only [List.zipIdx_nil, List.foldlM_nil, pure, Except.pure, Except.ok.injEq] at h
    simpa [h] using hinv
  | cons item l ih =>
    have hrest := fun i hi => hl i (List.mem_cons_of_mem item hi)
    simp only [List.zipIdx_cons, List.foldlM_cons, syncItem, bind, Except.bind] at h
    rw [List.length_cons, ← Nat.add_assoc, Nat.add_right_comm]
    split at h
    · cases h
    · rename_i acc₁ hacc₁
      refine ih hrest (by lia) ?_ h
      split at hacc₁
      · obtain rfl := Except.ok.inj hacc₁
        exact hinv.next _
      · split at hacc₁
        · cases hacc₁
        · rename_i hup
          obtain rfl := Except.ok.inj hacc₁
          exact hinv.upsert hnk (hl item List.mem_cons_self) hup

/-! ## The deletion loop -/

/-- The deletion loop tombstones the row `doc`. -/
def Buried (orgId : Uuid) (gone : List Document) (doc : Document) : Prop :=
  doc.orgId = orgId ∧ ∃ g ∈ gone, g.id = doc.id

/-- The tables the deletion loop leaves alone, and the columns. -/
theorem tombstones_frame (orgId : Uuid) (now : Time) (gone : List Document) (db : Db) :
    gone.foldl (tombstone orgId now) db = { db with
      documents := (gone.foldl (tombstone orgId now) db).documents
      chunks := (gone.foldl (tombstone orgId now) db).chunks } ∧
    (gone.foldl (tombstone orgId now) db).documents.map Document.id = db.documents.map Document.id ∧
    (gone.foldl (tombstone orgId now) db).documents.map Document.key = db.documents.map Document.key := by
  induction gone generalizing db with
  | nil => exact ⟨rfl, rfl, rfl⟩
  | cons g gone ih =>
    obtain ⟨hf, hi, hk⟩ := ih (tombstone orgId now db g)
    refine ⟨hf, ?_, ?_⟩
    · rw [List.foldl_cons, hi]
      exact map_updateWhere _ fun _ => rfl
    · rw [List.foldl_cons, hk]
      exact map_updateWhere _ fun _ => rfl

/-- The rows after the deletion loop: the buried ones are tombstones, the others are as they were. -/
theorem mem_tombstones {orgId : Uuid} {now : Time} {gone : List Document} {db : Db} {doc' : Document}
    (h : doc' ∈ (gone.foldl (tombstone orgId now) db).documents) :
    ∃ doc ∈ db.documents, doc'.id = doc.id ∧ doc'.key = doc.key ∧
      ((Buried orgId gone doc ∧ doc'.status = .deleted) ∨ (¬ Buried orgId gone doc ∧ doc' = doc)) := by
  induction gone generalizing db with
  | nil => exact ⟨doc', h, rfl, rfl, .inr ⟨fun ⟨_, _, hg, _⟩ => by simp at hg, rfl⟩⟩
  | cons g gone ih =>
    obtain ⟨doc₁, hdoc₁, hid, hkey, hcase⟩ := ih h
    obtain ⟨doc, hdoc, rfl⟩ := mem_updateWhere.1 hdoc₁
    refine ⟨doc, hdoc, ?_⟩
    by_cases hg : doc.orgId = orgId ∧ doc.id = g.id
    · have hb : Buried orgId (g :: gone) doc := ⟨hg.1, g, List.mem_cons_self, hg.2.symm⟩
      simp only [rls, hg.1, hg.2, beq_self_eq_true, Bool.and_self, if_true] at hid hkey hcase
      refine ⟨hid, hkey, .inl ⟨hb, ?_⟩⟩
      rcases hcase with ⟨-, hst⟩ | ⟨-, rfl⟩
      · exact hst
      · rfl
    · have hne : (doc.orgId == orgId && doc.id == g.id) = false := by simpa using hg
      simp only [rls, hne, Bool.false_eq_true, if_false] at hid hkey hcase
      refine ⟨hid, hkey, hcase.imp ?_ ?_⟩
      · rintro ⟨⟨ho, g', hg', he⟩, hst⟩
        exact ⟨⟨ho, g', List.mem_cons_of_mem g hg', he⟩, hst⟩
      · rintro ⟨hnb, rfl⟩
        refine ⟨?_, rfl⟩
        rintro ⟨ho, g', hg', he⟩
        rcases List.mem_cons.1 hg' with rfl | hg'
        · exact hg ⟨ho, he.symm⟩
        · exact hnb ⟨ho, g', hg', he⟩

/-- The chunks after the deletion loop are those not of a tombstoned document. -/
theorem mem_chunks_tombstones {orgId : Uuid} {now : Time} {gone : List Document} {db : Db} :
    (gone.foldl (tombstone orgId now) db).chunks =
      db.chunks.filter fun c => !(c.orgId == orgId && gone.any fun g => g.id == c.documentId) := by
  induction gone generalizing db with
  | nil => simp
  | cons g gone ih =>
    rw [List.foldl_cons, ih, tombstone, deleteWhere, List.filter_filter]
    refine List.filter_congr fun c _ => ?_
    simp only [rls, List.any_cons, BEq.comm (a := c.documentId)]
    cases c.orgId == orgId <;> cases g.id == c.documentId <;> simp

/-! ## The document transaction -/

/-- The rows the deletion loop goes over. -/
def Missing (orgId : Uuid) (source : String) (items : List Item) (doc : Document) : Prop :=
  doc.orgId = orgId ∧ doc.source = source ∧ (∀ i ∈ items, i.path ≠ doc.path) ∧ doc.status ≠ .deleted

theorem mem_missing {orgId : Uuid} {source : String} {items : List Item} {db : Db} {doc : Document} :
    doc ∈ missing (sourceDocuments orgId source db) items ↔
      doc ∈ db.documents ∧ Missing orgId source items doc := by
  simp only [missing, sourceDocuments, rls, Missing, List.mem_filter, Bool.and_eq_true, beq_iff_eq,
    Bool.not_eq_true', List.any_eq_false, bne_iff_ne, ne_eq]
  tauto

/-- What the document transaction has done, `n` being the first id free before it. -/
structure SyncSpec (orgId : Uuid) (source : String) (items : List Item) (n : Uuid) (db : Db)
    (jobs : List PendingJob) (db' : Db) : Prop where
  frame : db' = { db with documents := db'.documents, chunks := db'.chunks }
  docs : DocsInv (n + items.length) db'
  /-- Every row is kept, uploaded or a tombstone. -/
  rows : ∀ doc' ∈ db'.documents,
    (doc' ∈ db.documents ∧ ¬ Missing orgId source items doc') ∨
    (Uploaded orgId source items jobs doc' ∧
      ((∃ doc ∈ db.documents, doc.id = doc'.id ∧ doc.key = doc'.key) ∨
        (n ≤ doc'.id ∧ db.hasOrg orgId = true))) ∨
    ∃ doc ∈ db.documents, Missing orgId source items doc ∧ doc.id = doc'.id ∧ doc.key = doc'.key ∧
      doc'.status = .deleted
  kept : ∀ doc ∈ db.documents, ∃ doc' ∈ db'.documents, doc'.id = doc.id
  chunks : db'.chunks = db.chunks.filter fun c =>
    !(c.orgId == orgId && (missing (sourceDocuments orgId source db) items).any
      fun g => g.id == c.documentId)
  jobs : ∀ job ∈ jobs, job.orgId = orgId ∧
    ∃ doc ∈ db'.documents, doc.id = job.documentId ∧ doc.orgId = orgId

theorem syncTx_spec {precheck : Db → Except Err Unit} {orgId : Uuid} {source : String}
    {items : List Item} {n : Uuid} {now : Time} {db db' : Db} {result : SyncResult}
    {jobs : List PendingJob} (hdocs : DocsInv n db)
    (h : syncTx env precheck orgId source items n now db = .ok ((result, jobs), db')) :
    SyncSpec orgId source items n db jobs db' := by
  simp only [syncTx, bind, Except.bind] at h
  split at h
  · cases h
  split at h
  · cases h
  rename_i acc hacc
  simp only [Except.ok.injEq, Prod.mk.injEq] at h
  obtain ⟨⟨-, rfl⟩, rfl⟩ := h
  have hstart : SyncInv orgId source items db n n ⟨db, 0, []⟩ :=
    ⟨rfl, hdocs, fun doc hdoc => .inl hdoc, fun doc hdoc => ⟨doc, hdoc, rfl⟩, by simp⟩
  have hinv := syncItems_inv (fun i hi => hi) (le_refl n) hstart hacc
  set gone := missing (sourceDocuments orgId source db) items with hgone
  obtain ⟨hframe, hids, hkeys⟩ := tombstones_frame orgId now gone acc.db
  have hmem : ∀ doc ∈ acc.db.documents,
      ∃ doc' ∈ (gone.foldl (tombstone orgId now) acc.db).documents, doc'.id = doc.id := by
    intro doc hdoc
    have : doc.id ∈ (gone.foldl (tombstone orgId now) acc.db).documents.map Document.id := by
      rw [hids]
      exact List.mem_map_of_mem hdoc
    simpa [List.mem_map] using this
  have horg : ∀ doc ∈ acc.db.documents,
      ∃ doc' ∈ (gone.foldl (tombstone orgId now) acc.db).documents,
        doc'.id = doc.id ∧ doc'.orgId = doc.orgId := by
    intro doc hdoc
    obtain ⟨doc', hdoc', he⟩ := hmem doc hdoc
    obtain ⟨doc₁, hdoc₁, hid, hkey, -⟩ := mem_tombstones hdoc'
    obtain rfl := hinv.docs.eq_of_id hdoc₁ hdoc (hid.symm.trans he)
    exact ⟨doc', hdoc', he, congrArg (·.1) hkey⟩
  refine ⟨?_, ⟨by rw [hids]; exact hinv.docs.ids, by rw [hkeys]; exact hinv.docs.keys, ?_, ?_⟩,
    ?_, ?_, ?_, ?_⟩
  · rw [hframe, hinv.frame]
  · intro doc' hdoc'
    obtain ⟨doc, hdoc, hid, -⟩ := mem_tombstones hdoc'
    rw [hid]
    exact hinv.docs.fresh doc hdoc
  · intro c hc
    rw [mem_chunks_tombstones] at hc
    obtain ⟨doc, hdoc, h1, h2⟩ := hinv.docs.owner c (List.mem_of_mem_filter hc)
    obtain ⟨doc', hdoc', h3, h4⟩ := horg doc hdoc
    exact ⟨doc', hdoc', h3.trans h1, h4.trans h2⟩
  · intro doc' hdoc'
    obtain ⟨doc, hdoc, hid, hkey, hcase⟩ := mem_tombstones hdoc'
    rcases hcase with ⟨⟨-, g, hg, he⟩, hst⟩ | ⟨hnb, rfl⟩
    · obtain ⟨hgm, hmiss⟩ := mem_missing.1 hg
      refine .inr (.inr ⟨g, hgm, hmiss, he.trans hid.symm, ?_, hst⟩)
      rcases hinv.rows doc hdoc with hold | ⟨-, ⟨old, hold, hoid, hokey⟩ | ⟨hge, -⟩⟩
      · rw [hkey, hdocs.eq_of_id hgm hold he]
      · rw [hkey, ← hokey, hdocs.eq_of_id hgm hold (he.trans hoid.symm)]
      · exact absurd (hdocs.fresh g hgm) (by lia)
    · rcases hinv.rows doc' hdoc with hold | hup
      · refine .inl ⟨hold, fun hmiss => hnb ⟨hmiss.1, doc', mem_missing.2 ⟨hold, hmiss⟩, rfl⟩⟩
      · exact .inr (.inl hup)
  · intro doc hdoc
    obtain ⟨doc₁, hdoc₁, he₁⟩ := hinv.kept doc hdoc
    obtain ⟨doc₂, hdoc₂, he₂⟩ := hmem doc₁ hdoc₁
    exact ⟨doc₂, hdoc₂, he₂.trans he₁⟩
  · rw [mem_chunks_tombstones, hinv.frame]
  · intro job hjob
    obtain ⟨ho, doc, hdoc, he, hdo⟩ := hinv.jobs job hjob
    obtain ⟨doc', hdoc', he', ho'⟩ := horg doc hdoc
    exact ⟨ho, doc', hdoc', he'.trans he, ho'.trans hdo⟩

/-- What each upload and each tombstone keeps, the transaction keeps. -/
theorem syncTx_keeps {P : Db → Prop} {precheck : Db → Except Err Unit} {orgId : Uuid} {source : String}
    {items : List Item} {fresh : Uuid} {now : Time} {db db' : Db} {r : SyncResult × List PendingJob}
    (hstart : P db)
    (hitem : ∀ item ∈ items, ∀ id db db' p, P db →
      upsertDocument (item.row env orgId source now id) db = .ok (p, db') → P db')
    (hbury : ∀ row db, P db → P (tombstone orgId now db row))
    (h : syncTx env precheck orgId source items fresh now db = .ok (r, db')) : P db' := by
  have hitems : ∀ (existing : List Document) (l : List (Item × Uuid)), (∀ p ∈ l, p.1 ∈ items) →
      ∀ acc acc', P acc.db → l.foldlM (syncItem env orgId source existing now) acc = .ok acc' → P acc'.db := by
    intro existing l
    induction l with
    | nil =>
      intro _ acc acc' hacc h
      obtain rfl := Except.ok.inj h
      exact hacc
    | cons p l ih =>
      intro hl acc acc' hacc h
      simp only [List.foldlM_cons, syncItem, bind, Except.bind] at h
      split at h
      · cases h
      · rename_i acc₁ hacc₁
        refine ih (fun q hq => hl q (List.mem_cons_of_mem p hq)) acc₁ acc' ?_ h
        split at hacc₁
        · obtain rfl := Except.ok.inj hacc₁
          exact hacc
        · split at hacc₁
          · cases hacc₁
          · rename_i hup
            obtain rfl := Except.ok.inj hacc₁
            exact hitem p.1 (hl p List.mem_cons_self) p.2 acc.db _ _ hacc hup
  have hburied : ∀ (gone : List Document) db, P db → P (gone.foldl (tombstone orgId now) db) := by
    intro gone
    induction gone with
    | nil => exact fun _ h => h
    | cons row gone ih => exact fun db h => ih _ (hbury row db h)
  simp only [syncTx, bind, Except.bind] at h
  split at h
  · cases h
  split at h
  · cases h
  rename_i acc hacc
  obtain ⟨-, rfl⟩ := Prod.mk.inj (Except.ok.inj h)
  exact hburied _ _ (hitems _ _ (fun p hp => List.fst_mem_of_mem_zipIdx hp) _ _ hstart hacc)

end KnowledgeDesk.Proofs
