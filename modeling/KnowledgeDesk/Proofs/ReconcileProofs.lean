import KnowledgeDesk.Pipeline
import KnowledgeDesk.Proofs.SyncProofs

/-!
# `sync_documents`: when the source equals the upload

The loop over the items compares every item with a snapshot taken before it, so what stands at a path
afterwards is the last item of the path that did not match the snapshot, or the row of the snapshot when
all of them did (`Loop`). `Reconciled` says that the source is what the upload says it is, and
`reconciled_iff` when it is: the skipped items have to be the ones meant, and to name no new acl.
-/

open Table

namespace KnowledgeDesk.Proofs

variable (env : Env)

/-- The item an upload means for a path: the last one with it. -/
def meant (items : List Item) (path : String) : Option Item :=
  items.reverse.find? fun i => i.path == path

/-- The row says what an item says; an acl the item does not name may be any. -/
structure Says (item : Item) (doc : Document) : Prop where
  content : doc.content = item.content
  contentHash : doc.contentHash = env.sha256 item.content
  acl : ∀ acl ∈ item.acl, doc.acl = acl

/-- The row is of another source, or of another org. -/
def elsewhere (orgId : Uuid) (source : String) (doc : Document) : Bool :=
  !(doc.orgId == orgId && doc.source == source)

/-- The tombstones of `db'` that were no tombstones in `db`. -/
def newTombstones (db db' : Db) : List Document :=
  db'.documents.filter fun doc =>
    doc.status == .deleted && !(db.documents.any fun old => old.id == doc.id && old.status == .deleted)

/-- The source is the upload, after the document transaction of a sync has taken `db` to `db'`. -/
structure Reconciled (orgId : Uuid) (source : String) (items : List Item) (result : SyncResult)
    (db db' : Db) : Prop where
  /-- The documents of the source that are not deleted are those at the paths of the items. -/
  live : ∀ path, (∃ doc ∈ db'.documents, doc.key = (orgId, source, path) ∧ doc.status ≠ .deleted) ↔
    ∃ i ∈ items, i.path = path
  held : ∀ doc ∈ db'.documents, doc.orgId = orgId → doc.source = source → doc.status ≠ .deleted →
    ∀ item ∈ meant items doc.path, Says env item doc
  /-- A document that was live and is not listed is a tombstone. -/
  buried : ∀ doc ∈ db.documents, Missing orgId source items doc →
    (∀ c ∈ db'.chunks, c.documentId ≠ doc.id) ∧
    ∃ doc' ∈ db'.documents, doc'.id = doc.id ∧ doc'.key = doc.key ∧ doc'.status = .deleted ∧
      doc'.content = "" ∧ doc'.revision = doc.revision + 1
  others : db'.documents.filter (elsewhere orgId source) = db.documents.filter (elsewhere orgId source)
  otherChunks : ∀ doc ∈ db.documents, elsewhere orgId source doc = true →
    db'.chunks.filter (fun c => c.documentId == doc.id) =
      db.chunks.filter (fun c => c.documentId == doc.id)
  counted : result.enqueued + result.unchanged = items.length
  deleted : result.deleted = (newTombstones db db').length

/-- An item that is meant and skipped says what its document says already, and no item before it was
uploaded over the document. -/
def SkipsRightly (existing : List Document) (items : List Item) : Prop :=
  ∀ item ∈ items, meant items item.path = some item → isUnchanged env existing item = true →
    (∀ prior ∈ existing, prior.path = item.path →
      prior.content = item.content ∧ ∀ acl ∈ item.acl, prior.acl = acl) ∧
    ∀ i ∈ items, i.path = item.path → isUnchanged env existing i = true

/-! ## What was last uploaded at a path -/

/-- The last item of a path that does not find its document unchanged. -/
def lastUpload (existing : List Document) (items : List Item) (path : String) : Option Item :=
  items.reverse.find? fun i => i.path == path && !isUnchanged env existing i

/-- What the loop has done when it has been over the items `done`. -/
structure Loop (orgId : Uuid) (source : String) (existing : List Document) (db : Db)
    (done : List Item) (acc : SyncAcc) : Prop where
  /-- A row of the source at whose path nothing was uploaded is as it was. -/
  skipped : ∀ doc ∈ acc.db.documents, doc.orgId = orgId → doc.source = source →
    lastUpload env existing done doc.path = none → doc ∈ db.documents
  uploaded : ∀ doc ∈ acc.db.documents, doc.orgId = orgId → doc.source = source →
    ∀ item ∈ lastUpload env existing done doc.path, doc.status = .pending ∧ Says env item doc
  /-- An item that is not skipped has its row, and a job for it. -/
  placed : ∀ item ∈ done, isUnchanged env existing item = false →
    ∃ doc ∈ acc.db.documents, doc.key = (orgId, source, item.path) ∧
      ∃ job ∈ acc.toEnqueue, job.documentId = doc.id
  /-- A job is for the row of an item that is not skipped, under the key of what the item says. -/
  queued : ∀ job ∈ acc.toEnqueue, ∃ item ∈ done, isUnchanged env existing item = false ∧
    ∃ doc ∈ acc.db.documents, doc.key = (orgId, source, item.path) ∧
      job = ⟨orgId, doc.id, ingestKey doc.id (env.sha256 item.content) doc.revision⟩
  kept : ∀ doc ∈ db.documents, ∃ doc' ∈ acc.db.documents,
    doc'.id = doc.id ∧ doc'.key = doc.key ∧ doc'.revision = doc.revision
  others : acc.db.documents.filter (elsewhere orgId source) = db.documents.filter (elsewhere orgId source)
  counted : acc.toEnqueue.length + acc.unchanged = done.length

variable {env}

theorem meant_mem {items : List Item} {path : String} {item : Item} (h : meant items path = some item) :
    item ∈ items ∧ item.path = path :=
  ⟨List.mem_reverse.1 (List.mem_of_find?_eq_some h), by simpa using List.find?_some h⟩

theorem lastUpload_mem {existing : List Document} {items : List Item} {path : String} {item : Item}
    (h : lastUpload env existing items path = some item) :
    item ∈ items ∧ item.path = path ∧ isUnchanged env existing item = false := by
  have hp := List.find?_some h
  simp only [Bool.and_eq_true, beq_iff_eq, Bool.not_eq_true'] at hp
  exact ⟨List.mem_reverse.1 (List.mem_of_find?_eq_some h), hp⟩

theorem lastUpload_eq_none {existing : List Document} {items : List Item} {path : String} :
    lastUpload env existing items path = none ↔
      ∀ i ∈ items, i.path = path → isUnchanged env existing i = true := by
  simp [lastUpload, List.find?_eq_none]

/-- The item meant is the one last uploaded, unless it is skipped. -/
theorem lastUpload_eq_meant {existing : List Document} {items : List Item} {path : String} {item : Item}
    (h : meant items path = some item) (hup : isUnchanged env existing item = false) :
    lastUpload env existing items path = some item := by
  rw [meant, List.find?_eq_some_iff_append] at h
  obtain ⟨hp, front, back, heq, hfront⟩ := h
  rw [lastUpload, List.find?_eq_some_iff_append]
  refine ⟨by simp [hp, hup], front, back, heq, fun i hi => ?_⟩
  have hne := hfront i hi
  rw [Bool.not_eq_true'] at hne
  simp [hne]

theorem lastUpload_append {existing : List Document} {items : List Item} {item : Item} {path : String} :
    lastUpload env existing (items ++ [item]) path =
      if item.path = path ∧ isUnchanged env existing item = false then some item
      else lastUpload env existing items path := by
  simp only [lastUpload, List.reverse_append, List.reverse_cons, List.reverse_nil, List.nil_append,
    List.singleton_append, List.find?_cons]
  by_cases hp : item.path = path
  · cases hu : isUnchanged env existing item <;> simp [hp]
  · simp [hp, beq_eq_false_iff_ne.2 hp]

/-! ## An upsert, row by row -/

/-- What an upsert of `row` that returns `id` and `revision` has done to the documents. -/
structure Upserted (row : Document) (id : Uuid) (revision : Nat) (db db' : Db) : Prop where
  frame : db' = { db with documents := db'.documents }
  /-- Every row is an old one with another key, or says what `row` says. -/
  rows : ∀ doc ∈ db'.documents, (doc ∈ db.documents ∧ doc.key ≠ row.key) ∨
    (doc.key = row.key ∧ doc.status = row.status ∧ doc.content = row.content ∧
      doc.contentHash = row.contentHash ∧ doc.acl = row.acl)
  placed : ∃ doc ∈ db'.documents, doc.key = row.key ∧ doc.id = id ∧ doc.revision = revision
  kept : ∀ doc ∈ db.documents, ∃ doc' ∈ db'.documents,
    doc'.id = doc.id ∧ doc'.key = doc.key ∧ doc'.revision = doc.revision
  others : ∀ q : Document → Bool, (∀ doc, doc.key = row.key → q doc = false) →
    db'.documents.filter q = db.documents.filter q

theorem upsertDocument_upserted {row : Document} (hrow : row.status = .pending) {db db' : Db}
    {id revision : Nat} (h : upsertDocument row db = .ok ((id, revision), db')) :
    Upserted row id revision db db' := by
  rcases upsertDocument_cases h with ⟨d, hd, hkey, rfl, rfl, rfl⟩ | ⟨hnew, rfl, rfl, -, rfl⟩
  · refine ⟨rfl, fun doc hdoc => ?_, ?_, fun doc hdoc => ?_, fun q hq => ?_⟩
    · obtain ⟨old, hold, rfl⟩ := mem_updateWhere.1 hdoc
      by_cases hk : old.key = row.key
      · rw [if_pos (by simpa using hk)]
        exact .inr ⟨hk, hrow.symm, rfl, rfl, rfl⟩
      · rw [if_neg (by simpa using hk)]
        exact .inl ⟨hold, hk⟩
    · refine ⟨_, mem_updateWhere.2 ⟨d, hd, rfl⟩, ?_⟩
      rw [if_pos (by simpa using hkey)]
      exact ⟨hkey, rfl, rfl⟩
    · refine ⟨_, mem_updateWhere.2 ⟨doc, hdoc, rfl⟩, ?_⟩
      split <;> exact ⟨rfl, rfl, rfl⟩
    · refine filter_updateWhere_of_disjoint (fun doc _ hk => hq doc (by simpa using hk)) ?_
      exact fun doc _ hk => hq _ (by simpa using hk)
  · refine ⟨rfl, fun doc hdoc => ?_, ⟨row, by simp, rfl, rfl, rfl⟩, fun doc hdoc => ?_, fun q hq => ?_⟩
    · rcases List.mem_append.1 hdoc with hold | hdoc
      · exact .inl ⟨hold, hnew doc hold⟩
      · obtain rfl := List.mem_singleton.1 hdoc
        exact .inr ⟨rfl, rfl, rfl, rfl, rfl⟩
    · exact ⟨doc, List.mem_append_left _ hdoc, rfl, rfl, rfl⟩
    · simp [List.filter_append, hq row rfl]

/-! ## The loop over the items -/

section Rounds

variable {orgId : Uuid} {source : String} {existing : List Document} {db : Db} {done : List Item}
  {acc : SyncAcc} {item : Item}

/-- A round that skips its item. -/
theorem Loop.skip (h : Loop env orgId source existing db done acc)
    (hu : isUnchanged env existing item = true) :
    Loop env orgId source existing db (done ++ [item])
      { acc with unchanged := acc.unchanged + 1 } := by
  have hlast : ∀ path, lastUpload env existing (done ++ [item]) path = lastUpload env existing done path :=
    fun path => by rw [lastUpload_append, if_neg (by simp [hu])]
  refine ⟨?_, ?_, fun i hi hn => ?_, fun job hjob => ?_, h.kept, h.others, ?_⟩
  · simpa only [hlast] using h.skipped
  · simpa only [hlast] using h.uploaded
  · rcases List.mem_append.1 hi with hi | hi
    · exact h.placed i hi hn
    · obtain rfl := List.mem_singleton.1 hi
      cases hu.symm.trans hn
  · obtain ⟨i, hi, hj⟩ := h.queued job hjob
    exact ⟨i, List.mem_append_left _ hi, hj⟩
  · have := h.counted
    simp only [List.length_append, List.length_singleton]
    lia

/-- A round that uploads its item. -/
theorem Loop.upsert (h : Loop env orgId source existing db done acc) {fresh : Uuid} {now : Time}
    {id revision : Nat} {db' : Db} (hu : isUnchanged env existing item = false)
    (hup : Upserted (item.row env orgId source now fresh) id revision acc.db db') :
    Loop env orgId source existing db (done ++ [item])
      { acc with
        db := db'
        toEnqueue := acc.toEnqueue ++
          [⟨orgId, id, ingestKey id (env.sha256 item.content) revision⟩] } := by
  have hkey : (item.row env orgId source now fresh).key = (orgId, source, item.path) := rfl
  -- a row with another key had its last upload before this round
  have hlast : ∀ doc : Document, doc.orgId = orgId → doc.source = source →
      doc.key ≠ (item.row env orgId source now fresh).key →
      lastUpload env existing (done ++ [item]) doc.path = lastUpload env existing done doc.path := by
    intro doc ho hs hne
    rw [lastUpload_append, if_neg]
    rintro ⟨hp, -⟩
    exact hne (by rw [hkey, Document.key, ho, hs, hp])
  have hhere : ∀ doc : Document, doc.key = (item.row env orgId source now fresh).key →
      lastUpload env existing (done ++ [item]) doc.path = some item := by
    intro doc hk
    have hp : doc.path = item.path := congrArg (·.2.2) hk
    rw [lastUpload_append, if_pos ⟨hp.symm, hu⟩]
  refine ⟨fun doc hdoc ho hs hnone => ?_, fun doc hdoc ho hs i hi => ?_, fun i hi hn => ?_,
    fun job hjob => ?_, fun doc hdoc => ?_, ?_, ?_⟩
  · rcases hup.rows doc hdoc with ⟨hold, hne⟩ | ⟨hk, -⟩
    · rw [hlast doc ho hs hne] at hnone
      exact h.skipped doc hold ho hs hnone
    · rw [hhere doc hk] at hnone
      cases hnone
  · rcases hup.rows doc hdoc with ⟨hold, hne⟩ | ⟨hk, hstatus, hcontent, hhash, hacl⟩
    · rw [hlast doc ho hs hne] at hi
      exact h.uploaded doc hold ho hs i hi
    · rw [hhere doc hk] at hi
      obtain rfl := Option.some.inj hi
      refine ⟨hstatus, hcontent, hhash, fun acl hnamed => ?_⟩
      rw [hacl, Item.row, Option.mem_def.1 hnamed, Option.getD_some]
  · rcases List.mem_append.1 hi with hi | hi
    · obtain ⟨doc, hdoc, hk, j, hj, hjid⟩ := h.placed i hi hn
      obtain ⟨doc', hdoc', hid', hk', -⟩ := hup.kept doc hdoc
      exact ⟨doc', hdoc', hk'.trans hk, j, List.mem_append_left _ hj, hjid.trans hid'.symm⟩
    · obtain rfl := List.mem_singleton.1 hi
      obtain ⟨doc, hdoc, hk, hid, -⟩ := hup.placed
      exact ⟨doc, hdoc, hk, _, List.mem_append_right _ List.mem_cons_self, hid.symm⟩
  · rcases List.mem_append.1 hjob with hjob | hjob
    · obtain ⟨i, hi, hn, doc, hdoc, hk, rfl⟩ := h.queued job hjob
      obtain ⟨doc', hdoc', hid', hk', hr'⟩ := hup.kept doc hdoc
      exact ⟨i, List.mem_append_left _ hi, hn, doc', hdoc', hk'.trans hk, by rw [hid', hr']⟩
    · obtain rfl := List.mem_singleton.1 hjob
      obtain ⟨doc, hdoc, hk, rfl, rfl⟩ := hup.placed
      exact ⟨item, by simp, hu, doc, hdoc, hk, rfl⟩
  · obtain ⟨doc', hdoc', hid, hk, hr⟩ := h.kept doc hdoc
    obtain ⟨doc'', hdoc'', hid', hk', hr'⟩ := hup.kept doc' hdoc'
    exact ⟨doc'', hdoc'', hid'.trans hid, hk'.trans hk, hr'.trans hr⟩
  · rw [← h.others]
    refine hup.others _ fun doc hk => ?_
    have ho : doc.orgId = orgId := congrArg (·.1) hk
    have hs : doc.source = source := congrArg (·.2.1) hk
    simp [elsewhere, ho, hs]
  · have := h.counted
    simp only [List.length_append, List.length_singleton]
    lia

end Rounds

/-- The whole loop. -/
theorem syncItems_loop {orgId : Uuid} {source : String} {existing : List Document} {now : Time} {db : Db}
    {l : List Item} {k : Uuid} {done : List Item} {acc acc' : SyncAcc}
    (hloop : Loop env orgId source existing db done acc)
    (h : (l.zipIdx k).foldlM (syncItem env orgId source existing now) acc = .ok acc') :
    Loop env orgId source existing db (done ++ l) acc' := by
  induction l generalizing k done acc with
  | nil =>
    simp only [List.zipIdx_nil, List.foldlM_nil, pure, Except.pure, Except.ok.injEq] at h
    simpa [h] using hloop
  | cons item l ih =>
    simp only [List.zipIdx_cons, List.foldlM_cons, syncItem, bind, Except.bind] at h
    rw [← List.singleton_append, ← List.append_assoc]
    split at h
    · cases h
    · rename_i acc₁ hacc₁
      refine ih ?_ h
      split at hacc₁
      · rename_i hu
        obtain rfl := Except.ok.inj hacc₁
        exact hloop.skip hu
      · rename_i hu
        split at hacc₁
        · cases hacc₁
        · rename_i hup
          obtain rfl := Except.ok.inj hacc₁
          exact hloop.upsert (by simpa using hu) (upsertDocument_upserted rfl hup)

/-! ## The deletion loop -/

theorem DocsInv.missing_ids {n : Uuid} {db : Db} (h : DocsInv n db) (orgId : Uuid) (source : String)
    (items : List Item) : ((missing (sourceDocuments orgId source db) items).map Document.id).Nodup :=
  h.ids.sublist ((List.filter_sublist.trans List.filter_sublist).map _)

/-- The deletion loop is one update: each row it goes over is buried once. -/
theorem tombstones_documents {orgId : Uuid} {now : Time} {gone : List Document}
    (hids : (gone.map Document.id).Nodup) (db : Db) :
    (gone.foldl (tombstone orgId now) db).documents =
      updateWhere (rls orgId Document.orgId fun d => gone.any fun g => g.id == d.id) (·.bury now)
        db.documents := by
  induction gone generalizing db with
  | nil => exact (updateWhere_of_forall_not fun d _ => by simp [rls]).symm
  | cons g gone ih =>
    rw [List.map_cons, List.nodup_cons] at hids
    rw [List.foldl_cons, ih hids.2, tombstone, updateWhere, updateWhere, updateWhere, List.map_map]
    refine List.map_congr_left fun d _ => ?_
    have hg : (gone.any fun g' => g'.id == g.id) = false := by
      refine List.any_eq_false.2 fun g' hg' he => hids.1 ?_
      exact List.mem_map.2 ⟨g', hg', eq_of_beq he⟩
    rw [Function.comp]
    by_cases hd : d.orgId = orgId ∧ d.id = g.id
    · simp [rls, hd.1, hd.2, Document.bury, hg]
    · have hc : ¬ rls orgId Document.orgId (fun d => d.id == g.id) d = true := by simpa [rls] using hd
      simp only [if_neg hc]
      by_cases ho : d.orgId = orgId
      · have hid : (g.id == d.id) = false := beq_false_of_ne fun he => hd ⟨ho, he.symm⟩
        simp [rls, ho, hid]
      · simp [rls, ho]

/-! ## The document transaction -/

section Transaction

variable {orgId : Uuid} {source : String} {items : List Item} {n k : Uuid} {now : Time} {db : Db}
  {acc : SyncAcc}

/-- The rows of the snapshot are what the loop over the items compares with. -/
theorem isUnchanged_iff (hdocs : DocsInv n db) {item : Item} :
    isUnchanged env (sourceDocuments orgId source db) item = true ↔
      ∃ prior ∈ db.documents, prior.key = (orgId, source, item.path) ∧
        prior.contentHash = env.sha256 item.content ∧ prior.status = .ingested := by
  have hmem : ∀ doc, doc ∈ sourceDocuments orgId source db ∧ doc.path = item.path ↔
      doc ∈ db.documents ∧ doc.key = (orgId, source, item.path) := by
    intro doc
    simp only [sourceDocuments, rls, List.mem_filter, Bool.and_eq_true, beq_iff_eq, Document.key,
      Prod.mk.injEq]
    tauto
  unfold isUnchanged
  cases hf : (sourceDocuments orgId source db).find? fun d => d.path == item.path with
  | none =>
    simp only [Bool.false_eq_true, false_iff, not_exists, not_and]
    intro doc hdoc hk
    have hsrc := (hmem doc).2 ⟨hdoc, hk⟩
    simpa [hsrc.2] using List.find?_eq_none.1 hf doc hsrc.1
  | some prior =>
    obtain ⟨hprior, hk⟩ := (hmem prior).1
      ⟨List.mem_of_find?_eq_some hf, by simpa using List.find?_some hf⟩
    simp only [Bool.and_eq_true, beq_iff_eq]
    constructor
    · exact fun h => ⟨prior, hprior, hk, h⟩
    · rintro ⟨doc, hdoc, hkdoc, h⟩
      rwa [hdocs.eq_of_key hprior hdoc (hk.trans hkdoc.symm)]

/-- The rows the deletion loop buries are the missing ones of before. -/
theorem buried_iff (hdocs : DocsInv n db) (hacc : DocsInv k acc.db)
    (hloop : Loop env orgId source (sourceDocuments orgId source db) db items acc) {doc : Document}
    (hdoc : doc ∈ acc.db.documents) :
    Buried orgId (missing (sourceDocuments orgId source db) items) doc ↔
      doc ∈ db.documents ∧ Missing orgId source items doc := by
  constructor
  · rintro ⟨-, g, hg, hid⟩
    obtain ⟨hg, hmiss⟩ := mem_missing.1 hg
    obtain ⟨g', hg', hid', hkey, -⟩ := hloop.kept g hg
    obtain rfl : g' = doc := hacc.eq_of_id hg' hdoc (hid'.trans hid)
    have hpath : g'.path = g.path := congrArg (·.2.2) hkey
    have hold : g' ∈ db.documents := by
      refine hloop.skipped g' hdoc ((congrArg (·.1) hkey).trans hmiss.1)
        ((congrArg (·.2.1) hkey).trans hmiss.2.1) (lastUpload_eq_none.2 fun i hi hp => ?_)
      exact absurd (hp.trans hpath) (hmiss.2.2.1 i hi)
    obtain rfl : g' = g := hdocs.eq_of_id hold hg hid'
    exact ⟨hold, hmiss⟩
  · rintro ⟨hold, hmiss⟩
    exact ⟨hmiss.1, doc, mem_missing.2 ⟨hold, hmiss⟩, rfl⟩

/-- The document transaction, when `acc` is what the loop over the items has come to. -/
structure Synced (env : Env) (orgId : Uuid) (source : String) (items : List Item) (n k : Uuid)
    (now : Time) (db : Db) (acc : SyncAcc) (db' : Db) : Prop where
  docs : DocsInv n db
  loopDocs : DocsInv k acc.db
  loop : Loop env orgId source (sourceDocuments orgId source db) db items acc
  rows : db'.documents = updateWhere (rls orgId Document.orgId fun d =>
    (missing (sourceDocuments orgId source db) items).any fun g => g.id == d.id) (·.bury now)
      acc.db.documents
  chunks : db'.chunks = db.chunks.filter fun c =>
    !(c.orgId == orgId && (missing (sourceDocuments orgId source db) items).any
      fun g => g.id == c.documentId)

/-- The transaction takes the loop's rows as its own, but buries those that were missing before. -/
theorem Synced.mem {db' : Db} (h : Synced env orgId source items n k now db acc db') {doc' : Document} :
    doc' ∈ db'.documents ↔ ∃ doc ∈ acc.db.documents,
      (doc ∈ db.documents ∧ Missing orgId source items doc ∧ doc' = doc.bury now) ∨
      (¬ (doc ∈ db.documents ∧ Missing orgId source items doc) ∧ doc' = doc) := by
  rw [h.rows, mem_updateWhere]
  refine exists_congr fun doc => and_congr_right fun hdoc => ?_
  have hb := buried_iff h.docs h.loopDocs h.loop hdoc
  have hp : rls orgId Document.orgId (fun d => (missing (sourceDocuments orgId source db) items).any
      fun g => g.id == d.id) doc = true ↔ doc ∈ db.documents ∧ Missing orgId source items doc := by
    rw [← hb, Buried]
    simp [rls]
  by_cases hgone : doc ∈ db.documents ∧ Missing orgId source items doc
  · rw [if_pos (hp.2 hgone)]
    exact ⟨fun he => .inl ⟨hgone.1, hgone.2, he.symm⟩, fun he => by
      rcases he with ⟨-, -, he⟩ | ⟨hn, -⟩
      · exact he.symm
      · exact absurd hgone hn⟩
  · rw [if_neg fun hc => hgone (hp.1 hc)]
    exact ⟨fun he => .inr ⟨hgone, he.symm⟩, fun he => by
      rcases he with ⟨hold, hmiss, -⟩ | ⟨-, he⟩
      · exact absurd ⟨hold, hmiss⟩ hgone
      · exact he.symm⟩

/-- The jobs to enqueue are for the rows of items that are not skipped, under the keys of what they say. -/
theorem Synced.queued {db' : Db} (h : Synced env orgId source items n k now db acc db') {job : PendingJob}
    (hjob : job ∈ acc.toEnqueue) :
    ∃ item ∈ items, isUnchanged env (sourceDocuments orgId source db) item = false ∧
      ∃ doc ∈ db'.documents, doc.key = (orgId, source, item.path) ∧
        job = ⟨orgId, doc.id, ingestKey doc.id (env.sha256 item.content) doc.revision⟩ := by
  obtain ⟨item, hitem, hchanged, doc, hdoc, hkey, hj⟩ := h.loop.queued job hjob
  refine ⟨item, hitem, hchanged, doc, h.mem.2 ⟨doc, hdoc, .inr ⟨?_, rfl⟩⟩, hkey, hj⟩
  rintro ⟨-, hmiss⟩
  exact hmiss.2.2.1 item hitem (congrArg (·.2.2) hkey).symm

/-- A document that is live after the transaction is as the loop over the items has left it. -/
theorem Synced.mem_live {db' : Db} (h : Synced env orgId source items n k now db acc db') {doc' : Document}
    (hlive : doc'.status ≠ .deleted) :
    doc' ∈ db'.documents ↔
      doc' ∈ acc.db.documents ∧ ¬ (doc' ∈ db.documents ∧ Missing orgId source items doc') := by
  rw [h.mem]
  constructor
  · rintro ⟨doc, hdoc, ⟨-, -, rfl⟩ | ⟨hn, rfl⟩⟩
    · exact absurd rfl hlive
    · exact ⟨hdoc, hn⟩
  · rintro ⟨hdoc, hn⟩
    exact ⟨doc', hdoc, .inr ⟨hn, rfl⟩⟩

/-- A listed path has a live document, and it is the one last uploaded, with a job to enqueue, or, if the
path was skipped, the one of before. -/
theorem Synced.listed {db' : Db} (h : Synced env orgId source items n k now db acc db') {item : Item}
    (hitem : item ∈ items) :
    ∃ doc ∈ db'.documents, doc.key = (orgId, source, item.path) ∧ doc.status ≠ .deleted ∧
      (lastUpload env (sourceDocuments orgId source db) items item.path = none → doc ∈ db.documents) ∧
      ∀ i ∈ lastUpload env (sourceDocuments orgId source db) items item.path,
        Says env i doc ∧ doc.status = .pending ∧ ∃ job ∈ acc.toEnqueue, job.documentId = doc.id := by
  have hnamed : ∀ doc : Document, doc.key = (orgId, source, item.path) →
      ¬ (doc ∈ db.documents ∧ Missing orgId source items doc) := fun doc hk hmiss =>
    hmiss.2.2.2.1 item hitem (congrArg (·.2.2) hk).symm
  cases hlast : lastUpload env (sourceDocuments orgId source db) items item.path with
  | some i =>
    obtain ⟨hi, hp, hu⟩ := lastUpload_mem hlast
    obtain ⟨doc, hdoc, hk, hjob⟩ := h.loop.placed i hi hu
    rw [hp] at hk
    have hpath : doc.path = item.path := congrArg (·.2.2) hk
    obtain ⟨hstatus, htext⟩ := h.loop.uploaded doc hdoc (congrArg (·.1) hk) (congrArg (·.2.1) hk) i
      (by rw [hpath]; exact hlast)
    have hlive : doc.status ≠ .deleted := by simp [hstatus]
    refine ⟨doc, (h.mem_live hlive).2 ⟨hdoc, hnamed doc hk⟩, hk, hlive, by simp, ?_⟩
    rintro _ ⟨⟩
    exact ⟨htext, hstatus, hjob⟩
  | none =>
    obtain ⟨prior, hprior, hk, -, hingested⟩ := (isUnchanged_iff h.docs).1
      (lastUpload_eq_none.1 hlast item hitem rfl)
    obtain ⟨doc, hdoc, -, hk', -⟩ := h.loop.kept prior hprior
    have hkey := hk'.trans hk
    have hpath : doc.path = item.path := congrArg (·.2.2) hkey
    have hold := h.loop.skipped doc hdoc (congrArg (·.1) hkey) (congrArg (·.2.1) hkey)
      (by rw [hpath]; exact hlast)
    obtain rfl := h.docs.eq_of_key hold hprior hk'
    have hlive : doc.status ≠ .deleted := by simp [hingested]
    exact ⟨doc, (h.mem_live hlive).2 ⟨hdoc, hnamed doc hkey⟩, hkey, hlive, fun _ => hold, by simp⟩

theorem Synced.live_iff {db' : Db} (h : Synced env orgId source items n k now db acc db') (path : String) :
    (∃ doc ∈ db'.documents, doc.key = (orgId, source, path) ∧ doc.status ≠ .deleted) ↔
      ∃ i ∈ items, i.path = path := by
  constructor
  · rintro ⟨doc, hdoc, hk, hlive⟩
    obtain ⟨hdoc, hn⟩ := (h.mem_live hlive).1 hdoc
    cases hk
    cases hlast : lastUpload env (sourceDocuments doc.orgId doc.source db) items doc.path with
    | some i =>
      obtain ⟨hi, hp, -⟩ := lastUpload_mem hlast
      exact ⟨i, hi, hp⟩
    | none =>
      have hold := h.loop.skipped doc hdoc rfl rfl hlast
      by_contra hno
      exact hn ⟨hold, rfl, rfl, fun i hi hp => hno ⟨i, hi, hp⟩, hlive⟩
  · rintro ⟨item, hitem, rfl⟩
    obtain ⟨doc, hdoc, hk, hlive, -⟩ := h.listed hitem
    exact ⟨doc, hdoc, hk, hlive⟩

/-- The live documents say what the items that are meant say iff the skipped ones are skipped rightly. -/
theorem Synced.held_iff {db' : Db} (h : Synced env orgId source items n k now db acc db')
    (hdocs' : DocsInv k db') :
    (∀ doc ∈ db'.documents, doc.orgId = orgId → doc.source = source → doc.status ≠ .deleted →
      ∀ item ∈ meant items doc.path, Says env item doc) ↔
      SkipsRightly env (sourceDocuments orgId source db) items := by
  have hexisting : ∀ prior ∈ sourceDocuments orgId source db,
      prior ∈ db.documents ∧ prior.orgId = orgId ∧ prior.source = source := by
    intro prior hprior
    simpa [sourceDocuments, rls] using hprior
  constructor
  · intro hheld item hitem hmeant hu
    obtain ⟨doc, hdoc, hk, hlive, hskipped, huploaded⟩ := h.listed hitem
    have hpath : doc.path = item.path := congrArg (·.2.2) hk
    have htext := hheld doc hdoc (congrArg (·.1) hk) (congrArg (·.2.1) hk) hlive item
      (by rw [hpath]; exact hmeant)
    obtain ⟨prior, hprior, hkprior, hhash, hingested⟩ := (isUnchanged_iff h.docs).1 hu
    -- an item uploaded over the document would have left another hash than the one item is skipped for
    have hnone : lastUpload env (sourceDocuments orgId source db) items item.path = none := by
      cases hlast : lastUpload env (sourceDocuments orgId source db) items item.path with
      | none => rfl
      | some i =>
        obtain ⟨-, hp, hui⟩ := lastUpload_mem hlast
        have hsame : env.sha256 i.content = env.sha256 item.content :=
          (huploaded i hlast).1.contentHash.symm.trans htext.contentHash
        have huc : isUnchanged env (sourceDocuments orgId source db) i = true := by
          refine (isUnchanged_iff h.docs).2 ⟨prior, hprior, by rw [hkprior, hp], ?_, hingested⟩
          rw [hhash, hsame]
        cases hui.symm.trans huc
    refine ⟨fun doc' hdoc' hp => ?_, fun i hi hp => lastUpload_eq_none.1 hnone i hi hp⟩
    obtain ⟨hdoc', ho, hs⟩ := hexisting doc' hdoc'
    obtain rfl : doc' = doc := h.docs.eq_of_key hdoc' (hskipped hnone)
      ((Prod.ext ho (Prod.ext hs hp)).trans hk.symm)
    exact ⟨htext.content, htext.acl⟩
  · intro hskips doc hdoc ho hs hlive item hmeant
    obtain ⟨hitem, hp⟩ := meant_mem hmeant
    obtain ⟨doc', hdoc', hk, -, hskipped, huploaded⟩ := h.listed hitem
    obtain rfl : doc = doc' := hdocs'.eq_of_key hdoc hdoc'
      ((Prod.ext ho (Prod.ext hs hp.symm) : doc.key = (orgId, source, item.path)).trans hk.symm)
    cases hu : isUnchanged env (sourceDocuments orgId source db) item with
    | false => exact (huploaded item (lastUpload_eq_meant (by rw [hp]; exact hmeant) hu)).1
    | true =>
      obtain ⟨hsame, hall⟩ := hskips item hitem (by rw [hp]; exact hmeant) hu
      have hold := hskipped (lastUpload_eq_none.2 hall)
      obtain ⟨hcontent, hacl⟩ := hsame doc (by simp [sourceDocuments, rls, hold, ho, hs]) hp.symm
      obtain ⟨prior, hprior, hkprior, hhash, -⟩ := (isUnchanged_iff h.docs).1 hu
      obtain rfl := h.docs.eq_of_key hprior hold (hkprior.trans hk.symm)
      exact ⟨hcontent, hhash, hacl⟩

theorem Synced.buried {db' : Db} (h : Synced env orgId source items n k now db acc db') {doc : Document}
    (hdoc : doc ∈ db.documents) (hmiss : Missing orgId source items doc) :
    (∀ c ∈ db'.chunks, c.documentId ≠ doc.id) ∧
    ∃ doc' ∈ db'.documents, doc'.id = doc.id ∧ doc'.key = doc.key ∧ doc'.status = .deleted ∧
      doc'.content = "" ∧ doc'.revision = doc.revision + 1 := by
  constructor
  · intro c hc hcid
    rw [h.chunks, List.mem_filter] at hc
    obtain ⟨d, hd, hid, ho⟩ := h.docs.owner c hc.1
    obtain rfl := h.docs.eq_of_id hd hdoc (hid.trans hcid)
    have hany : ((missing (sourceDocuments orgId source db) items).any fun g => g.id == c.documentId) =
        true :=
      List.any_eq_true.2 ⟨d, mem_missing.2 ⟨hdoc, hmiss⟩, beq_iff_eq.2 hcid.symm⟩
    rw [hany, ← ho, hmiss.1] at hc
    simp at hc
  · obtain ⟨doc', hdoc', hid, hk, hr⟩ := h.loop.kept doc hdoc
    have hnone : lastUpload env (sourceDocuments orgId source db) items doc'.path = none := by
      have hpath : doc'.path = doc.path := congrArg (·.2.2) hk
      exact lastUpload_eq_none.2 fun i hi hp => absurd (hp.trans hpath) (hmiss.2.2.1 i hi)
    have hold := h.loop.skipped doc' hdoc' ((congrArg (·.1) hk).trans hmiss.1)
      ((congrArg (·.2.1) hk).trans hmiss.2.1) hnone
    obtain rfl := h.docs.eq_of_id hold hdoc hid
    exact ⟨doc'.bury now, h.mem.2 ⟨doc', hdoc', .inl ⟨hdoc, hmiss, rfl⟩⟩, rfl, rfl, rfl, rfl, rfl⟩

theorem Synced.others {db' : Db} (h : Synced env orgId source items n k now db acc db') :
    db'.documents.filter (elsewhere orgId source) = db.documents.filter (elsewhere orgId source) := by
  rw [h.rows, ← h.loop.others]
  have hhere : ∀ doc ∈ acc.db.documents, rls orgId Document.orgId (fun d =>
      (missing (sourceDocuments orgId source db) items).any fun g => g.id == d.id) doc = true →
      elsewhere orgId source doc = false := by
    intro doc hdoc hp
    have hb : Buried orgId (missing (sourceDocuments orgId source db) items) doc := by
      simpa [rls, Buried] using hp
    obtain ⟨-, hmiss⟩ := (buried_iff h.docs h.loopDocs h.loop hdoc).1 hb
    simp [elsewhere, hmiss.1, hmiss.2.1]
  exact filter_updateWhere_of_disjoint hhere hhere

theorem Synced.otherChunks {db' : Db} (h : Synced env orgId source items n k now db acc db')
    {doc : Document} (hdoc : doc ∈ db.documents) (helse : elsewhere orgId source doc = true) :
    db'.chunks.filter (fun c => c.documentId == doc.id) =
      db.chunks.filter (fun c => c.documentId == doc.id) := by
  rw [h.chunks, List.filter_filter]
  refine List.filter_congr fun c _ => ?_
  by_cases hc : c.documentId = doc.id
  · have hany : ((missing (sourceDocuments orgId source db) items).any fun g => g.id == c.documentId) =
        false := by
      refine List.any_eq_false.2 fun g hg hid => ?_
      obtain ⟨hg, hmiss⟩ := mem_missing.1 hg
      obtain rfl := h.docs.eq_of_id hg hdoc ((eq_of_beq hid).trans hc)
      simp [elsewhere, hmiss.1, hmiss.2.1] at helse
    simp [hany]
  · simp [hc]

/-- The rows buried and the new tombstones are the same documents. -/
theorem Synced.deleted {db' : Db} (h : Synced env orgId source items n k now db acc db')
    (hdocs' : DocsInv k db') :
    (missing (sourceDocuments orgId source db) items).length = (newTombstones db db').length := by
  have hgone := h.docs.missing_ids orgId source items
  have hnew : ((newTombstones db db').map Document.id).Nodup :=
    hdocs'.ids.sublist (List.filter_sublist.map _)
  rw [← List.length_map (f := Document.id), ← List.length_map (f := Document.id)]
  refine ((List.perm_ext_iff_of_nodup hgone hnew).2 fun id => ?_).length_eq
  simp only [List.mem_map, newTombstones, List.mem_filter, Bool.and_eq_true, beq_iff_eq,
    Bool.not_eq_true', List.any_eq_false, not_and]
  constructor
  · rintro ⟨g, hg, rfl⟩
    obtain ⟨hg, hmiss⟩ := mem_missing.1 hg
    obtain ⟨-, doc', hdoc', hid, -, hstatus, -⟩ := h.buried hg hmiss
    refine ⟨doc', ⟨hdoc', hstatus, fun old hold he => ?_⟩, hid⟩
    obtain rfl := h.docs.eq_of_id hold hg (he.trans hid)
    exact hmiss.2.2.2
  · rintro ⟨doc', ⟨hdoc', hstatus, hfresh⟩, rfl⟩
    obtain ⟨doc, hdoc, ⟨hold, hmiss, rfl⟩ | ⟨-, rfl⟩⟩ := h.mem.1 hdoc'
    · exact ⟨doc, mem_missing.2 ⟨hold, hmiss⟩, rfl⟩
    · -- a tombstone the loop has left was one before
      have hold : doc' ∈ db.documents := by
        by_cases hin : doc'.orgId = orgId ∧ doc'.source = source
        · cases hlast : lastUpload env (sourceDocuments orgId source db) items doc'.path with
          | none => exact h.loop.skipped doc' hdoc hin.1 hin.2 hlast
          | some i =>
            cases hstatus.symm.trans (h.loop.uploaded doc' hdoc hin.1 hin.2 i hlast).1
        · have hmem : doc' ∈ acc.db.documents.filter (elsewhere orgId source) :=
            List.mem_filter.2 ⟨hdoc, by simpa [elsewhere, imp_iff_not_or] using hin⟩
          rw [h.loop.others] at hmem
          exact List.mem_of_mem_filter hmem
      exact absurd hstatus (hfresh doc' hold rfl)

end Transaction

/-- `syncTx` is its two loops. -/
theorem syncTx_synced {precheck : Db → Except Err Unit} {orgId : Uuid} {source : String}
    {items : List Item} {n : Uuid} {now : Time} {db db' : Db} {result : SyncResult}
    {jobs : List PendingJob} (hdocs : DocsInv n db)
    (h : syncTx env precheck orgId source items n now db = .ok ((result, jobs), db')) :
    ∃ acc, Synced env orgId source items n (n + items.length) now db acc db' ∧
      jobs = acc.toEnqueue ∧ result = ⟨acc.toEnqueue.length, acc.unchanged,
        (missing (sourceDocuments orgId source db) items).length⟩ := by
  simp only [syncTx, bind, Except.bind] at h
  split at h
  · cases h
  split at h
  · cases h
  rename_i acc hacc
  simp only [Except.ok.injEq, Prod.mk.injEq] at h
  obtain ⟨⟨rfl, rfl⟩, rfl⟩ := h
  have hinv := syncItems_inv (fun i hi => hi) (le_refl n)
    ⟨rfl, hdocs, fun doc hdoc => .inl hdoc, fun doc hdoc => ⟨doc, hdoc, rfl⟩, by simp⟩ hacc
  have hloop : Loop env orgId source (sourceDocuments orgId source db) db [] ⟨db, 0, []⟩ :=
    ⟨fun doc hdoc _ _ _ => hdoc, by simp [lastUpload], by simp, by simp, fun doc hdoc => ⟨doc, hdoc, rfl, rfl, rfl⟩,
      rfl, rfl⟩
  refine ⟨acc, ⟨hdocs, hinv.docs, syncItems_loop hloop hacc,
    tombstones_documents (hdocs.missing_ids orgId source items) acc.db, ?_⟩, rfl, rfl⟩
  rw [mem_chunks_tombstones, hinv.frame]

/-- A sync makes the source equal to the upload iff the items it skips are skipped rightly. -/
theorem reconciled_iff (precheck : Db → Except Err Unit) (orgId : Uuid) (source : String)
    (items : List Item) (n : Uuid) (now : Time) (db db' : Db) (result : SyncResult)
    (jobs : List PendingJob) (hdocs : DocsInv n db)
    (h : syncTx env precheck orgId source items n now db = .ok ((result, jobs), db')) :
    Reconciled env orgId source items result db db' ↔
      SkipsRightly env (sourceDocuments orgId source db) items := by
  have hdocs' : DocsInv (n + items.length) db' := (syncTx_spec hdocs h).docs
  obtain ⟨acc, hs, -, rfl⟩ := syncTx_synced hdocs h
  rw [← hs.held_iff hdocs']
  constructor
  · exact fun hr => hr.held
  · exact fun hheld => ⟨hs.live_iff, hheld, fun doc hdoc => hs.buried hdoc, hs.others,
      fun doc hdoc => hs.otherChunks hdoc, hs.loop.counted, hs.deleted hdocs'⟩

/-- An org whose `a.txt` is ingested, for the whole org to read. -/
def ingestedDesk : Db where
  orgs := [⟨1, "acme", "Acme"⟩]
  documents := [{ Pipeline.inFlight with status := .ingested }]

theorem ingestedDesk_docs : DocsInv 20 ingestedDesk :=
  ⟨by decide, by decide, by decide, by decide⟩

/-- The org after an upload of `a.txt` as `beta`, for nobody to read. -/
def editedDesk : Db :=
  { ingestedDesk with
    documents := [{ Pipeline.inFlight with
      content := "beta", contentHash := Pipeline.digest "beta", acl := [], updatedAt := seconds 9 }] }

/-- An edit that names the empty acl. -/
theorem reconciled_after_an_edit :
    Reconciled (asciiEnv Pipeline.digest) 1 "upload" [⟨"a.txt", "beta", some []⟩] ⟨1, 0, 0⟩ ingestedDesk
      editedDesk := by
  refine (reconciled_iff (fun _ => .ok ()) 1 "upload" [⟨"a.txt", "beta", some []⟩] 20 (seconds 9)
    ingestedDesk editedDesk ⟨1, 0, 0⟩
    [⟨1, 10, ingestKey 10 (Pipeline.digest "beta") 0⟩] ingestedDesk_docs (by decide)).2 ?_
  intro item hitem _ hu
  obtain rfl := List.mem_singleton.1 hitem
  exact absurd hu (by decide)

/-- The upload takes `a.txt` from everybody, with the content it has: it is skipped, and everybody still
reads it. -/
theorem upload_for_nobody_is_skipped :
    ∃ result jobs db', DocsInv 20 ingestedDesk ∧
      syncTx (asciiEnv Pipeline.digest) (fun _ => .ok ()) 1 "upload" [⟨"a.txt", "alpha", some []⟩] 20
        (seconds 9) ingestedDesk = .ok ((result, jobs), db') ∧
      ¬ Reconciled (asciiEnv Pipeline.digest) 1 "upload" [⟨"a.txt", "alpha", some []⟩] result ingestedDesk
        db' := by
  refine ⟨⟨0, 1, 0⟩, [], ingestedDesk, ingestedDesk_docs, by decide, fun h => ?_⟩
  have htext := h.held { Pipeline.inFlight with status := .ingested } (by decide) rfl rfl (by decide)
    ⟨"a.txt", "alpha", some []⟩ (by decide)
  have hacl := htext.acl [] rfl
  revert hacl
  decide

end KnowledgeDesk.Proofs
