import KnowledgeDesk.Proofs.PipelineProofs

/-!
# The ACL on the chunks

A chunk carries a copy of its document's ACL. The copies follow the document under every step but one:
the write of a worker that read the document under another ACL. While they agree, the filter on the
chunks decides what the document's own ACL decides.
-/

open Table

namespace KnowledgeDesk.Proofs

open Pipeline Runs

variable {env : Env} {s : Pipeline}

/-- Every chunk of an ingested document carries the document's ACL. -/
def AclInSync (s : Pipeline) : Prop :=
  ∀ id doc, s.db.document? id = some doc → doc.status = .ingested →
    ∀ c ∈ s.db.chunksOf id, c.acl = doc.acl

/-- The filters of `search` and `get_document` decide what the documents' own ACLs decide: the
candidates are the chunks of the documents that name a principal, and a document is returned whole or
not at all. -/
def FiltersFollowAcl (db : Db) : Prop :=
  ∀ (ctx : AuthContext) (ps : List String),
    ingestedChunks ctx (fun c => anyOf c.acl ps) db =
        (ingestedChunks ctx (fun _ => true) db).filter (fun r => anyOf r.2.acl ps) ∧
    ∀ id, (visibleDocument ctx ps id db).map (·.chunkCount) =
      (db.document? id).bind fun d =>
        if d.orgId = ctx.orgId ∧ d.status = .ingested ∧ anyOf d.acl ps = true ∧ db.chunksOf id ≠ [] then
          some (db.chunksOf id).length
        else none

/-- The step writes chunks under an ACL that is not the row's. -/
def WritesStaleAcl (s : Pipeline) : Label → Prop
  | .write worker _ => ∃ job doc rows row, s.workers worker = .embedded job doc rows ∧ rows ≠ [] ∧
      s.db.document? doc.id = some row ∧ doc.acl ≠ row.acl
  | _ => False

/-- Filtering what is listed for each item, where the filter only depends on the item. -/
theorem flatMap_filter_of_agree {α β : Type} {a p : α → Bool} {g : α → List β} {q : β → Bool}
    {l : List α} (h : ∀ x ∈ l, a x = true → ∀ y ∈ g x, q y = p x) :
    (l.filter fun x => a x && p x).flatMap g = ((l.filter a).flatMap g).filter q := by
  induction l with
  | nil => rfl
  | cons x l ih =>
    have ih' := ih fun y hy => h y (List.mem_cons_of_mem x hy)
    cases ha : a x with
    | false => simpa [List.filter_cons, ha] using ih'
    | true =>
      have hx := h x List.mem_cons_self ha
      cases hp : p x with
      | true =>
        have hq : (g x).filter q = g x := List.filter_eq_self.2 fun y hy => (hx y hy).trans hp
        simp [ha, hp, ih', List.filter_append, hq]
      | false =>
        have hq : (g x).filter q = [] :=
          List.filter_eq_nil_iff.2 fun y hy => by simp [hx y hy, hp]
        simp [ha, hp, ih', List.filter_append, hq]

/-- The row `get_document` returns text of. -/
theorem visibleRow_eq (h : Inv env s) (orgId id : Uuid) :
    s.db.documents.find? (rls orgId Document.orgId fun d =>
        d.id == id && d.orgId == orgId && d.status == .ingested) =
      (s.db.document? id).filter fun d => d.orgId == orgId && d.status == .ingested := by
  have hp : (rls orgId Document.orgId fun d =>
      d.id == id && d.orgId == orgId && d.status == .ingested) =
      fun d : Document => d.id == id && (d.orgId == orgId && d.status == .ingested) := by
    funext d
    simp only [rls]
    cases d.orgId == orgId <;> cases d.id == id <;> simp
  rw [hp, find?_and h.docs.ids, Db.document?]

/-- The chunks of an ingested document the filter lets through: all of them, or none. -/
theorem visibleChunks_eq (h : Inv env s) (hs : AclInSync s) {doc : Document} {ps : List String}
    (hrow : s.db.document? doc.id = some doc) (hst : doc.status = .ingested) :
    s.db.chunks.filter (rls doc.orgId Chunk.orgId fun c => c.documentId == doc.id && anyOf c.acl ps) =
      if anyOf doc.acl ps then s.db.chunksOf doc.id else [] := by
  have hmem := ((document?_eq_some h.docs).1 hrow).1
  have hown : Owned s doc.id doc.orgId :=
    ⟨h.docs.fresh doc hmem, fun d hd he => by rw [h.docs.eq_of_id hd hmem he]⟩
  have hacl : ∀ c ∈ s.db.chunks, c.documentId = doc.id → c.acl = doc.acl := fun c hc hcd =>
    hs _ doc hrow hst c (List.mem_filter.2 ⟨hc, by simpa using hcd⟩)
  split
  · rename_i hps
    refine List.filter_congr fun c hc => ?_
    by_cases hcd : c.documentId = doc.id
    · simp [rls, hcd, hacl c hc hcd, hps, chunk_org h hown hc hcd]
    · simp [rls, beq_false_of_ne hcd]
  · rename_i hps
    refine List.filter_eq_nil_iff.2 fun c hc => ?_
    by_cases hcd : c.documentId = doc.id
    · simp [rls, hcd, hacl c hc hcd, hps]
    · simp [rls, beq_false_of_ne hcd]

theorem filtersFollowAcl_of_inSync (h : Inv env s) (hs : AclInSync s) : FiltersFollowAcl s.db := by
  intro ctx ps
  constructor
  · have hassoc : rls ctx.orgId Chunk.orgId (fun c => c.orgId == ctx.orgId && anyOf c.acl ps) =
        fun c => rls ctx.orgId Chunk.orgId (fun c => c.orgId == ctx.orgId && true) c && anyOf c.acl ps := by
      funext c
      simp [rls]
    rw [ingestedChunks, hassoc]
    refine flatMap_filter_of_agree fun c hc _ r hr => ?_
    obtain ⟨d, hd, rfl⟩ := List.mem_map.1 hr
    simp only [List.mem_filter, rls, Bool.and_eq_true, beq_iff_eq] at hd
    have hdoc := (document?_eq_some h.docs).2 ⟨hd.1, hd.2.2.1⟩
    rw [hs _ d hdoc hd.2.2.2 c (List.mem_filter.2 ⟨hc, by simp⟩)]
  · intro id
    simp only [visibleDocument, visibleRow_eq h]
    cases hrow : s.db.document? id with
    | none => rfl
    | some doc =>
      obtain ⟨-, rfl⟩ := (document?_eq_some h.docs).1 hrow
      by_cases hcond : doc.orgId = ctx.orgId ∧ doc.status = .ingested
      · rw [Option.filter_some, if_pos (by simp [hcond]), ← hcond.1]
        simp only [Option.bind_some, visibleChunks_eq h hs hrow hcond.2, hcond.2, true_and]
        by_cases hps : anyOf doc.acl ps = true
        · by_cases he : s.db.chunksOf doc.id = [] <;> simp [hps, he]
        · simp [hps]
      · rw [Option.filter_some, if_neg (by simpa using hcond)]
        simp only [Option.bind_none, Option.map_none, Option.bind_some]
        rw [if_neg]
        exact fun hc => hcond ⟨hc.1, hc.2.1⟩

/-- One step: the copies stay in sync unless a worker writes chunks under a stale ACL. -/
theorem aclInSync_step (h : Inv env s) (hs : AclInSync s) (l : Label) :
    AclInSync (step env s l) ↔ ¬ WritesStaleAcl s l := by
  constructor
  · intro hs' hstale
    cases l with
    | write worker now =>
      obtain ⟨job, doc, rows, row, hphase, hne, hrow, hacl⟩ := hstale
      have hw : PhaseInv env s (.embedded job doc rows) := hphase ▸ h.workers worker
      obtain ⟨c, hc⟩ := List.exists_mem_of_ne_nil rows hne
      cases step_document h (.write worker now) doc.id with
      | same _ _ hno => simp [hno ⟨job, doc, rows, hphase, rfl⟩] at hrow
      | written job' doc' rows' hphase' _ hdoc hchunks =>
        obtain ⟨rfl, rfl, rfl⟩ : job = job' ∧ doc = doc' ∧ rows = rows' := by
          simpa [hphase] using hphase'
        have := hs' doc.id _ (by rw [hdoc, hrow, Option.map_some]) rfl c (by rw [hchunks]; exact hc)
        exact hacl (((hw.rows job doc rows rfl).owner c hc).2.2.symm.trans this)
    | _ => exact hstale
  · intro hn id doc hdoc' hst c hc
    cases step_document h l id with
    | same hdoc hchunks _ => exact hs id doc (hdoc ▸ hdoc') hst c (hchunks ▸ hc)
    | uploaded doc' hdoc hup _ _ _ =>
      obtain rfl : doc' = doc := by simpa [hdoc] using hdoc'
      simp [hup.pending] at hst
    | dropped _ doc' _ _ hdoc _ hstatus _ =>
      obtain rfl : doc' = doc := by simpa [hdoc] using hdoc'
      simp [hstatus] at hst
    | @written worker now _ job read rows hphase hid hdoc hchunks =>
      obtain ⟨row, hrow, rfl⟩ := Option.map_eq_some_iff.1 (hdoc ▸ hdoc')
      have hw : PhaseInv env s (.embedded job read rows) := hphase ▸ h.workers worker
      rw [hchunks] at hc
      have hacl : read.acl = row.acl := by
        by_contra hne
        exact hn ⟨job, read, rows, row, hphase, List.ne_nil_of_mem hc, hid ▸ hrow, hne⟩
      rw [((hw.rows job read rows rfl).owner c hc).2.2, hacl]
      rfl
    | failed _ _ _ _ hdoc _ =>
      obtain ⟨row, -, rfl⟩ := Option.map_eq_some_iff.1 (hdoc ▸ hdoc')
      cases hst
    | permitted d _ hdoc hchunks =>
      obtain rfl : d.setAcl _ _ = doc := by simpa [hdoc] using hdoc'
      rw [hchunks] at hc
      obtain ⟨c₀, -, rfl⟩ := List.mem_map.1 hc
      rfl
    | deleted hdoc _ => simp [hdoc] at hdoc'

/-- The copies of the ACL: over a whole run, from a database without documents, they are in sync in
every state, and the filters with them, iff no worker's write brings chunks under a stale ACL. -/
theorem acl_in_sync_iff {db : Db} {n : Uuid} {ls : List Label} (hd : db.documents = [])
    (hc : db.chunks = []) (hj : db.jobs = []) :
    Throughout (step env) (fun s => AclInSync s ∧ FiltersFollowAcl s.db) (atRest db n) ls ↔
      EachStep (step env) (fun s l => ¬ WritesStaleAcl s l) (atRest db n) ls := by
  have hinv : Inv env (atRest db n) := inv_of_reachable ⟨db, n, [], hd, hc, hj, rfl⟩
  have hsync : AclInSync (atRest db n) := fun id doc hdoc => by
    simp [Db.document?, atRest, hd] at hdoc
  refine throughout_iff_eachStep (I := Inv env) (fun s l hi => step_inv hi l) (fun s l hi hp => ?_) hinv
    ⟨hsync, filtersFollowAcl_of_inSync hinv hsync⟩
  rw [← aclInSync_step hi hp.1 l]
  exact ⟨fun h => h.1, fun h => ⟨h, filtersFollowAcl_of_inSync (step_inv hi l) h⟩⟩

/-- An upload, its job, the worker's run and then a new ACL: the worker writes under the ACL that the row
has. -/
theorem acl_in_sync_after_write :
    Throughout (step (asciiEnv digest)) (fun s => AclInSync s ∧ FiltersFollowAcl s.db) oneOrg
      ([upload 0 [⟨"a.txt", "alpha", none⟩] (seconds 1), .enqueue 0 (seconds 2)] ++
        process 0 (seconds 3) ++
        [.updateAcl ⟨2, 1, .owner, "ada@acme.test"⟩ 10 ["user:2"] (seconds 4)]) := by
  have hwrite : ¬ WritesStaleAcl embeddedInFlight (.write 0 (seconds 3)) := by
    rintro ⟨job, doc, rows, row, hphase, -, hrow, hstale⟩
    have hworker : embeddedInFlight.workers 0 = .embedded _ inFlight _ := rfl
    have hrow' : embeddedInFlight.db.document? inFlight.id = some inFlight := rfl
    obtain ⟨-, rfl, -⟩ := Phase.embedded.inj (hworker.symm.trans hphase)
    obtain rfl := Option.some.inj (hrow'.symm.trans hrow)
    exact hstale rfl
  exact (acl_in_sync_iff rfl rfl rfl).2 ⟨id, id, id, id, id, hwrite, id, id, trivial⟩

/-- An administrator restricts a document while a worker embeds it: the worker's write brings the old
ACL back, on the chunks. -/
theorem write_restores_old_acl :
    Reachable (asciiEnv digest) embeddedInFlight ∧
      ¬ Throughout (step (asciiEnv digest)) (fun s => AclInSync s ∧ FiltersFollowAcl s.db) embeddedInFlight
        [.updateAcl ⟨2, 1, .owner, "ada@acme.test"⟩ 10 ["user:2"] (seconds 4),
          .write 0 (seconds 5)] := by
  refine ⟨reachable_embeddedInFlight, fun h => ?_⟩
  have hacl := h.last.1 10
    { inFlight with acl := ["user:2"], status := .ingested, updatedAt := seconds 5 }
    (by decide) rfl ⟨1, 10, 0, "alpha", [1], DEFAULT_ACL⟩ (by decide)
  simp [DEFAULT_ACL] at hacl

end KnowledgeDesk.Proofs
