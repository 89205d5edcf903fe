import KnowledgeDesk.Lib.Contracts
import KnowledgeDesk.Proofs.PipelineProofs
import KnowledgeDesk.Uploads
import Mathlib.Algebra.Order.Group.Nat

/-!
# Storage caps

What an org stores is measured by an upload that holds the lock on the org's row. From there to its
commit the other transactions can take documents away, or rewrite rows the upload does not touch to rows
that weigh no more, and so the measure and the items still to come bound what the commit leaves. Only a
worker that writes to a tombstone makes the org's documents weigh more.
-/

open Table ReadCommitted

namespace KnowledgeDesk.Proofs

variable {env : Env}

/-! ## An upload run alone -/

theorem upsertWrite_self {row : Document} {db db' : Db} {r : Uuid × Nat}
    (h : upsertDocument row db = .ok (r, db')) : upsertWrite row db db = db' := by
  unfold upsertWrite
  rcases upsertDocument_cases h with ⟨d, hd, hk, -, -, rfl⟩ | ⟨hnew, -, -, -, rfl⟩
  · have hany : (db.documents.any fun d => d.key == row.key) = true :=
      List.any_eq_true.2 ⟨d, hd, by simpa using hk⟩
    rw [if_pos hany]
  · have hany : ¬ (db.documents.any fun d => d.key == row.key) = true := by
      simpa using hnew
    rw [if_neg hany]

/-- The statements of the loop over the items do what its rounds do, by induction on the items. -/
theorem uploadItems_serial {orgId : Uuid} {source : String} {existing : List Document} {now : Time}
    {k : Nat → List PendingJob → UploadProg} (items : List (Item × Uuid)) (unchanged : Nat)
    (toEnqueue : List PendingJob) (s : Pipeline) :
    (uploadItems env orgId source existing now items unchanged toEnqueue k).serial s =
      match items.foldlM (syncItem env orgId source existing now) ⟨s.db, unchanged, toEnqueue⟩ with
      | .error e => .error e
      | .ok acc => (k acc.unchanged acc.toEnqueue).serial { s with db := acc.db } := by
  induction items generalizing unchanged toEnqueue s with
  | nil => rfl
  | cons item items ih =>
    rw [List.foldlM_cons, uploadItems]
    by_cases hsame : isUnchanged env existing item.1 = true
    · rw [if_pos hsame, ih, syncItem, if_pos hsame]
      rfl
    · rw [if_neg hsame, syncItem, if_neg hsame]
      unfold upsertStmt
      rw [Prog.serial]
      cases hu : upsertDocument (item.1.row env orgId source now item.2) s.db with
      | error e => simp only [hu, Prog.serial, bind, Except.bind]
      | ok r =>
        obtain ⟨⟨id, revision⟩, db'⟩ := r
        simp only [hu, ih, Pipeline.onDb, upsertWrite_self hu, bind, Except.bind]

theorem buryDocuments_serial {orgId : Uuid} {now : Time} {k : UploadProg} (rows : List Document) (s : Pipeline) :
    (buryDocuments orgId now rows k).serial s =
      k.serial { s with db := rows.foldl (tombstone orgId now) s.db } := by
  induction rows generalizing s with
  | nil => rfl
  | cons row rows ih =>
    rw [buryDocuments, Prog.serial, ih]
    rfl

/-- With no other transaction in between, the statements of an upload are its document transaction, under
the caps. -/
theorem syncSourceProg_serial (call : SyncCall) (s : Pipeline) :
    (syncSourceProg env call).serial s =
      match requireRole call.ctx .admin with
      | .error e => .error e
      | .ok () =>
        (syncTx env (checkCaps env call.ctx.orgId call.items) call.ctx.orgId call.source call.items call.fresh
          call.now s.db).map fun r => (r.1.1, { s with
            db := r.2
            requests := Function.update s.requests call.request (s.requests call.request ++ r.1.2) }) := by
  unfold syncSourceProg
  cases requireRole call.ctx .admin with
  | error e => rfl
  | ok u =>
    unfold syncTx
    simp only [Prog.serial, id_eq]
    cases checkCaps env call.ctx.orgId call.items s.db with
    | error e => rfl
    | ok u =>
      unfold syncDocumentsProg
      simp only [Prog.serial, uploadItems_serial, buryDocuments_serial, handOver, bind, Except.bind]
      cases (call.items.zipIdx call.fresh).foldlM (syncItem env call.ctx.orgId call.source
        (sourceDocuments call.ctx.orgId call.source s.db) call.now) ⟨s.db, 0, []⟩ with
      | error e => rfl
      | ok acc => rfl

/-! ## Loads -/

/-- The document rows of an org. -/
def orgDocuments (org : Uuid) (db : Db) : List Document := db.documents.filter fun d => d.orgId == org

/-- What the documents of an org weigh. -/
def load (weight : Document → Nat) (org : Uuid) (db : Db) : Nat := ((orgDocuments org db).map weight).sum

/-- A cap that `check_caps` enforces: what a row weighs, and what an item is counted as. -/
structure Quota (env : Env) where
  weight : Document → Nat
  cost : Item → Nat
  cap : Nat
  insert : ∀ item orgId source now fresh, weight (item.row env orgId source now fresh) ≤ cost item
  upload : ∀ item orgId source now fresh d,
    weight ((item.row env orgId source now fresh).uploadOver d) ≤ cost item
  bury : ∀ now (d : Document), weight (d.bury now) = 0
  setAcl : ∀ acl now (d : Document), weight (d.setAcl acl now) = weight d
  ingest : ∀ now (d : Document), d.status ≠ .deleted → weight (d.ingest now) = weight d
  fail : ∀ now (d : Document), d.status ≠ .deleted → weight (d.fail now) = weight d
  checked : ∀ org items db, checkCaps env org items db = .ok () →
    load weight org db + (items.map cost).sum ≤ cap

/-- What counts of a row that is not deleted. -/
def ifLive (n : Document → Nat) (d : Document) : Nat := if d.status = .deleted then 0 else n d

theorem sum_ifLive (n : Document → Nat) (t : List Document) :
    (t.map (ifLive n)).sum = ((t.filter fun d => d.status != .deleted).map n).sum := by
  induction t with
  | nil => rfl
  | cons d t ih =>
    by_cases hd : d.status = .deleted
    · simp [ifLive, hd, ih]
    · simp [ifLive, hd, ih]

theorem storageUsed_eq (org : Uuid) (db : Db) :
    storageUsed org db =
      (load (ifLive fun _ => 1) org db, load (ifLive fun d => d.content.utf8ByteSize) org db) := by
  have hlive : db.documents.filter (rls org Document.orgId fun d => d.orgId == org && d.status != .deleted) =
      (orgDocuments org db).filter fun d => d.status != .deleted := by
    rw [orgDocuments, List.filter_filter]
    refine List.filter_congr fun d _ => ?_
    cases ho : d.orgId == org <;> simp [rls, ho]
  unfold storageUsed load
  rw [hlive, sum_ifLive, sum_ifLive, List.map_const', List.sum_replicate_nat, mul_one]

/-- `org_doc_cap`. -/
def docQuota (env : Env) : Quota env where
  weight := ifLive fun _ => 1
  cost := fun _ => 1
  cap := env.settings.orgDocCap
  insert := fun _ _ _ _ _ => by simp [ifLive, Item.row]
  upload := fun _ _ _ _ _ _ => by simp [ifLive, Item.row, Document.uploadOver]
  bury := fun _ _ => by simp [ifLive, Document.bury]
  setAcl := fun _ _ _ => rfl
  ingest := fun _ d hd => by simp [ifLive, Document.ingest, hd]
  fail := fun _ d hd => by simp [ifLive, Document.fail, hd]
  checked := fun org items db h => by
    have hdocs := (checkCaps_ok_iff.1 h).2
    rw [storageUsed_eq] at hdocs
    simpa using hdocs

/-- `org_storage_bytes_cap`. -/
def bytesQuota (env : Env) : Quota env where
  weight := ifLive fun d => d.content.utf8ByteSize
  cost := fun item => item.content.utf8ByteSize
  cap := env.settings.orgStorageBytesCap
  insert := fun _ _ _ _ _ => by simp [ifLive, Item.row]
  upload := fun _ _ _ _ _ _ => by simp [ifLive, Item.row, Document.uploadOver]
  bury := fun _ _ => by simp [ifLive, Document.bury]
  setAcl := fun _ _ _ => rfl
  ingest := fun _ d hd => by simp [ifLive, Document.ingest, hd]
  fail := fun _ d hd => by simp [ifLive, Document.fail, hd]
  checked := fun org items db h => by
    have hbytes := (checkCaps_ok_iff.1 h).1
    rw [storageUsed_eq] at hbytes
    exact hbytes

/-! ## What other transactions may do to the rows -/

section Interference

variable {q : Quota env} {org : Uuid} {locks locks' : List UploadLock}

/-- A rewriting of rows, or their deletion: rows that are locked stay as they are, and no row weighs
more. -/
structure Fair (q : Quota env) (locks : List UploadLock) (g : Document → Option Document) : Prop where
  locked : ∀ d : Document, .document d.key ∈ locks → g d = some d
  key : ∀ d d', g d = some d' → d'.key = d.key
  id : ∀ d d', g d = some d' → d'.id = d.id
  weight : ∀ d d', g d = some d' → q.weight d' ≤ q.weight d

theorem fair_refl : Fair q locks some :=
  ⟨fun _ _ => rfl, fun _ _ h => by rw [Option.some.inj h], fun _ _ h => by rw [Option.some.inj h],
    fun _ _ h => by rw [Option.some.inj h]⟩

theorem Fair.trans {g g' : Document → Option Document} (h : Fair q locks g) (h' : Fair q locks g') :
    Fair q locks fun d => (g d).bind g' := by
  refine ⟨fun d hd => ?_, fun d d' hd => ?_, fun d d' hd => ?_, fun d d' hd => ?_⟩
  · rw [h.locked d hd, Option.bind_some, h'.locked d hd]
  all_goals obtain ⟨d₁, h₁, h₂⟩ := Option.bind_eq_some_iff.1 hd
  · exact (h'.key _ _ h₂).trans (h.key _ _ h₁)
  · exact (h'.id _ _ h₂).trans (h.id _ _ h₁)
  · exact (h'.weight _ _ h₂).trans (h.weight _ _ h₁)

theorem Fair.mono {g : Document → Option Document} (h : Fair q locks g) (hl : ∀ k ∈ locks', k ∈ locks) :
    Fair q locks' g :=
  { h with locked := fun d hd => h.locked d (hl _ hd) }

/-- A fair rewriting makes no rows weigh more. -/
theorem Fair.sum_le {g : Document → Option Document} (h : Fair q locks g) (t : List Document) :
    ((t.filterMap g).map q.weight).sum ≤ (t.map q.weight).sum := by
  induction t with
  | nil => exact Nat.le_refl _
  | cons d t ih =>
    rw [List.filterMap_cons, List.map_cons, List.sum_cons]
    cases hg : g d with
    | none => exact Nat.le_trans ih (Nat.le_add_left _ _)
    | some d' => exact Nat.add_le_add (h.weight d d' hg) ih

/-- It keeps the rows' keys apart. -/
theorem Fair.keys {g : Document → Option Document} (h : Fair q locks g) {t : List Document}
    (ht : (t.map Document.key).Nodup) : ((t.filterMap g).map Document.key).Nodup := by
  have hsub : ((t.filterMap g).map Document.key).Sublist (t.map Document.key) := by
    clear ht
    induction t with
    | nil => exact List.Sublist.slnil
    | cons d t ih =>
      rw [List.filterMap_cons, List.map_cons]
      cases hg : g d with
      | none => exact ih.cons _
      | some d' =>
        rw [List.map_cons, h.key d d' hg]
        exact ih.cons_cons _
  exact ht.sublist hsub

/-- What the commits of others make of an org's documents: a fair rewriting of them. -/
def Lowers (q : Quota env) (locks : List UploadLock) (org : Uuid) (db db' : Db) : Prop :=
  ∃ g, Fair q locks g ∧ orgDocuments org db' = (orgDocuments org db).filterMap g

theorem lowers_of_eq {db db' : Db} (h : orgDocuments org db' = orgDocuments org db) :
    Lowers q locks org db db' :=
  ⟨some, fair_refl, by rw [h, List.filterMap_some]⟩

theorem Lowers.trans {db₁ db₂ db₃ : Db} (h : Lowers q locks org db₁ db₂) (h' : Lowers q locks org db₂ db₃) :
    Lowers q locks org db₁ db₃ := by
  obtain ⟨g, hg, h₂⟩ := h
  obtain ⟨g', hg', h₃⟩ := h'
  exact ⟨_, hg.trans hg', by rw [h₃, h₂, List.filterMap_filterMap]⟩

/-- Rows of which the locked ones stay, and the others weigh no more. -/
theorem lowers_of_rows {db db' : Db} (g : Document → Option Document)
    (h : orgDocuments org db' = (orgDocuments org db).filterMap g)
    (hlocked : ∀ d ∈ orgDocuments org db, .document d.key ∈ locks → g d = some d)
    (hrow : ∀ d ∈ orgDocuments org db, ∀ d', g d = some d' →
      d'.key = d.key ∧ d'.id = d.id ∧ q.weight d' ≤ q.weight d) : Lowers q locks org db db' := by
  classical
  -- the rewriting matters on the rows there are
  let g' : Document → Option Document := fun d =>
    if d ∈ orgDocuments org db ∧ .document d.key ∉ locks then g d else some d
  have hg' : ∀ d d', g' d = some d' → (d ∈ orgDocuments org db ∧ g d = some d') ∨ d' = d := by
    intro d d' hd
    by_cases hc : d ∈ orgDocuments org db ∧ .document d.key ∉ locks
    · exact .inl ⟨hc.1, by simpa [g', hc] using hd⟩
    · exact .inr (by simpa [g', hc, eq_comm] using hd)
  refine ⟨g', ⟨fun d hd => by simp [g', hd], fun d d' hd => ?_, fun d d' hd => ?_, fun d d' hd => ?_⟩, ?_⟩
  · rcases hg' d d' hd with ⟨hm, hg⟩ | rfl
    · exact (hrow d hm d' hg).1
    · rfl
  · rcases hg' d d' hd with ⟨hm, hg⟩ | rfl
    · exact (hrow d hm d' hg).2.1
    · rfl
  · rcases hg' d d' hd with ⟨hm, hg⟩ | rfl
    · exact (hrow d hm d' hg).2.2
    · exact Nat.le_refl _
  · rw [h]
    refine List.filterMap_congr fun d hd => ?_
    by_cases hl : .document d.key ∈ locks
    · simp [g', hl, hlocked d hd hl]
    · simp [g', hl, hd]

end Interference

/-! ## The contract of an upload -/

/-- The documents of the org have keys of their own, and the org is there. -/
structure Stored (org : Uuid) (db : Db) : Prop where
  hasOrg : db.hasOrg org = true
  keys : ((orgDocuments org db).map Document.key).Nodup

/-- What an upload keeps to, for the documents of one org. -/
def uploadContract (q : Quota env) (org : Uuid) (call : SyncCall) : Contract Pipeline UploadLock Err SyncResult where
  inv := fun s => Stored org s.db
  rely := fun locks s s' => .org org ∈ locks → Lowers q locks org s.db s'.db
  allowed := fun _ _ => True
  commits := fun locks pending s => (pending s).db.orgs = s.db.orgs ∧
    if call.ctx.orgId = org then
      .org org ∈ locks ∧ ((orgDocuments org (pending s).db).map Document.key).Nodup ∧
        load q.weight org (pending s).db ≤ q.cap
    else orgDocuments org (pending s).db = orgDocuments org s.db
  rely_refl := fun _ _ _ => lowers_of_eq rfl
  rely_trans := fun _ _ _ _ h h' hl => (h hl).trans (h' hl)

/-- An upload of the org past its check, with `todo` still to come: others rewrite its view as they
rewrite the store, and there is room for the rest. -/
structure Reserved (q : Quota env) (org : Uuid) (todo : Nat) (locks : List UploadLock)
    (pending : Pipeline → Pipeline) (s : Pipeline) : Prop where
  lock : .org org ∈ locks
  orgs : ∀ s, (pending s).db.orgs = s.db.orgs
  apart : ∀ g, Fair q locks g → ∀ s', orgDocuments org s'.db = (orgDocuments org s.db).filterMap g →
    orgDocuments org (pending s').db = (orgDocuments org (pending s).db).filterMap g
  keys : ((orgDocuments org (pending s).db).map Document.key).Nodup
  room : load q.weight org (pending s).db + todo ≤ q.cap

section Reserved

variable {q : Quota env} {org : Uuid} {todo : Nat} {locks : List UploadLock} {pending : Pipeline → Pipeline}
  {s s' : Pipeline}

/-- The measure, under the lock on the org. -/
theorem reserved_checked (hs : Stored org s.db) {items : List Item}
    (hcheck : checkCaps env org items s.db = .ok ()) :
    Reserved q org (items.map q.cost).sum [.org org] id s :=
  ⟨List.mem_singleton.2 rfl, fun _ => rfl, fun _ _ _ h => h, hs.keys, q.checked org items s.db hcheck⟩

theorem Reserved.interfere (h : Reserved q org todo locks pending s) (hr : Lowers q locks org s.db s'.db) :
    Reserved q org todo locks pending s' := by
  obtain ⟨g, hg, hs'⟩ := hr
  have hview := h.apart g hg s' hs'
  refine { h with apart := fun g' hg' s'' hs'' => ?_, keys := ?_, room := ?_ }
  · rw [hs', List.filterMap_filterMap] at hs''
    rw [h.apart _ (hg.trans hg') s'' hs'', hview, List.filterMap_filterMap]
  · rw [hview]
    exact hg.keys h.keys
  · have hle := hg.sum_le (orgDocuments org (pending s).db)
    have hroom := h.room
    unfold load at hroom ⊢
    rw [hview]
    omega

/-- A further write: it commutes with what others may do, keeps keys apart, and uses up some room. -/
theorem Reserved.write {todo' : Nat} {effect : Db → Db} (h : Reserved q org todo locks pending s)
    (rows : List UploadLock) (horgs : ∀ db, (effect db).orgs = db.orgs)
    (f : List Document → List Document)
    (hf : ∀ db, orgDocuments org (effect db) = f (orgDocuments org db))
    (hcomm : ∀ g, Fair q (rows ++ locks) g →
      f ((orgDocuments org (pending s).db).filterMap g) = (f (orgDocuments org (pending s).db)).filterMap g)
    (hkeys : ((f (orgDocuments org (pending s).db)).map Document.key).Nodup)
    (hroom : ((f (orgDocuments org (pending s).db)).map q.weight).sum + todo' ≤
      load q.weight org (pending s).db + todo) :
    Reserved q org todo' (rows ++ locks) (Pipeline.onDb effect ∘ pending) s := by
  refine ⟨List.mem_append_right _ h.lock, fun s => ?_, fun g hg s' hs' => ?_, ?_, ?_⟩
  · exact (horgs _).trans (h.orgs s)
  · have hview := h.apart g (hg.mono fun k hk => List.mem_append_right _ hk) s' hs'
    show orgDocuments org (effect (pending s').db) = (orgDocuments org (effect (pending s).db)).filterMap g
    rw [hf, hf, hview, hcomm g hg]
  · show ((orgDocuments org (effect (pending s).db)).map Document.key).Nodup
    rw [hf]
    exact hkeys
  · show load q.weight org (effect (pending s).db) + todo' ≤ q.cap
    unfold load at hroom ⊢
    rw [hf]
    exact Nat.le_trans hroom h.room

/-- An update of rows that are all locked commutes with what others may do. -/
theorem filterMap_updateWhere {g : Document → Option Document} (hg : Fair q locks g)
    {p : Document → Bool} {f : Document → Document} {t : List Document}
    (hp : ∀ d d', d'.key = d.key → d'.id = d.id → d'.orgId = d.orgId → p d' = p d)
    (hkey : ∀ d, (f d).key = d.key) (hlocked : ∀ d ∈ t, p d = true → .document d.key ∈ locks) :
    updateWhere p f (t.filterMap g) = (updateWhere p f t).filterMap g := by
  induction t with
  | nil => rfl
  | cons d t ih =>
    have ih' := ih fun d hd => hlocked d (List.mem_cons_of_mem _ hd)
    unfold updateWhere at ih' ⊢
    rw [List.filterMap_cons, List.map_cons, List.filterMap_cons]
    by_cases hpd : p d = true
    · have hl := hlocked d List.mem_cons_self hpd
      rw [hg.locked d hl, if_pos hpd, hg.locked (f d) (by rw [hkey]; exact hl), List.map_cons, if_pos hpd, ih']
    · rw [if_neg hpd]
      cases hgd : g d with
      | none => exact ih'
      | some d' =>
        have hk := hg.key d d' hgd
        have hpd' : p d' = p d := hp d d' hk (hg.id d d' hgd) (congrArg Prod.fst hk)
        rw [List.map_cons, hpd', if_neg hpd, ih']

theorem orgDocuments_updateWhere {p : Document → Bool} {f : Document → Document} {db db' : Db}
    (h : db'.documents = updateWhere p f db.documents) (hf : ∀ d, (f d).orgId = d.orgId) :
    orgDocuments org db' = updateWhere p f (orgDocuments org db) := by
  unfold orgDocuments
  rw [h, filter_updateWhere fun d => by rw [hf]]

/-- The upsert of an item's row uses up what the item was counted as. -/
theorem Reserved.upsert {item : Item} (h : Reserved q org (q.cost item + todo) locks pending s)
    (source : String) (now : Time) (fresh : Uuid) :
    Reserved q org todo (.document (item.row env org source now fresh).key :: locks)
      (Pipeline.onDb (upsertWrite (item.row env org source now fresh) (pending s).db) ∘ pending) s := by
  set row := item.row env org source now fresh with hrow
  have hkeys := h.keys
  by_cases hany : ((pending s).db.documents.any fun d => d.key == row.key) = true
  · -- the row of the item's path is replaced
    have hwrite : upsertWrite row (pending s).db = fun db =>
        { db with documents := updateWhere (fun d => d.key == row.key) row.uploadOver db.documents } := by
      funext db
      rw [upsertWrite, if_pos hany]
    obtain ⟨d₀, hd₀, hk₀⟩ := List.any_eq_true.1 hany
    have hk : d₀.key = row.key := by simpa using hk₀
    have hmem : d₀ ∈ orgDocuments org (pending s).db := by
      refine List.mem_filter.2 ⟨hd₀, ?_⟩
      have ho : d₀.orgId = row.orgId := congrArg Prod.fst hk
      rw [ho, hrow]
      simp [Item.row]
    rw [hwrite]
    refine h.write [.document row.key] (fun _ => rfl)
      (updateWhere (fun d => d.key == row.key) row.uploadOver)
      (fun db => orgDocuments_updateWhere rfl fun _ => rfl) (fun g hg => ?_) ?_ ?_
    · refine filterMap_updateWhere hg (fun d d' hkey _ _ => by rw [hkey]) (fun _ => rfl) fun d _ hd => ?_
      have hdk : d.key = row.key := by simpa using hd
      rw [hdk]
      exact List.mem_cons_self
    · have hmap : (updateWhere (fun d => d.key == row.key) row.uploadOver
          (orgDocuments org (pending s).db)).map Document.key = (orgDocuments org (pending s).db).map Document.key :=
        map_updateWhere _ fun _ => rfl
      rw [hmap]
      exact hkeys
    · have hsum := sum_updateWhere_of_key (w := q.weight) (f := row.uploadOver) hkeys hmem
      have hcost := q.upload item org source now fresh d₀
      rw [← hrow] at hcost
      rw [← hk]
      unfold load
      omega
  · -- a new row
    have hwrite : upsertWrite row (pending s).db = fun db => { db with documents := db.documents ++ [row] } := by
      funext db
      rw [upsertWrite, if_neg hany]
    have hnew : ∀ d ∈ orgDocuments org (pending s).db, d.key ≠ row.key := by
      intro d hd hk
      exact hany (List.any_eq_true.2 ⟨d, (List.mem_filter.1 hd).1, by simpa using hk⟩)
    rw [hwrite]
    refine h.write [.document row.key] (fun _ => rfl) (· ++ [row]) (fun db => ?_) (fun g hg => ?_) ?_ ?_
    · simp [orgDocuments, hrow, Item.row]
    · rw [List.filterMap_append, List.filterMap_cons, hg.locked row List.mem_cons_self, List.filterMap_nil]
    · rw [List.map_append, List.nodup_append]
      refine ⟨hkeys, List.nodup_singleton _, ?_⟩
      simp only [List.mem_map, List.map_cons, List.map_nil, List.mem_singleton]
      rintro _ ⟨d, hd, rfl⟩ _ rfl he
      exact hnew d hd he
    · have hcost := q.insert item org source now fresh
      rw [← hrow] at hcost
      rw [List.map_append, List.sum_append, List.map_cons, List.map_nil, List.sum_singleton]
      unfold load
      omega

/-- A row that is buried frees the room it took. -/
theorem Reserved.bury {now : Time} (h : Reserved q org todo locks pending s) (row : Document) :
    Reserved q org todo (documentLocks org row.id (pending s).db ++ locks)
      (Pipeline.onDb (fun db => tombstone org now db row) ∘ pending) s := by
  refine h.write _ (fun _ => rfl)
    (updateWhere (rls org Document.orgId fun d => d.id == row.id) (·.bury now))
    (fun db => orgDocuments_updateWhere rfl fun _ => rfl) (fun g hg => ?_) ?_ ?_
  · refine filterMap_updateWhere hg (fun d d' _ hid ho => ?_) (fun _ => rfl) fun d hd hp => ?_
    · simp only [rls, hid, ho]
    · exact List.mem_append_left _
        (List.mem_map.2 ⟨d, List.mem_filter.2 ⟨(List.mem_filter.1 hd).1, hp⟩, rfl⟩)
  · have hmap : (updateWhere (rls org Document.orgId fun d => d.id == row.id) (·.bury now)
        (orgDocuments org (pending s).db)).map Document.key = (orgDocuments org (pending s).db).map Document.key :=
      map_updateWhere _ fun _ => rfl
    rw [hmap]
    exact h.keys
  · refine Nat.add_le_add_right (sum_updateWhere_ge fun d _ _ => ?_) _
    rw [q.bury]
    exact Nat.zero_le _

end Reserved

section Meets

variable {q : Quota env} {org : Uuid} {call : SyncCall} {locks : List UploadLock}
  {pending : Pipeline → Pipeline} {s : Pipeline}

/-- What a transaction keeps from statement to statement, with so much still to come. -/
structure Carries (env : Env) (c : Contract Pipeline UploadLock Err SyncResult) (orgId : Uuid) (cost : Item → Nat)
    (J : Nat → List UploadLock → (Pipeline → Pipeline) → Pipeline → Prop) : Prop where
  rely : ∀ {n locks pending s s'}, J n locks pending s → c.rely locks s s' → J n locks pending s'
  skip : ∀ {n m locks pending s}, J (n + m) locks pending s → J m locks pending s
  upsert : ∀ {n locks pending s item}, J (cost item + n) locks pending s → ∀ source now fresh,
    J n (.document (item.row env orgId source now fresh).key :: locks)
      (Pipeline.onDb (upsertWrite (item.row env orgId source now fresh) (pending s).db) ∘ pending) s
  bury : ∀ {n locks pending s}, J n locks pending s → ∀ now row,
    J n (documentLocks orgId row.id (pending s).db ++ locks)
      (Pipeline.onDb (fun db => tombstone orgId now db row) ∘ pending) s
  handOver : ∀ {n locks pending s}, J n locks pending s → ∀ f : Pipeline → Pipeline,
    (∀ s, (f s).db = s.db) → J n locks (f ∘ pending) s
  commits : ∀ {n locks pending s}, J n locks pending s → c.commits locks pending s

variable {c : Contract Pipeline UploadLock Err SyncResult} {orgId : Uuid} {cost : Item → Nat}
  {J : Nat → List UploadLock → (Pipeline → Pipeline) → Pipeline → Prop}

/-- The loop over the items, by induction on them. -/
theorem Carries.uploadItems (h : Carries env c orgId cost J) {source : String}
    {existing : List Document} {now : Time} {k : Nat → List PendingJob → UploadProg}
    (hk : ∀ unchanged toEnqueue locks pending s, J 0 locks pending s →
      (k unchanged toEnqueue).Meets c locks pending s) (items : List (Item × Uuid)) {unchanged : Nat}
    {toEnqueue : List PendingJob} (hJ : J (items.map fun i => cost i.1).sum locks pending s) :
    (uploadItems env orgId source existing now items unchanged toEnqueue k).Meets c locks pending s := by
  induction items generalizing unchanged toEnqueue locks pending s with
  | nil => exact hk unchanged toEnqueue locks pending s hJ
  | cons item items ih =>
    rw [List.map_cons, List.sum_cons] at hJ
    rw [KnowledgeDesk.uploadItems]
    split
    · exact ih (h.skip hJ)
    · intro s' _ hr _
      have hJ' := h.upsert (h.rely hJ hr) source now item.2
      beta_reduce
      split
      · exact ih hJ'
      · trivial

/-- The deletion loop, by induction on the rows. -/
theorem Carries.buryDocuments (h : Carries env c orgId cost J) {now : Time} {k : UploadProg}
    (hk : ∀ locks pending s, J 0 locks pending s → k.Meets c locks pending s) (rows : List Document)
    (hJ : J 0 locks pending s) : (buryDocuments orgId now rows k).Meets c locks pending s := by
  induction rows generalizing locks pending s with
  | nil => exact hk locks pending s hJ
  | cons row rows ih =>
    intro s' _ hr _
    exact ih (h.bury (h.rely hJ hr) now row)

theorem Carries.syncDocuments (h : Carries env c call.ctx.orgId cost J)
    (hJ : J (call.items.map cost).sum locks pending s) :
    (syncDocumentsProg env call).Meets c locks pending s := by
  intro s' _ hr
  refine h.uploadItems (fun unchanged toEnqueue locks pending s hJ' => ?_) _ ?_
  · refine h.buryDocuments (fun locks pending s hJ'' => ?_) _ hJ'
    intro s₁ _ hr₁ _ s₂ _ hr₂
    exact h.commits (h.rely (h.handOver (h.rely hJ'' hr₁) _ fun _ => rfl) hr₂)
  · have hmap : (call.items.zipIdx call.fresh).map (fun i => cost i.1) = call.items.map cost := by
      conv_rhs => rw [← List.zipIdx_map_fst call.fresh call.items, List.map_map]
      rfl
    rw [hmap]
    exact h.rely hJ hr

theorem upsertWrite_orgs (row : Document) (view db : Db) : (upsertWrite row view db).orgs = db.orgs := by
  unfold upsertWrite
  split <;> rfl

/-- An upload of the org keeps its reservation. -/
theorem carries_reserved (hcall : call.ctx.orgId = org) :
    Carries env (uploadContract q org call) call.ctx.orgId q.cost (Reserved q org) := by
  subst hcall
  refine ⟨fun h hr => h.interfere (hr h.lock), fun h => ?_, fun h source now fresh => h.upsert source now fresh,
    fun h _ row => h.bury row, fun h f hf => ?_, fun {n locks pending s} h => ?_⟩
  · exact { h with room := by have := h.room; omega }
  · refine { h with orgs := fun s => ?_, apart := fun g hg s' hs' => ?_, keys := ?_, room := ?_ }
    · rw [Function.comp_apply, hf]
      exact h.orgs s
    · rw [Function.comp_apply, Function.comp_apply, hf, hf]
      exact h.apart g hg s' hs'
    · rw [Function.comp_apply, hf]
      exact h.keys
    · rw [Function.comp_apply, hf]
      exact h.room
  · refine ⟨h.orgs s, ?_⟩
    rw [if_pos rfl]
    exact ⟨h.lock, h.keys, Nat.le_trans (Nat.le_add_right _ _) h.room⟩

/-- The documents of an org, under the writes of another org's upload. -/
def Elsewhere (org : Uuid) (pending : Pipeline → Pipeline) : Prop :=
  ∀ s, (pending s).db.orgs = s.db.orgs ∧ orgDocuments org (pending s).db = orgDocuments org s.db

theorem Elsewhere.write (h : Elsewhere org pending) {effect : Db → Db} (horgs : ∀ db, (effect db).orgs = db.orgs)
    (hdocs : ∀ db, orgDocuments org (effect db) = orgDocuments org db) :
    Elsewhere org (Pipeline.onDb effect ∘ pending) :=
  fun s => ⟨(horgs _).trans (h s).1, (hdocs _).trans (h s).2⟩

theorem orgDocuments_upsertWrite {row : Document} (hrow : row.orgId ≠ org) (view db : Db) :
    orgDocuments org (upsertWrite row view db) = orgDocuments org db := by
  unfold upsertWrite orgDocuments
  split
  · have hother : ∀ d : Document, (d.key == row.key) = true → (d.orgId == org) = false := by
      intro d hd
      have hk : d.key = row.key := by simpa using hd
      have ho : d.orgId = row.orgId := congrArg Prod.fst hk
      exact beq_eq_false_iff_ne.2 (ho ▸ hrow)
    exact filter_updateWhere_of_disjoint (fun d _ hd => hother d hd) fun d _ hd => hother d hd
  · simp [hrow]

theorem orgDocuments_tombstone {orgId : Uuid} (ho : orgId ≠ org) (now : Time) (db : Db) (row : Document) :
    orgDocuments org (tombstone orgId now db row) = orgDocuments org db := by
  have hother : ∀ d : Document, rls orgId Document.orgId (fun d => d.id == row.id) d = true →
      (d.orgId == org) = false := by
    intro d hd
    simp only [rls, Bool.and_eq_true, beq_iff_eq] at hd
    exact beq_eq_false_iff_ne.2 (hd.1 ▸ ho)
  exact filter_updateWhere_of_disjoint (fun d _ hd => hother d hd) fun d _ hd => hother d hd

/-- An upload of another org keeps off the org's documents. -/
theorem carries_elsewhere (hcall : call.ctx.orgId ≠ org) :
    Carries env (uploadContract q org call) call.ctx.orgId q.cost fun _ _ pending _ => Elsewhere org pending := by
  refine ⟨fun h _ => h, fun h => h, fun h source now fresh => ?_, fun h now row => ?_, fun h f hf s => ?_,
    fun {n locks pending s} h => ?_⟩
  · exact h.write (upsertWrite_orgs _ _) (orgDocuments_upsertWrite hcall _)
  · exact h.write (fun _ => rfl) fun db => orgDocuments_tombstone hcall now db row
  · rw [Function.comp_apply, hf]
    exact h s
  · refine ⟨(h s).1, ?_⟩
    rw [if_neg hcall]
    exact (h s).2

/-- Every upload meets its contract. -/
theorem syncSourceProg_meets (q : Quota env) (org : Uuid) (call : SyncCall) (s : Pipeline) :
    (syncSourceProg env call).Meets (uploadContract q org call) [] id s := by
  unfold syncSourceProg
  split
  · trivial
  · intro s₁ hs₁ _ _ s₂ hs₂ _
    show Prog.Meets _ (match checkCaps env call.ctx.orgId call.items s₂.db with
      | .error e => _
      | .ok () => _) _ _ _
    split
    · trivial
    · rename_i hcheck
      by_cases hcall : call.ctx.orgId = org
      · refine (carries_reserved hcall).syncDocuments ?_
        -- the org is there, so its row is locked
        have hlock : (if s₁.db.hasOrg call.ctx.orgId then [UploadLock.org call.ctx.orgId] else []) =
            [.org org] := by rw [hcall, if_pos hs₁.hasOrg]
        show Reserved q org _ ((if s₁.db.hasOrg call.ctx.orgId then _ else []) ++ []) id s₂
        rw [hlock]
        rw [hcall] at hcheck
        exact reserved_checked hs₂ hcheck
      · exact (carries_elsewhere hcall).syncDocuments (J := fun _ _ pending _ => Elsewhere org pending)
          fun s => ⟨rfl, rfl⟩

end Meets

/-! ## The pipeline's own transactions -/

/-- What a transaction of the pipeline does to the document rows: it updates or deletes those of its
target, and an update that does not set a status on a tombstone makes no row weigh more. -/
inductive RowWrite (env : Env) (s : Pipeline) (l : Pipeline.Label) (documents : List Document) : Prop where
  | none (h : documents = s.db.documents)
  | update {orgId documentId : Uuid} (f : Document → Document)
      (target : UploadSystem.target s l = some (orgId, documentId))
      (key : ∀ d, (f d).key = d.key) (id : ∀ d, (f d).id = d.id)
      (weight : ∀ (q : Quota env) (d : Document), (UploadSystem.setsStatus l = true → d.status ≠ .deleted) →
        q.weight (f d) ≤ q.weight d)
      (h : documents = updateWhere (rls orgId Document.orgId fun d => d.id == documentId) f s.db.documents)
  | delete {orgId documentId : Uuid} (target : UploadSystem.target s l = some (orgId, documentId))
      (h : documents = deleteWhere (rls orgId Document.orgId fun d => d.id == documentId) s.db.documents)

/-- Every transaction of the pipeline but a document transaction of an upload keeps the orgs, and writes
document rows of its target only. -/
theorem pipeline_rows (s : Pipeline) (l : Pipeline.Label) (hl : ∀ r p o src is now, l ≠ .sync r p o src is now) :
    (Pipeline.step env s l).db.orgs = s.db.orgs ∧ RowWrite env s l (Pipeline.step env s l).db.documents := by
  cases l with
  | sync request precheck orgId source items now => exact absurd rfl (hl _ _ _ _ _ _)
  | enqueue request now =>
    simp only [Pipeline.step]
    split
    · exact ⟨rfl, .none rfl⟩
    · split
      · rename_i htx
        rcases enqueuePending_cases htx with ⟨-, rfl⟩ | ⟨-, j, -, -, -, -, -, -, rfl⟩ <;> exact ⟨rfl, .none rfl⟩
      · exact ⟨rfl, .none rfl⟩
  | abandon request => exact ⟨rfl, .none rfl⟩
  | claim worker locked now =>
    simp only [Pipeline.step]
    split
    · split
      · rename_i htx
        obtain ⟨j, -, -, -, rfl⟩ := claimOne_some htx
        exact ⟨rfl, .none rfl⟩
      · exact ⟨rfl, .none rfl⟩
    · exact ⟨rfl, .none rfl⟩
  | read worker =>
    simp only [Pipeline.step]
    split <;> exact ⟨rfl, .none rfl⟩
  | embed worker embedDocuments =>
    simp only [Pipeline.step]
    split
    · split <;> exact ⟨rfl, .none rfl⟩
    · exact ⟨rfl, .none rfl⟩
  | write worker now =>
    simp only [Pipeline.step]
    split
    · rename_i job doc rows hw
      split
      · rename_i htx
        obtain ⟨-, rfl⟩ := writeDocument_ok htx
        exact ⟨rfl, .update (·.ingest now) (by simp [UploadSystem.target, hw]) (fun _ => rfl) (fun _ => rfl)
          (fun q d hd => (q.ingest now d (hd rfl)).le) rfl⟩
      · exact ⟨rfl, .none rfl⟩
    · exact ⟨rfl, .none rfl⟩
  | succeed worker now =>
    simp only [Pipeline.step]
    split <;> exact ⟨rfl, .none rfl⟩
  | interrupt worker error => exact ⟨rfl, .none rfl⟩
  | fail worker now =>
    simp only [Pipeline.step]
    split
    · split
      · rename_i htx
        rcases markFailed_cases htx with ⟨-, -, rfl⟩ | ⟨j, -, -, -, rfl⟩ | ⟨j, delay, -, -, -, rfl⟩ <;>
          split <;> exact ⟨rfl, .none rfl⟩
      · exact ⟨rfl, .none rfl⟩
    · exact ⟨rfl, .none rfl⟩
  | failDocument worker now =>
    simp only [Pipeline.step]
    split
    · rename_i job seen hw
      split
      · exact ⟨rfl, .none rfl⟩
      · rename_i documentId hid
        have htarget : UploadSystem.target s (.failDocument worker now) = some (job.orgId, documentId) := by
          simp [UploadSystem.target, hw, hid]
        refine ⟨rfl, .update (·.fail now) htarget (fun _ => rfl) (fun _ => rfl)
          (fun q d hd => (q.fail now d (hd rfl)).le) ?_⟩
        simp only [Pipeline.goto, Pipeline.commit, markDocumentFailed, rls_and_org]
    · exact ⟨rfl, .none rfl⟩
  | crash worker => exact ⟨rfl, .none rfl⟩
  | updateAcl ctx documentId acl now =>
    simp only [Pipeline.step, Pipeline.commit]
    split
    · rename_i htx
      have hdb := updateDocumentAclTx_ok htx
      rw [rls_and_org] at hdb
      subst hdb
      exact ⟨rfl, .update (·.setAcl acl now) rfl (fun _ => rfl) (fun _ => rfl)
        (fun q d _ => (q.setAcl acl now d).le) rfl⟩
    · exact ⟨rfl, .none rfl⟩
  | deleteDocument ctx documentId =>
    simp only [Pipeline.step, Pipeline.commit]
    split
    · rename_i htx
      have hdb := deleteDocumentTx_ok htx
      rw [rls_and_org] at hdb
      subst hdb
      exact ⟨rfl, .delete rfl rfl⟩
    · exact ⟨rfl, .none rfl⟩

/-- No upload holds a lock on the row a transaction of the pipeline writes. -/
theorem not_locked_of_target {s : UploadSystem} {l : Pipeline.Label} {orgId documentId : Uuid}
    (hw : UploadSystem.waits s l = false) (ht : UploadSystem.target s.store l = some (orgId, documentId))
    {d : Document} (hd : d ∈ s.store.db.documents)
    (hp : rls orgId Document.orgId (fun d => d.id == documentId) d = true) (i : Nat) :
    .document d.key ∉ s.locksOf i := by
  intro hl
  have hneed : UploadLock.document d.key ∈ UploadSystem.needs s.store l := by
    refine List.mem_append_left _ ?_
    rw [ht]
    exact List.mem_map.2 ⟨d, List.mem_filter.2 ⟨hd, hp⟩, rfl⟩
  have hfree := List.any_eq_false.1 hw _ hneed
  exact hfree (List.any_eq_true.2 ⟨_, mem_locksOf.1 hl, beq_self_eq_true _⟩)

/-- A transaction of the pipeline that goes through and revives no tombstone takes documents away, or
rewrites rows that no upload has locked to rows that weigh no more. -/
theorem pipeline_lowers {q : Quota env} {org : Uuid} {s : UploadSystem} {l : Pipeline.Label}
    (hl : ∀ r p o src is now, l ≠ .sync r p o src is now) (hw : UploadSystem.waits s l = false)
    (hrev : ¬ UploadSystem.Revives org s (.pipeline l)) (i : Nat) :
    Lowers q (s.locksOf i) org s.store.db (Pipeline.step env s.store l).db := by
  have hrow : RowWrite env s.store l (Pipeline.step env s.store l).db.documents := (pipeline_rows s.store l hl).2
  cases hrow with
  | none h =>
    refine lowers_of_eq ?_
    unfold orgDocuments
    rw [h]
  | @update orgId documentId f htarget hkey hid hweight h =>
    set p := rls orgId Document.orgId fun d => d.id == documentId with hp
    have hdocs : orgDocuments org (Pipeline.step env s.store l).db =
        (orgDocuments org s.store.db).filterMap fun d => some (if p d then f d else d) := by
      rw [orgDocuments_updateWhere h fun d => congrArg Prod.fst (hkey d), List.filterMap_eq_map']
      rfl
    refine lowers_of_rows _ hdocs (fun d hd hlock => ?_) fun d hd d' hd' => ?_
    · by_cases hpd : p d = true
      · exact absurd hlock (not_locked_of_target hw htarget (List.mem_filter.1 hd).1 hpd i)
      · rw [if_neg hpd]
    · obtain rfl := Option.some.inj hd'
      by_cases hpd : p d = true
      · rw [if_pos hpd]
        refine ⟨hkey d, hid d, hweight q d fun hset hdel => hrev ?_⟩
        obtain ⟨hm, ho⟩ := List.mem_filter.1 hd
        have horg : d.orgId = org := by simpa using ho
        simp only [hp, rls, Bool.and_eq_true, beq_iff_eq] at hpd
        exact ⟨hset, hw, d, hm, by rw [htarget, ← hpd.1, ← hpd.2, horg], horg, hdel⟩
      · rw [if_neg hpd]
        exact ⟨rfl, rfl, Nat.le_refl _⟩
  | @delete orgId documentId htarget h =>
    set p := rls orgId Document.orgId fun d => d.id == documentId with hp
    have hdocs : orgDocuments org (Pipeline.step env s.store l).db =
        (orgDocuments org s.store.db).filterMap fun d => if p d then none else some d := by
      unfold orgDocuments
      rw [h, filter_deleteWhere, deleteWhere_eq_filterMap]
    refine lowers_of_rows _ hdocs (fun d hd hlock => ?_) fun d hd d' hd' => ?_
    · by_cases hpd : p d = true
      · exact absurd hlock (not_locked_of_target hw htarget (List.mem_filter.1 hd).1 hpd i)
      · rw [if_neg hpd]
    · by_cases hpd : p d = true
      · rw [if_pos hpd] at hd'
        cases hd'
      · rw [if_neg hpd] at hd'
        obtain rfl := Option.some.inj hd'
        exact ⟨rfl, rfl, Nat.le_refl _⟩

/-! ## Runs -/

/-- The invariant of uploads over the pipeline, for one cap of one org. -/
structure CapInv (q : Quota env) (org : Uuid) (s : UploadSystem) : Prop where
  sessions : SessionsInv (fun _ _ _ _ => True) s
  exclusive : Exclusive s
  met : Met (fun call _ => uploadContract q org call) s
  stored : Stored org s.store.db
  capped : load q.weight org s.store.db ≤ q.cap

theorem capInv_atRest (q : Quota env) {org : Uuid} {db : Db} (nextId : Uuid) (horg : db.hasOrg org = true)
    (hempty : ∀ d ∈ db.documents, d.orgId ≠ org) : CapInv q org (UploadSystem.atRest db nextId) := by
  have hnone : orgDocuments org db = [] := by
    unfold orgDocuments
    rw [List.filter_eq_nil_iff]
    intro d hd
    simpa using hempty d hd
  refine ⟨sessionsInv_atRest _ _, exclusive_atRest _ _, met_atRest _ _, ⟨horg, ?_⟩, ?_⟩
  · show ((orgDocuments org db).map Document.key).Nodup
    rw [hnone]
    exact List.nodup_nil
  · show load q.weight org db ≤ q.cap
    unfold load
    rw [hnone]
    exact Nat.zero_le _

section Step

variable {q : Quota env} {org : Uuid} {s : UploadSystem}

/-- A session that commits leaves the org within its cap, and the others what they count on. -/
theorem CapInv.committed (h : CapInv q org s) {i : Nat}
    {t : ReadCommitted.Session Pipeline UploadLock Err SyncResult SyncCall} {a : SyncResult} (ht : s.sessions i = some t) (hp : t.prog = .done a) :
    Respects (fun call _ => uploadContract q org call) s (t.pending s.store) i ∧
      Stored org (t.pending s.store).db ∧ load q.weight org (t.pending s.store).db ≤ q.cap := by
  have hmeets := h.met i t ht
  rw [hp] at hmeets
  obtain ⟨horgs, hcommits⟩ := hmeets s.store h.stored ((uploadContract q org t.call).rely_refl _ _)
  have hhas : (t.pending s.store).db.hasOrg org = true := by
    have hbefore := h.stored.hasOrg
    unfold Db.hasOrg at hbefore ⊢
    rw [horgs]
    exact hbefore
  by_cases hcall : t.call.ctx.orgId = org
  · rw [if_pos hcall] at hcommits
    obtain ⟨hlock, hkeys, hload⟩ := hcommits
    refine ⟨fun j u hji _ hlock' => ?_, ⟨hhas, hkeys⟩, hload⟩
    -- only one of them holds the lock on the org
    have hapart := h.exclusive i j (Ne.symm hji) _ hlock _ hlock'
    simp at hapart
  · rw [if_neg hcall] at hcommits
    refine ⟨fun j u _ _ _ => lowers_of_eq hcommits, ⟨hhas, ?_⟩, ?_⟩
    · rw [hcommits]
      exact h.stored.keys
    · unfold load
      rw [hcommits]
      exact h.capped

theorem capInv_sync (h : CapInv q org s) (l : ReadCommitted.Label SyncCall) :
    CapInv q org (UploadSystem.step env s (.sync l)) := by
  have hmet : Met (fun call _ => uploadContract q org call) (UploadSystem.step env s (.sync l)) := by
    refine met_step (fun call _ store => syncSourceProg_meets q org call store) h.sessions.idle h.met
      (fun _ _ _ => h.stored) ?_ fun i t a _ ht hp => (h.committed ht hp).1
    cases l with
    | start i call => trivial
    | advance i => exact fun _ _ _ _ _ _ _ => trivial
    | kill i => trivial
  have hsessions : SessionsInv (fun _ _ _ _ => True) (UploadSystem.step env s (.sync l)) :=
    sessionsInv_step (fun call _ => (syncSourceProg env call).commits_trivial _ _) h.sessions l
  have hexclusive : Exclusive (UploadSystem.step env s (.sync l)) :=
    exclusive_step (fun _ _ => Bool.beq_comm) _ h.exclusive l
  have hstore := store_step (fun call _ => syncSourceProg env call) s l
  rcases hstore with ⟨hsame, -⟩ | ⟨i, t, a, rfl, ht, hp, hclose⟩
  · refine ⟨hsessions, hexclusive, hmet, ?_, ?_⟩
    · show Stored org (ReadCommitted.step _ s l).store.db
      rw [hsame]
      exact h.stored
    · show load q.weight org (ReadCommitted.step _ s l).store.db ≤ q.cap
      rw [hsame]
      exact h.capped
  · obtain ⟨-, hstored, hload⟩ := h.committed ht hp
    have hstep : UploadSystem.step env s (.sync (.advance i)) = s.close i (t.pending s.store) := hclose
    rw [hstep] at hsessions hexclusive hmet ⊢
    exact ⟨hsessions, hexclusive, hmet, hstored, hload⟩

theorem capInv_pipeline (h : CapInv q org s) {l : Pipeline.Label}
    (hrev : ¬ UploadSystem.Revives org s (.pipeline l)) :
    CapInv q org (UploadSystem.step env s (.pipeline l)) := by
  by_cases hl : ∀ r p o src is now, l ≠ .sync r p o src is now
  · have hstep : UploadSystem.step env s (.pipeline l) =
        if UploadSystem.waits s l then s else { s with store := Pipeline.step env s.store l } := by
      cases l with
      | sync r p o src is now => exact absurd rfl (hl r p o src is now)
      | _ => rfl
    rw [hstep]
    split
    · exact h
    · rename_i hw
      have hlower := fun i => pipeline_lowers (q := q) hl (Bool.eq_false_iff.2 hw) hrev i
      obtain ⟨g, hg, hdocs⟩ := hlower 0
      refine ⟨⟨h.sessions.commits, h.sessions.idle, h.sessions.below, h.sessions.apart⟩, h.exclusive,
        h.met.store fun i t _ _ => hlower i, ⟨?_, ?_⟩, ?_⟩
      · have hhas := h.stored.hasOrg
        unfold Db.hasOrg at hhas ⊢
        rw [(pipeline_rows s.store l hl).1]
        exact hhas
      · show ((orgDocuments org (Pipeline.step env s.store l).db).map Document.key).Nodup
        rw [hdocs]
        exact hg.keys h.stored.keys
      · show load q.weight org (Pipeline.step env s.store l).db ≤ q.cap
        unfold load
        rw [hdocs]
        exact Nat.le_trans (hg.sum_le _) h.capped
  · push Not at hl
    obtain ⟨r, p, o, src, is, now, rfl⟩ := hl
    exact h

end Step

/-- The org's documents are within the caps. -/
def WithinStorageCaps (settings : Settings) (org : Uuid) (db : Db) : Prop :=
  (storageUsed org db).1 ≤ settings.orgDocCap ∧ (storageUsed org db).2 ≤ settings.orgStorageBytesCap

instance (settings : Settings) (org : Uuid) (db : Db) : Decidable (WithinStorageCaps settings org db) :=
  inferInstanceAs (Decidable (_ ∧ _))

/-- An org that starts empty is within its storage caps in every committed state of every run in which no
worker sets the status of a document that is a tombstone by then. -/
theorem storage_caps_hold_unless_revived {org : Uuid} {db : Db} (nextId : Uuid) (horg : db.hasOrg org = true)
    (hempty : ∀ d ∈ db.documents, d.orgId ≠ org) {ls : List UploadSystem.Label}
    (hls : Runs.EachStep (UploadSystem.step env) (fun s l => ¬ UploadSystem.Revives org s l)
      (UploadSystem.atRest db nextId) ls) :
    Runs.Throughout (UploadSystem.step env) (fun s => WithinStorageCaps env.settings org s.store.db)
      (UploadSystem.atRest db nextId) ls := by
  have hboth : Runs.Throughout (UploadSystem.step env)
      (fun s => CapInv (docQuota env) org s ∧ CapInv (bytesQuota env) org s) (UploadSystem.atRest db nextId) ls := by
    refine Runs.throughout_of_eachStep (fun s l hs hl => ?_)
      ⟨capInv_atRest _ nextId horg hempty, capInv_atRest _ nextId horg hempty⟩ hls
    cases l with
    | sync l => exact ⟨capInv_sync hs.1 l, capInv_sync hs.2 l⟩
    | pipeline l => exact ⟨capInv_pipeline hs.1 hl, capInv_pipeline hs.2 hl⟩
  refine hboth.mono fun s hs => ?_
  unfold WithinStorageCaps
  rw [storageUsed_eq]
  exact ⟨hs.1.capped, hs.2.capped⟩

/-! ## A tombstone that comes back -/

/-- An org that may hold one document, and its owner. -/
def smallEnv : Env := { asciiEnv Pipeline.digest with settings := { orgDocCap := 1 } }

def ada : AuthContext := ⟨2, 1, .owner, "ada@acme.test"⟩

/-- A session uploads the items, from the first statement to its end. -/
def uploadThrough (session : Nat) (items : List Item) (fresh : Uuid) (now : Time) : List UploadSystem.Label :=
  .sync (.start session ⟨ada, "upload", items, fresh, now, session⟩) ::
    List.replicate 8 (.sync (.advance session))

/-- A document is uploaded, and a worker has read and embedded it. -/
def uploadInFlight : List UploadSystem.Label :=
  uploadThrough 0 [⟨"a.txt", "alpha", none⟩] 20 (seconds 1) ++
    [.pipeline (.enqueue 0 (seconds 2))] ++ (Pipeline.prepare 0 (seconds 3)).map .pipeline

/-- Meanwhile the document is taken out of the source, and another takes its place under the cap. -/
def replaceInFlight : List UploadSystem.Label :=
  uploadThrough 1 [] 30 (seconds 4) ++ uploadThrough 1 [⟨"b.txt", "beta", none⟩] 40 (seconds 5)

/-- Two uploads of an org at its cap at once: one waits for the other and is turned down, and a worker
that writes in time changes nothing about it. -/
theorem storage_caps_hold_of_two_uploads :
    Runs.Throughout (UploadSystem.step smallEnv)
      (fun s => WithinStorageCaps smallEnv.settings 1 s.store.db)
      (UploadSystem.atRest Pipeline.oneOrg.db 10)
      (uploadInFlight ++ [.sync (.start 1 ⟨ada, "mail", [⟨"b.txt", "beta", none⟩], 30, seconds 4, 1⟩),
        .sync (.advance 1), .pipeline (.write 0 (seconds 4))] ++ List.replicate 3 (.sync (.advance 1))) := by
  refine storage_caps_hold_unless_revived 10 (by decide) (by decide) ?_
  decide

/-- The worker writes the first document after all: its tombstone counts again, next to the document that
took its place. -/
theorem revived_document_passes_the_cap :
    ¬ WithinStorageCaps smallEnv.settings 1
      (Runs.run (UploadSystem.step smallEnv) (UploadSystem.atRest Pipeline.oneOrg.db 10)
        (uploadInFlight ++ replaceInFlight ++ [.pipeline (.write 0 (seconds 6))])).store.db ∧
    WithinStorageCaps smallEnv.settings 1
      (Runs.run (UploadSystem.step smallEnv) (UploadSystem.atRest Pipeline.oneOrg.db 10)
        (uploadInFlight ++ replaceInFlight)).store.db := by
  decide

end KnowledgeDesk.Proofs
