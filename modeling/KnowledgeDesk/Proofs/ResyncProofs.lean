import KnowledgeDesk.Proofs.ReconcileProofs
import KnowledgeDesk.Proofs.StrandedProofs

/-!
# `sync_source` twice

After an upload and a drain in which every job succeeds, the documents at the listed paths are ingested
with the hashes of their items (`Arriving`), and the source has no others (`OnlyListed`), so a second
upload of the same items skips all of them. `check_caps` counts the items again nevertheless, and may
raise.
-/

open Table

namespace KnowledgeDesk.Proofs

open Pipeline Runs

/-- The steps of a drain in which every job that runs succeeds, and of the uploads' enqueues before it. -/
def Drains : Label → Prop
  | .enqueue .. | .claim .. | .read _ | .embed .. | .write .. | .succeed .. => True
  | _ => False

/-- The org has no job left to enqueue or to run. -/
def Drained (orgId : Uuid) (s : Pipeline) : Prop :=
  (∀ r, ∀ p ∈ s.requests r, p.orgId ≠ orgId) ∧ ∀ j ∈ s.db.jobs, j.orgId = orgId → ¬ Live j

/-- The step enqueues a job of a document of the source under a key that is taken, and leaves the document
pending without a job. -/
def LosesJobIn (orgId : Uuid) (source : String) (s : Pipeline) (l : Label) : Prop :=
  LosesJob s l ∧ ∃ r now p rest doc, l = .enqueue r now ∧ s.requests r = p :: rest ∧
    s.db.document? p.documentId = some doc ∧ doc.orgId = orgId ∧ doc.source = source

/-- A worker writes a document of the source that has become a tombstone since it was read. -/
def WritesTombstoneIn (orgId : Uuid) (source : String) (s : Pipeline) : Label → Prop
  | .write worker _ => ∃ job doc rows row, s.workers worker = .embedded job doc rows ∧
      s.db.document? doc.id = some row ∧ row.orgId = orgId ∧ row.source = source ∧ row.status = .deleted
  | _ => False

variable {env : Env} {s : Pipeline}

theorem Drains.crashFree {l : Label} (h : Drains l) : CrashFree l := by
  cases l <;> trivial

theorem Drains.not_deadLetters {l : Label} (h : Drains l) : ¬ DeadLetters s l := by
  cases l with
  | fail => exact h.elim
  | _ => exact id

/-! ## The documents of the items on their way -/

/-- The document at the item's path has the item's hash, and is ingested or will be. -/
def Arriving (env : Env) (orgId : Uuid) (source : String) (item : Item) (s : Pipeline) : Prop :=
  ∃ doc, s.db.document? doc.id = some doc ∧ doc.key = (orgId, source, item.path) ∧
    doc.contentHash = env.sha256 item.content ∧
    (doc.status = .ingested ∨ doc.status = .pending ∧ Covered False s doc.id)

/-- The source has live documents at the paths of the items only. -/
def OnlyListed (orgId : Uuid) (source : String) (items : List Item) (s : Pipeline) : Prop :=
  ∀ id doc, s.db.document? id = some doc → doc.orgId = orgId → doc.source = source →
    doc.status ≠ .deleted → ∃ i ∈ items, i.path = doc.path

/-- The org of a job to enqueue is that of its document. -/
theorem request_org (h : Inv env s) {r : Nat} {p : PendingJob} (hp : p ∈ s.requests r) {doc : Document}
    (hdoc : s.db.document? p.documentId = some doc) : p.orgId = doc.orgId := by
  obtain ⟨hm, hid⟩ := (document?_eq_some h.docs).1 hdoc
  exact ((h.requests r p hp).2 doc hm hid).symm

theorem arriving_step (h : Inv env s) (hk : JobsKept s) {orgId : Uuid} {source : String} {item : Item}
    {l : Label} (hl : Drains l) (hlose : ¬ LosesJobIn orgId source s l) (ha : Arriving env orgId source item s) :
    Arriving env orgId source item (step env s l) := by
  obtain ⟨doc, hdoc, hkey, hhash, hstatus⟩ := ha
  cases step_document h l doc.id with
  | same hsame _ hno =>
    refine ⟨doc, hsame.trans hdoc, hkey, hhash, hstatus.imp_right fun ⟨hp, hc⟩ => ⟨hp, ?_⟩⟩
    refine pending_covered_step h hk ⟨doc, hdoc, hp⟩ hc (fun ht => by simp [hno ht] at hdoc) hl.crashFree
      ?_ (.inr hl.not_deadLetters)
    rintro r now p rest rfl hreq hid hlost
    exact hlose ⟨hlost, r, now, p, rest, doc, rfl, hreq, hid ▸ hdoc, congrArg (·.1) hkey,
      congrArg (·.2.1) hkey⟩
  | @written worker now _ job d rows hphase hid hwritten _ =>
    refine ⟨doc.ingest now, ?_, hkey, hhash, .inl rfl⟩
    rw [hdoc] at hwritten
    exact hwritten
  | uploaded | dropped | failed | permitted | deleted => exact hl.elim

theorem onlyListed_step (h : Inv env s) {orgId : Uuid} {source : String} {items : List Item} {l : Label}
    (hl : Drains l) (hwrite : ¬ WritesTombstoneIn orgId source s l)
    (ho : OnlyListed orgId source items s) : OnlyListed orgId source items (step env s l) := by
  intro id doc hdoc horg hsource hlive
  cases step_document h l id with
  | same hsame _ _ => exact ho id doc (hsame ▸ hdoc) horg hsource hlive
  | @written worker now _ job d rows hphase hid hwritten _ =>
    obtain ⟨row, hrow, rfl⟩ := Option.map_eq_some_iff.1 (hwritten ▸ hdoc)
    refine ho id row hrow horg hsource fun hdeleted => hwrite ?_
    exact ⟨job, d, rows, row, hphase, hid ▸ hrow, horg, hsource, hdeleted⟩
  | uploaded | dropped | failed | permitted | deleted => exact hl.elim

/-- What has arrived when the org has no job left. -/
theorem Arriving.ingested (h : Inv env s) {orgId : Uuid} {source : String} {item : Item}
    (ha : Arriving env orgId source item s) (hd : Drained orgId s) :
    isUnchanged env (sourceDocuments orgId source s.db) item = true := by
  obtain ⟨doc, hdoc, hkey, hhash, hstatus⟩ := ha
  have horg : doc.orgId = orgId := congrArg (·.1) hkey
  obtain ⟨hm, -⟩ := (document?_eq_some h.docs).1 hdoc
  refine (isUnchanged_iff h.docs).2 ⟨doc, hm, hkey, hhash, hstatus.resolve_right ?_⟩
  rintro ⟨-, ⟨r, p, hp, hid⟩ | ⟨j, hj, hid, hlive, -⟩ | ⟨hf, -⟩⟩
  · exact hd.1 r p hp ((request_org h hp (hid ▸ hdoc)).trans horg)
  · obtain ⟨-, -, id, hid', hown⟩ := h.jobs j hj
    obtain rfl : id = doc.id := Option.some.inj (hid'.symm.trans hid)
    exact hd.2 j hj ((hown.2 doc hm rfl).symm.trans horg) hlive
  · exact hf

/-! ## After the first upload -/

section Upload

variable {precheck : Db → Except Err Unit} {orgId : Uuid} {source : String} {items : List Item}
  {request : Nat} {now : Time} {result : SyncResult} {jobs : List PendingJob} {db' : Db}

/-- With distinct paths, the last item of a path is the item itself. -/
theorem eq_of_lastUpload (hdistinct : (items.map Item.path).Nodup) {existing : List Document}
    {item i : Item} (hitem : item ∈ items) (h : lastUpload env existing items item.path = some i) :
    i = item := by
  obtain ⟨hi, hp, -⟩ := lastUpload_mem h
  exact Table.eq_of_key hdistinct hi hitem hp

theorem step_sync (hidle : s.requests request = [])
    (h : syncTx env precheck orgId source items s.nextId now s.db = .ok ((result, jobs), db')) :
    step env s (.sync request precheck orgId source items now) =
      { s with
        db := db', nextId := s.nextId + items.length
        requests := Function.update s.requests request jobs } := by
  simp [step, hidle, h]

theorem arriving_sync (hinv : Inv env s) (hidle : s.requests request = [])
    (hdistinct : (items.map Item.path).Nodup)
    (h : syncTx env precheck orgId source items s.nextId now s.db = .ok ((result, jobs), db'))
    {item : Item} (hitem : item ∈ items) :
    Arriving env orgId source item (step env s (.sync request precheck orgId source items now)) := by
  have hdocs' := (syncTx_spec hinv.docs h).docs
  obtain ⟨acc, hs, rfl, -⟩ := syncTx_synced hinv.docs h
  rw [step_sync hidle h]
  obtain ⟨doc, hdoc, hkey, -, hskipped, huploaded⟩ := hs.listed hitem
  refine ⟨doc, (document?_eq_some hdocs').2 ⟨hdoc, rfl⟩, hkey, ?_⟩
  cases hlast : lastUpload env (sourceDocuments orgId source s.db) items item.path with
  | some i =>
    obtain ⟨htext, hpending, job, hjob, hid⟩ := huploaded i hlast
    obtain rfl := eq_of_lastUpload hdistinct hitem hlast
    refine ⟨htext.contentHash, .inr ⟨hpending, .inl ⟨request, job, ?_, hid⟩⟩⟩
    simpa using hjob
  | none =>
    obtain ⟨prior, hprior, hkprior, hhash, hingested⟩ := (isUnchanged_iff hinv.docs).1
      (lastUpload_eq_none.1 hlast item hitem rfl)
    obtain rfl := hinv.docs.eq_of_key hprior (hskipped hlast) (hkprior.trans hkey.symm)
    exact ⟨hhash, .inl hingested⟩

theorem onlyListed_sync (hinv : Inv env s) (hidle : s.requests request = [])
    (h : syncTx env precheck orgId source items s.nextId now s.db = .ok ((result, jobs), db')) :
    OnlyListed orgId source items (step env s (.sync request precheck orgId source items now)) := by
  obtain ⟨acc, hs, -⟩ := syncTx_synced hinv.docs h
  rw [step_sync hidle h]
  intro id doc hdoc horg hsource hlive
  refine (hs.live_iff doc.path).1 ⟨doc, List.mem_of_find?_eq_some hdoc, ?_, hlive⟩
  exact Prod.ext horg (Prod.ext hsource rfl)

/-- The whole of it: the items have arrived, and nothing else is there. -/
theorem arrived_after_drain (hinv : Inv env s) (hkept : JobsKept s) (hidle : s.requests request = [])
    (hdistinct : (items.map Item.path).Nodup)
    (h : syncTx env precheck orgId source items s.nextId now s.db = .ok ((result, jobs), db'))
    {ls : List Label} (hdrain : ∀ l ∈ ls, Drains l)
    (hslips : EachStep (step env) (fun s l => ¬ LosesJobIn orgId source s l ∧ ¬ WritesTombstoneIn orgId source s l)
      (step env s (.sync request precheck orgId source items now)) ls)
    (hdone : Drained orgId (run (step env) (step env s (.sync request precheck orgId source items now)) ls)) :
    let t := run (step env) (step env s (.sync request precheck orgId source items now)) ls
    (∀ item ∈ items, isUnchanged env (sourceDocuments orgId source t.db) item = true) ∧
      missing (sourceDocuments orgId source t.db) items = [] := by
  intro t
  have hstart : Inv env (step env s (.sync request precheck orgId source items now)) ∧
      JobsKept (step env s (.sync request precheck orgId source items now)) ∧
      (∀ item ∈ items, Arriving env orgId source item
        (step env s (.sync request precheck orgId source items now))) ∧
      OnlyListed orgId source items (step env s (.sync request precheck orgId source items now)) :=
    ⟨step_inv hinv _, jobsKept_step hinv hkept _,
      fun item hitem => arriving_sync hinv hidle hdistinct h hitem, onlyListed_sync hinv hidle h⟩
  have hrun := throughout_of_eachStep (P := fun s => Inv env s ∧ JobsKept s ∧
      (∀ item ∈ items, Arriving env orgId source item s) ∧ OnlyListed orgId source items s)
    (fun s l hp hl => ⟨step_inv hp.1 l, jobsKept_step hp.1 hp.2.1 l,
      fun item hitem => arriving_step hp.1 hp.2.1 hl.1 hl.2.1 (hp.2.2.1 item hitem),
      onlyListed_step hp.1 hl.1 hl.2.2 hp.2.2.2⟩) hstart (eachStep_and.2 ⟨eachStep_label.2 hdrain, hslips⟩)
  obtain ⟨hinv', -, harrived, honly⟩ := hrun.last
  refine ⟨fun item hitem => (harrived item hitem).ingested hinv' hdone, ?_⟩
  refine List.eq_nil_iff_forall_not_mem.2 fun doc hdoc => ?_
  obtain ⟨hm, horg, hsource, hnone, hlive⟩ := mem_missing.1 hdoc
  obtain ⟨i, hi, hp⟩ := honly doc.id doc ((document?_eq_some hinv'.docs).2 ⟨hm, rfl⟩) horg hsource hlive
  exact hnone i hi hp

end Upload

/-! ## The second upload -/

/-- A loop that skips every item has written nothing. -/
theorem syncItems_skip {orgId : Uuid} {source : String} {existing : List Document} {now : Time}
    {items : List Item} (h : ∀ item ∈ items, isUnchanged env existing item = true) (k : Uuid)
    (acc : SyncAcc) :
    (items.zipIdx k).foldlM (syncItem env orgId source existing now) acc =
      .ok { acc with unchanged := acc.unchanged + items.length } := by
  induction items generalizing k acc with
  | nil => rfl
  | cons item items ih =>
    rw [List.zipIdx_cons, List.foldlM_cons, syncItem, if_pos (h item List.mem_cons_self)]
    have hrest := ih (fun i hi => h i (List.mem_cons_of_mem item hi)) (k + 1)
      { acc with unchanged := acc.unchanged + 1 }
    rw [List.length_cons, ← Nat.add_assoc, Nat.add_right_comm]
    exact hrest

/-- A sync that skips every item and misses none changes nothing. -/
theorem syncTx_unchanged {precheck : Db → Except Err Unit} {orgId : Uuid} {source : String}
    {items : List Item} {db : Db} (hcheck : precheck db = .ok ())
    (hskip : ∀ item ∈ items, isUnchanged env (sourceDocuments orgId source db) item = true)
    (hgone : missing (sourceDocuments orgId source db) items = []) (fresh : Uuid) (now : Time) :
    syncTx env precheck orgId source items fresh now db = .ok ((⟨0, items.length, 0⟩, []), db) := by
  simp only [syncTx, hcheck, syncItems_skip hskip, hgone, bind, Except.bind]
  simp

/-- The org has room for the items on top of what it stores already. -/
def HasRoom (env : Env) (orgId : Uuid) (items : List Item) (db : Db) : Prop :=
  (storageUsed orgId db).2 + (items.map fun i => i.content.utf8ByteSize).sum ≤
      env.settings.orgStorageBytesCap ∧
    (storageUsed orgId db).1 + items.length ≤ env.settings.orgDocCap

theorem checkCaps_of_not_hasRoom {orgId : Uuid} {items : List Item} {db : Db}
    (h : ¬ HasRoom env orgId items db) :
    ∃ text, checkCaps env orgId items db = .error (.quotaExceeded text) := by
  simp only [checkCaps]
  split
  · exact ⟨_, rfl⟩
  · rename_i hbytes
    refine ⟨_, if_pos (Nat.lt_of_not_le fun hdocs => h ⟨Nat.not_lt.1 hbytes, hdocs⟩)⟩

/-- A second upload of the same items, after the first one's jobs have all succeeded, changes nothing: it
finds every item unchanged, if the org has room for the items on top of what it stores, and else raises
`QuotaExceeded`. -/
theorem resync_changes_nothing (ctx : AuthContext) (source : String) (items : List Item)
    (hdistinct : (items.map Item.path).Nodup) (s : Pipeline) (hs : Reachable env s)
    (hrole : requireRole ctx .admin = .ok ()) (request : Nat) (hidle : s.requests request = [])
    (now : Time) (result : SyncResult) (jobs : List PendingJob) (db' : Db)
    (hsync : syncTx env (checkCaps env ctx.orgId items) ctx.orgId source items s.nextId now s.db =
      .ok ((result, jobs), db'))
    (ls : List Label) (hdrain : ∀ l ∈ ls, Drains l)
    (hslips : EachStep (step env)
      (fun s l => ¬ LosesJobIn ctx.orgId source s l ∧ ¬ WritesTombstoneIn ctx.orgId source s l)
      (step env s (.sync request (checkCaps env ctx.orgId items) ctx.orgId source items now)) ls)
    (hdone : Drained ctx.orgId
      (run (step env) (step env s (.sync request (checkCaps env ctx.orgId items) ctx.orgId source items now))
        ls))
    (fresh : Uuid) (now' : Time) :
    let db := (run (step env)
      (step env s (.sync request (checkCaps env ctx.orgId items) ctx.orgId source items now)) ls).db
    (HasRoom env ctx.orgId items db →
      syncSource env ctx source items fresh now' db = (.ok ⟨0, items.length, 0⟩, db)) ∧
    (¬ HasRoom env ctx.orgId items db →
      ∃ text, syncSource env ctx source items fresh now' db = (.error (.quotaExceeded text), db)) := by
  intro db
  obtain ⟨hskip, hgone⟩ := arrived_after_drain (inv_of_reachable hs) (jobsKept_of_reachable hs) hidle
    hdistinct hsync hdrain hslips hdone
  have hgate : gate (requireRole ctx .admin) db = (.ok (), db) := by
    rw [hrole]
    rfl
  constructor
  · intro hroom
    have htx := syncTx_unchanged (checkCaps_ok_iff.2 hroom) hskip hgone fresh now'
    rw [syncSource, Proc.bind_of_ok hgate, syncDocuments, Proc.bind_of_ok (Proc.transact_of_ok htx)]
    rfl
  · intro hfull
    obtain ⟨text, hcheck⟩ := checkCaps_of_not_hasRoom hfull
    have htx : syncTx env (checkCaps env ctx.orgId items) ctx.orgId source items fresh now' db =
        .error (.quotaExceeded text) := by
      simp only [syncTx, hcheck, bind, Except.bind]
    refine ⟨text, ?_⟩
    rw [syncSource, Proc.bind_of_ok hgate, syncDocuments,
      Proc.bind_of_error (Proc.transact_of_error htx)]

/-- The owner of the org of the concrete runs. -/
def adaCtx : AuthContext := ⟨2, 1, .owner, "ada@acme.test"⟩

/-- The upload of the concrete runs. -/
def oneFile : List Item := [⟨"a.txt", "alpha", none⟩]

/-- The state after an upload of one file under the caps of `env`. -/
def uploadedUnder (env : Env) : Pipeline :=
  step env oneOrg (.sync 0 (checkCaps env 1 oneFile) 1 "upload" oneFile (seconds 1))

/-- Its enqueue, and the drain. -/
def enqueueAndProcess : List Label := .enqueue 0 (seconds 2) :: process 0 (seconds 3)

/-- The state after the drain. -/
def ingestedUnder (env : Env) : Pipeline := run (step env) (uploadedUnder env) enqueueAndProcess

theorem enqueueAndProcess_drains : ∀ l ∈ enqueueAndProcess, Drains l := by
  simp [enqueueAndProcess, process, prepare, Drains]

theorem ingestedUnder_drained (hrequests : (ingestedUnder env).requests 0 = [])
    (hjobs : ∀ j ∈ (ingestedUnder env).db.jobs, j.status = .succeeded) : Drained 1 (ingestedUnder env) := by
  refine ⟨fun r p hp => ?_, fun j hj _ hlive => by simp [Live, hjobs j hj] at hlive⟩
  by_cases hr : r = 0
  · subst hr
    simp [hrequests] at hp
  · have hrest : (ingestedUnder env).requests r = (uploadedUnder env).requests r :=
      requests_run_of_ne _ _ (by simp [enqueueAndProcess, process, prepare, uploadOf, Ne.symm hr])
    rw [hrest, uploadedUnder, requests_step_of_ne env oneOrg (by simp [uploadOf, Ne.symm hr])] at hp
    cases hp

/-- The drain has neither slip: no job is there before its enqueue, and the document stays. -/
theorem enqueueAndProcess_slips :
    EachStep (step (asciiEnv digest))
      (fun s l => ¬ LosesJobIn 1 "upload" s l ∧ ¬ WritesTombstoneIn 1 "upload" s l)
      (uploadedUnder (asciiEnv digest)) enqueueAndProcess := by
  have hno : (uploadedUnder (asciiEnv digest)).db.jobs = [] := by decide
  have hlive : ∀ d ∈ (run (step (asciiEnv digest)) (uploadedUnder (asciiEnv digest))
      (enqueueAndProcess.take 4)).db.documents, d.status ≠ .deleted := by decide
  refine ⟨⟨?_, id⟩, ⟨fun h => h.1, id⟩, ⟨fun h => h.1, id⟩, ⟨fun h => h.1, id⟩, ⟨fun h => h.1, ?_⟩,
    ⟨fun h => h.1, id⟩, trivial⟩
  · rintro ⟨⟨_, _, _, ⟨j, hj, _⟩, _⟩, _⟩
    rw [hno] at hj
    cases hj
  · rintro ⟨job, doc, rows, row, -, hrow, -, -, hdeleted⟩
    exact hlive row (List.mem_of_find?_eq_some hrow) hdeleted

/-- A file uploaded twice, its job run in between, with room for two. -/
theorem resync_of_one_file :
    syncSource (asciiEnv digest) adaCtx "upload" oneFile 20 (seconds 9) (ingestedUnder (asciiEnv digest)).db =
      (.ok ⟨0, 1, 0⟩, (ingestedUnder (asciiEnv digest)).db) :=
  (resync_changes_nothing adaCtx "upload" oneFile (by decide) oneOrg ⟨_, _, [], rfl, rfl, rfl, rfl⟩
    (by decide) 0 rfl (seconds 1) ⟨1, 0, 0⟩ [⟨1, 10, ingestKey 10 (digest "alpha") 0⟩]
    (uploadedUnder (asciiEnv digest)).db (by decide) enqueueAndProcess enqueueAndProcess_drains
    enqueueAndProcess_slips
    (ingestedUnder_drained (by decide) (by decide)) 20 (seconds 9)).1
    ⟨by decide, by decide⟩

/-- An environment whose orgs may store one document. -/
def oneDocumentEnv : Env := { asciiEnv digest with settings := { orgDocCap := 1 } }

/-- With room for one file only, the same upload is refused the second time. -/
theorem resync_raises_at_the_cap :
    Reachable oneDocumentEnv oneOrg ∧ (oneFile.map Item.path).Nodup ∧ oneOrg.requests 0 = [] ∧
      (∃ r, syncTx oneDocumentEnv (checkCaps oneDocumentEnv 1 oneFile) 1 "upload" oneFile oneOrg.nextId
        (seconds 1) oneOrg.db = .ok (r, (uploadedUnder oneDocumentEnv).db)) ∧
      (∀ l ∈ enqueueAndProcess, Drains l) ∧ Drained 1 (ingestedUnder oneDocumentEnv) ∧
      (syncSource oneDocumentEnv adaCtx "upload" oneFile 20 (seconds 9)
        (ingestedUnder oneDocumentEnv).db).1 = .error (.quotaExceeded "org document cap exceeded") := by
  refine ⟨⟨_, _, [], rfl, rfl, rfl, rfl⟩, by decide, rfl,
    ⟨(⟨1, 0, 0⟩, [⟨1, 10, ingestKey 10 (digest "alpha") 0⟩]), by decide⟩,
    enqueueAndProcess_drains, ingestedUnder_drained (by decide) (by decide), ?_⟩
  decide

end KnowledgeDesk.Proofs
