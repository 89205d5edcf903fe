import KnowledgeDesk.Service
import KnowledgeDesk.Proofs.PipelineProofs
import KnowledgeDesk.Proofs.TenantsProofs

/-!
# The service's invariant

`ServiceInv` holds in every reachable state: the pipeline's invariant, the constraints between the
tables, and that the contexts, checked groups and open asks that requests hold still mean what they
meant when the request got them.
-/

open Table

namespace KnowledgeDesk.Proofs

open Service

variable {env : Env}

/-! ## The pipeline leaves the other tables alone -/

/-- A transaction writes documents, chunks and jobs alone, and new documents are of orgs there are. -/
structure DocsOnly (db db' : Db) : Prop where
  frame : db' = { db with documents := db'.documents, chunks := db'.chunks, jobs := db'.jobs }
  orgs : ∀ doc ∈ db'.documents, (∃ d ∈ db.documents, d.orgId = doc.orgId) ∨ db.hasOrg doc.orgId = true

theorem DocsOnly.refl (db : Db) : DocsOnly db db := ⟨rfl, fun doc hdoc => .inl ⟨doc, hdoc, rfl⟩⟩

theorem DocsOnly.jobs (db : Db) (jobs : List Job) : DocsOnly db { db with jobs } :=
  ⟨rfl, fun doc hdoc => .inl ⟨doc, hdoc, rfl⟩⟩

theorem DocsOnly.update (db : Db) (p : Document → Bool) (f : Document → Document)
    (hf : ∀ d, (f d).orgId = d.orgId) (chunks : List Chunk) :
    DocsOnly db { db with documents := updateWhere p f db.documents, chunks } := by
  refine ⟨rfl, fun doc hdoc => ?_⟩
  obtain ⟨d, hd, rfl⟩ := mem_updateWhere.1 hdoc
  refine .inl ⟨d, hd, ?_⟩
  split
  · exact (hf d).symm
  · rfl

theorem DocsOnly.delete (db : Db) (p : Document → Bool) : DocsOnly db (db.deleteDocuments p) :=
  ⟨rfl, fun doc hdoc => .inl ⟨doc, (mem_deleteWhere.1 hdoc).1, rfl⟩⟩

theorem SyncSpec.docsOnly {orgId : Uuid} {source : String} {items : List Item} {n : Uuid} {db db' : Db}
    {jobs : List PendingJob} (h : SyncSpec orgId source items n db jobs db') : DocsOnly db db' := by
  refine ⟨?_, fun doc' hdoc' => ?_⟩
  · rw [h.frame]
  · rcases h.rows doc' hdoc' with ⟨hold, -⟩ | ⟨hup, ⟨doc, hdoc, -, hkey⟩ | ⟨-, horg⟩⟩ |
      ⟨doc, hdoc, -, -, hkey, -⟩
    · exact .inl ⟨doc', hold, rfl⟩
    · exact .inl ⟨doc, hdoc, congrArg (·.1) hkey⟩
    · exact .inr (hup.org ▸ horg)
    · exact .inl ⟨doc, hdoc, congrArg (·.1) hkey⟩

/-- Every step of the pipeline does. -/
theorem pipeline_docsOnly {p : Pipeline} (h : Inv env p) (l : Pipeline.Label) :
    DocsOnly p.db (Pipeline.step env p l).db := by
  have hrefl := DocsOnly.refl p.db
  cases l with
  | sync request precheck orgId source items now =>
    simp only [Pipeline.step]
    split
    · split
      · rename_i htx
        exact (syncTx_spec h.docs htx).docsOnly
      · exact hrefl
    · exact hrefl
  | enqueue request now =>
    simp only [Pipeline.step]
    split
    · exact hrefl
    · split
      · rename_i htx
        rcases enqueuePending_cases htx with ⟨-, rfl⟩ | ⟨-, j, -, -, -, -, -, -, rfl⟩
        · exact hrefl
        · exact DocsOnly.jobs _ _
      · exact hrefl
  | claim worker locked now =>
    simp only [Pipeline.step]
    split
    · split
      · rename_i htx
        obtain ⟨j, -, -, -, rfl⟩ := claimOne_some htx
        exact DocsOnly.jobs _ _
      · exact hrefl
    · exact hrefl
  | write worker now =>
    simp only [Pipeline.step]
    split
    · split
      · rename_i htx
        obtain ⟨-, rfl⟩ := writeDocument_ok htx
        exact DocsOnly.update _ _ (·.ingest now) (fun _ => rfl) _
      · exact hrefl
    · exact hrefl
  | succeed worker now =>
    simp only [Pipeline.step]
    split
    · exact DocsOnly.jobs _ _
    · exact hrefl
  | fail worker now =>
    simp only [Pipeline.step]
    split
    · split
      · rename_i htx
        rcases markFailed_cases htx with ⟨-, -, rfl⟩ | ⟨j, -, -, -, rfl⟩ | ⟨j, delay, -, -, -, rfl⟩
        · split <;> exact hrefl
        · split <;> exact DocsOnly.jobs _ _
        · split <;> exact DocsOnly.jobs _ _
      · exact hrefl
    · exact hrefl
  | failDocument worker now =>
    simp only [Pipeline.step]
    split
    · split
      · exact hrefl
      · exact DocsOnly.update _ _ (·.fail now) (fun _ => rfl) _
    · exact hrefl
  | updateAcl ctx documentId acl now =>
    simp only [Pipeline.step, Pipeline.commit]
    split
    · rename_i htx
      rw [updateDocumentAclTx_ok htx]
      exact DocsOnly.update _ _ (·.setAcl acl now) (fun _ => rfl) _
    · exact hrefl
  | deleteDocument ctx documentId =>
    simp only [Pipeline.step, Pipeline.commit]
    split
    · rename_i htx
      rw [deleteDocumentTx_ok htx]
      exact DocsOnly.delete _ _
    · exact hrefl
  | read worker | embed worker embedDocuments =>
    simp only [Pipeline.step]
    repeat' split
    all_goals exact hrefl
  | abandon request | interrupt worker error | crash worker => exact hrefl

theorem Tenants.docsOnly {n k : Nat} {db db' : Db} (h : Tenants n db) (hk : n ≤ k) (hd : DocsOnly db db') :
    Tenants k db' := by
  have hf := hd.frame
  refine h.frame hk (by rw [hf]) (fun id => by rw [hf]; rfl) (by rw [hf]) (fun doc hdoc => ?_) (by rw [hf])
    (by rw [hf]) (by rw [hf]) (by rw [hf]) (by rw [hf])
  rcases hd.orgs doc hdoc with ⟨d, hdm, he⟩ | horg
  · rw [← he]
    exact h.documents d hdm
  · exact horg

/-! ## What requests hold -/

/-- The user of a context is a member of its org, as long as there is such a user. -/
def Issued (n : Uuid) (db : Db) (ctx : AuthContext) : Prop :=
  ctx.userId < n ∧ (db.hasUser ctx.userId = true → Member db ctx.userId ctx.orgId)

/-- A group that was checked is of the caller's org, as long as there is such a group. -/
def Checked (n : Uuid) (db : Db) (c : AuthContext × Uuid) : Prop :=
  c.2 < n ∧ ∀ g ∈ db.groups, g.id = c.2 → g.orgId = c.1.orgId

/-- The answer of an open ask is of the asker's org, and nothing is booked on it yet. -/
def Open (n : Uuid) (db : Db) (ctx : AuthContext) (id : Uuid) : Prop :=
  id < n ∧ ∀ a ∈ db.answers, a.id = id → a.orgId = ctx.orgId ∧ a.costUsd = 0

/-- The invariant of the service. -/
structure ServiceInv (env : Env) (s : Service) : Prop where
  pipeline : Inv env s.pipeline
  tenants : Tenants s.nextId s.db
  issued : ∀ ctx ∈ s.issued, Issued s.nextId s.db ctx
  checked : ∀ c ∈ s.checked, Checked s.nextId s.db c
  asks : ∀ i ctx id, s.asks i = some (ctx, id) → Open s.nextId s.db ctx id
  apart : ∀ i j ctx ctx' id, s.asks i = some (ctx, id) → s.asks j = some (ctx', id) → i = j

/-- What a transaction may do to the rows that requests hold on to, but for the costs of the answers in
`billed`: delete them, a user with the membership. -/
structure Moves (billed : Uuid → Prop) (n : Uuid) (db db' : Db) : Prop where
  users : ∀ u, u < n → db'.hasUser u = true →
    db.hasUser u = true ∧ ∀ o, Member db u o → Member db' u o
  groups : ∀ g ∈ db'.groups, g.id < n → ∃ g₀ ∈ db.groups, g₀.id = g.id ∧ g₀.orgId = g.orgId
  answers : ∀ a ∈ db'.answers, a.id < n → ¬ billed a.id →
    ∃ a₀ ∈ db.answers, a₀.id = a.id ∧ a₀.orgId = a.orgId ∧ a₀.costUsd = a.costUsd

section Moves

variable {billed : Uuid → Prop} {n k : Uuid} {db db' : Db}

/-- A transaction that leaves users, memberships, groups and answers as they are. -/
theorem Moves.frame (hu : ∀ id, db'.hasUser id = db.hasUser id) (hm : db'.memberships = db.memberships)
    (hg : db'.groups = db.groups) (ha : db'.answers = db.answers) : Moves billed n db db' := by
  refine ⟨fun u _ hu' => ⟨(hu u).symm.trans hu', fun o => member_frame hm u o⟩,
    fun g hgm _ => ⟨g, hg ▸ hgm, rfl, rfl⟩, fun a ham _ _ => ⟨a, ha ▸ ham, rfl, rfl, rfl⟩⟩

theorem Moves.refl (db : Db) : Moves billed n db db := Moves.frame (fun _ => rfl) rfl rfl rfl

theorem Issued.moves {ctx : AuthContext} (h : Issued n db ctx) (hk : n ≤ k) (hm : Moves billed n db db') :
    Issued k db' ctx := by
  refine ⟨Nat.lt_of_lt_of_le h.1 hk, fun hu => ?_⟩
  obtain ⟨hu₀, hstays⟩ := hm.users ctx.userId h.1 hu
  exact hstays ctx.orgId (h.2 hu₀)

theorem Checked.moves {c : AuthContext × Uuid} (h : Checked n db c) (hk : n ≤ k)
    (hm : Moves billed n db db') : Checked k db' c := by
  refine ⟨Nat.lt_of_lt_of_le h.1 hk, fun g hg he => ?_⟩
  obtain ⟨g₀, hg₀, he₀, ho⟩ := hm.groups g hg (he ▸ h.1)
  rw [← ho]
  exact h.2 g₀ hg₀ (he₀.trans he)

theorem Open.moves {ctx : AuthContext} {id : Uuid} (h : Open n db ctx id) (hk : n ≤ k)
    (hm : Moves billed n db db') (hb : ¬ billed id) : Open k db' ctx id := by
  refine ⟨Nat.lt_of_lt_of_le h.1 hk, fun a ha he => ?_⟩
  obtain ⟨a₀, ha₀, he₀, ho, hc⟩ := hm.answers a ha (he ▸ h.1) (he ▸ hb)
  rw [← ho, ← hc]
  exact h.2 a₀ ha₀ (he₀.trans he)

end Moves

/-- The invariant after a step. -/
theorem ServiceInv.next {s s' : Service} (h : ServiceInv env s) (billed : Uuid → Prop) (stream : Nat)
    (hp : Inv env s'.pipeline) (ht : Tenants s'.nextId s'.db) (hk : s.nextId ≤ s'.nextId)
    (hm : Moves billed s.nextId s.db s'.db)
    (hi : ∀ ctx ∈ s'.issued, ctx ∈ s.issued ∨ Issued s'.nextId s'.db ctx)
    (hc : ∀ c ∈ s'.checked, c ∈ s.checked ∨ Checked s'.nextId s'.db c)
    (ha : ∀ i ctx id, s'.asks i = some (ctx, id) → (s.asks i = some (ctx, id) ∧ ¬ billed id) ∨
      (i = stream ∧ s.nextId ≤ id ∧ Open s'.nextId s'.db ctx id)) : ServiceInv env s' where
  pipeline := hp
  tenants := ht
  issued := fun ctx hctx => (hi ctx hctx).elim (fun hctx => (h.issued ctx hctx).moves hk hm) id
  checked := fun c hcm => (hc c hcm).elim (fun hcm => (h.checked c hcm).moves hk hm) id
  asks := fun i ctx id hid => by
    rcases ha i ctx id hid with ⟨hid, hb⟩ | ⟨-, -, hopen⟩
    · exact (h.asks i ctx id hid).moves hk hm hb
    · exact hopen
  apart := fun i j ctx ctx' id hid hjd => by
    rcases ha i ctx id hid with ⟨hid, -⟩ | ⟨rfl, hge, -⟩ <;>
      rcases ha j ctx' id hjd with ⟨hjd, -⟩ | ⟨rfl, hge', -⟩
    · exact h.apart i j ctx ctx' id hid hjd
    · exact absurd (h.asks i ctx id hid).1 (by lia)
    · exact absurd (h.asks j ctx' id hjd).1 (by lia)
    · rfl

/-- A step of the pipeline's tables keeps the pipeline's invariant when it leaves them alone. -/
theorem Inv.store {p : Pipeline} (h : Inv env p) {db' : Db} (k : Nat) (hd : db'.documents = p.db.documents)
    (hc : db'.chunks = p.db.chunks) (hj : db'.jobs = p.db.jobs) :
    Inv env { p with
      db := db'
      nextId := p.nextId + k } := by
  refine h.of_step (Grows.of_documents (Nat.le_add_right _ _) hd) ?_ (hj ▸ h.jobIds)
    (fun j hjm => .inl (mem_same j (hj ▸ hjm))) (fun r p hp => .inl hp) (fun w => .inl rfl)
  refine ⟨hd ▸ h.docs.ids, hd ▸ h.docs.keys,
    fun doc hdoc => Nat.lt_of_lt_of_le (h.docs.fresh doc (hd ▸ hdoc)) (Nat.le_add_right _ _), ?_⟩
  rw [hd, hc]
  exact h.docs.owner

/-- A transaction on the tables that are not the pipeline's. -/
theorem ServiceInv.store {s : Service} (h : ServiceInv env s) {db' : Db} (k : Nat)
    (ht : Tenants (s.nextId + k) db') (hm : Moves (fun _ => False) s.nextId s.db db')
    (hd : db'.documents = s.db.documents) (hc : db'.chunks = s.db.chunks) (hj : db'.jobs = s.db.jobs) :
    ServiceInv env (s.store db' k) :=
  h.next _ 0 (h.pipeline.store k hd hc hj) ht (Nat.le_add_right _ _) hm (fun _ hi => .inl hi)
    (fun _ hc => .inl hc) fun _ _ _ ha => .inl ⟨ha, not_false⟩

theorem ServiceInv.commit {s : Service} (h : ServiceInv env s) {tx : Tx Db Err Unit} (k : Nat)
    (htx : ∀ db', tx s.db = .ok ((), db') → Tenants (s.nextId + k) db' ∧
      Moves (fun _ => False) s.nextId s.db db' ∧ db'.documents = s.db.documents ∧
      db'.chunks = s.db.chunks ∧ db'.jobs = s.db.jobs) : ServiceInv env (s.commit tx k) := by
  unfold Service.commit
  split
  · rename_i db' hok
    obtain ⟨ht, hm, hd, hc, hj⟩ := htx db' hok
    exact h.store k ht hm hd hc hj
  · exact h

theorem ServiceInv.issue {s : Service} (h : ServiceInv env s) {ctx : AuthContext}
    (hi : Issued s.nextId s.db ctx) : ServiceInv env (s.issue ctx) := by
  refine h.next (fun _ => False) 0 h.pipeline h.tenants (le_refl _) (Moves.refl s.db)
    (fun c hc => ?_) (fun _ hc => .inl hc) fun _ _ _ ha => .inl ⟨ha, not_false⟩
  rcases List.mem_cons.1 hc with rfl | hc
  · exact .inr hi
  · exact .inl hc

theorem ServiceInv.ingest {s : Service} (h : ServiceInv env s) (l : Pipeline.Label) :
    ServiceInv env (s.ingest env l) := by
  have hd := pipeline_docsOnly h.pipeline l
  have hk : s.nextId ≤ (s.ingest env l).nextId := nextId_le_step s.pipeline l
  refine h.next (fun _ => False) 0 (step_inv h.pipeline l)
    (h.tenants.docsOnly hk hd) hk ?_ (fun _ hi => .inl hi) (fun _ hc => .inl hc)
    fun _ _ _ ha => .inl ⟨ha, not_false⟩
  have hf := hd.frame
  refine Moves.frame (fun id => ?_) ?_ ?_ ?_ <;> simp only [Service.ingest, Service.db] <;> rw [hf]
  rfl

/-! ## Accounts -/

theorem issued_of_member {n : Uuid} {db : Db} (h : Tenants n db) {ctx : AuthContext}
    (hm : Member db ctx.userId ctx.orgId) : Issued n db ctx := by
  obtain ⟨m, hmem, hu, -⟩ := member_iff.1 hm
  exact ⟨hu ▸ h.accounts.fresh m hmem, fun _ => hm⟩

/-- Logging in takes the user's password, and gives the context of a membership. -/
theorem authenticate_ok {email password : String} {orgSlug : Option String} {db : Db} {ctx : AuthContext}
    (h : authenticate env email password orgSlug db = .ok ctx) :
    (∃ user ∈ db.users, user.id = ctx.userId ∧ env.verifyPassword password user.passwordHash = true) ∧
    ∃ m ∈ db.memberships, m.userId = ctx.userId ∧ m.orgId = ctx.orgId ∧ m.role = ctx.role := by
  unfold authenticate at h
  dsimp only at h
  split at h
  · cases h
  · rename_i user hfind
    split at h
    · cases h
    · rename_i hverify
      have hverify : env.verifyPassword password user.passwordHash = true := by simpa using hverify
      have huser := List.mem_of_find?_eq_some hfind
      generalize hl : ((db.memberships.filter fun m => m.userId == user.id).filterMap fun m =>
        (db.orgs.find? fun o => o.id == m.orgId).map fun o => (m, o.slug)) = l at h
      have hmem : ∀ r ∈ l, r.1 ∈ db.memberships ∧ r.1.userId = user.id := by
        intro r hr
        rw [← hl] at hr
        obtain ⟨m, hm, hr⟩ := List.mem_filterMap.1 hr
        obtain ⟨o, -, rfl⟩ := Option.map_eq_some_iff.1 hr
        obtain ⟨hm, hu⟩ := List.mem_filter.1 hm
        exact ⟨hm, by simpa using hu⟩
      split at h
      · cases h
      · split at h
        · split at h
          · cases h
          · rename_i r hr
            obtain rfl := Except.ok.inj h
            obtain ⟨hm, hu⟩ := hmem r (List.mem_of_find?_eq_some hr)
            exact ⟨⟨user, huser, rfl, hverify⟩, r.1, hm, hu, rfl, rfl⟩
        · obtain rfl := Except.ok.inj h
          obtain ⟨hm, hu⟩ := hmem _ List.mem_cons_self
          exact ⟨⟨user, huser, rfl, hverify⟩, _, hm, hu, rfl, rfl⟩
        · cases h

/-- A session resolves to the context of a membership. -/
theorem resolveSession_some {raw : String} {now : Time} {db : Db} {ctx : AuthContext}
    (h : resolveSession env raw now db = some ctx) : Member db ctx.userId ctx.orgId := by
  unfold resolveSession at h
  split at h
  · cases h
  · rename_i row c hrow
    split at h
    · cases h
    · obtain rfl := Option.some.inj h
      obtain ⟨sess, -, hsess⟩ := List.exists_of_findSome?_eq_some hrow
      obtain ⟨m, hm, hu⟩ := Option.bind_eq_some_iff.1 hsess
      obtain ⟨u, -, he⟩ := Option.map_eq_some_iff.1 hu
      obtain ⟨rfl, rfl⟩ := Prod.mk.inj he
      have hp := List.find?_some hm
      simp only [Bool.and_eq_true, beq_iff_eq] at hp
      exact member_iff.2 ⟨m, List.mem_of_find?_eq_some hm, hp⟩

/-- New rows of fresh ids in users, memberships, groups or answers are rows nobody holds on to yet. -/
theorem moves_newMember (billed : Uuid → Prop) {n : Uuid} (db : Db) (user : User) (hnew : n ≤ user.id)
    (l : List Org) (m : Membership) : Moves billed n db { db with
      orgs := db.orgs ++ l
      users := db.users ++ [user]
      memberships := db.memberships ++ [m] } := by
  refine ⟨fun u hu hu' => ⟨?_, fun o hm => ?_⟩, fun g hg _ => ⟨g, hg, rfl, rfl⟩,
    fun a ha _ _ => ⟨a, ha, rfl, rfl, rfl⟩⟩
  · have hne : (user.id == u) = false := by
      rw [beq_eq_false_iff_ne]
      lia
    simpa [Db.hasUser, hne] using hu'
  · obtain ⟨m', hm', he⟩ := member_iff.1 hm
    exact member_iff.2 ⟨m', List.mem_append_left _ hm', he⟩

theorem Dropped.moves {billed : Uuid → Prop} {n : Uuid} {userIds : List Uuid} {db db₁ : Db}
    (hd : Dropped userIds db db₁) (h : AccountsInv n db) (hg : ∀ g ∈ db₁.groups, g ∈ db.groups)
    (ha : ∀ a ∈ db₁.answers, a ∈ db.answers) : Moves billed n db (purgeStrandedUsers userIds db₁) := by
  refine ⟨fun u _ hu => ?_, fun g hgm _ => ⟨g, hg g hgm, rfl, rfl⟩,
    fun a ham _ _ => ⟨a, ha a (mem_purge_answers.1 ham).1, rfl, rfl, rfl⟩⟩
  obtain ⟨hu, hs⟩ := hd.hasUser hu
  exact ⟨hu, fun o hm => hd.stays h hm hs⟩

/-- Deleting an org keeps the pipeline's invariant. -/
theorem Inv.deleteOrg {p : Pipeline} (h : Inv env p) (orgId : Uuid) (userIds : List Uuid) :
    Inv env { p with db := purgeStrandedUsers userIds (p.db.deleteOrg orgId) } := by
  set db' := purgeStrandedUsers userIds (p.db.deleteOrg orgId) with hdb'
  have hdocs : db'.documents = deleteWhere (fun d => d.orgId == orgId) p.db.documents := rfl
  have hsub : db'.documents.Sublist p.db.documents := sublist_deleteWhere
  have hjobs : db'.jobs.Sublist p.db.jobs := sublist_deleteWhere
  refine h.of_step ⟨le_refl _, fun doc hdoc => .inl ⟨doc, hsub.subset hdoc, rfl, rfl⟩⟩
    ⟨h.docs.ids.sublist (hsub.map _), h.docs.keys.sublist (hsub.map _),
      fun doc hdoc => h.docs.fresh doc (hsub.subset hdoc), fun c hc => ?_⟩
    (h.jobIds.sublist (hjobs.map _)) (fun j hj => .inl (mem_same j (hjobs.subset hj)))
    (fun r p hp => .inl hp) (fun w => .inl rfl)
  obtain ⟨hc, ho⟩ := mem_deleteWhere.1 hc
  obtain ⟨doc, hdoc, he, horg⟩ := h.docs.owner c (mem_deleteWhere.1 hc).1
  refine ⟨doc, ?_, he, horg⟩
  rw [hdocs]
  exact mem_deleteWhere.2 ⟨hdoc, by simpa [horg] using ho⟩

/-- A transaction whose result is dropped. -/
theorem map_snd_ok {α : Type} {r : Except Err (α × Db)} {db' : Db} :
    r.map (fun r => ((), r.2)) = .ok ((), db') ↔ ∃ a, r = .ok (a, db') := by
  rcases r with e | ⟨a, db₁⟩
  · simp [Except.map]
  · simp [Except.map]

theorem MemberCall.tx_cases {call : MemberCall} {fresh : Uuid} {db db' : Db} {u : Unit}
    (h : call.tx env fresh db = .ok (u, db')) :
    (∃ ctx userId role, call = .setMemberRole ctx userId role ∧
      setMemberRoleTx ctx userId role db = .ok (u, db')) ∨
    (∃ ctx userId, call = .removeMember ctx userId ∧ removeMemberTx ctx userId db = .ok (u, db')) ∨
    ∃ ctx email password role salt now, call = .addMember ctx email password role salt now ∧
      db.hasOrg ctx.orgId = true ∧ ∃ user : User, user.id = fresh ∧
        user.passwordHash = env.hashPassword password salt ∧ db' = { db with
          users := db.users ++ [user]
          memberships := db.memberships ++ [⟨fresh, ctx.orgId, role, now⟩] } := by
  cases call with
  | setMemberRole ctx userId role => exact .inl ⟨ctx, userId, role, rfl, h⟩
  | removeMember ctx userId => exact .inr (.inl ⟨ctx, userId, rfl, h⟩)
  | addMember ctx email password role salt now =>
    obtain ⟨id, hadd⟩ := map_snd_ok.1 h
    obtain ⟨-, horg, hrest⟩ := addMember_ok hadd
    exact .inr (.inr ⟨ctx, email, password, role, salt, now, rfl, horg, hrest⟩)

/-! ## Every step keeps the invariant -/

theorem passes_iff {s : Service} {ctx : AuthContext} {g : Except Err Unit} :
    s.passes ctx g = true ↔ ctx ∈ s.issued ∧ g = .ok () := by
  cases g with
  | error e => simp [Service.passes, Except.isOk, Except.toBool]
  | ok u => simp [Service.passes, Except.isOk, Except.toBool]

/-- A session is a row of its own token hash, of a user and an org there are. -/
theorem createSession_ok {ctx : AuthContext} {raw token : String} {now : Time} {db db' : Db}
    (h : createSession env ctx raw now db = .ok (token, db')) :
    (∀ sess ∈ db.sessions, sess.tokenHash ≠ env.sha256 raw) ∧ db.hasUser ctx.userId = true ∧
    db' = { db with sessions := db.sessions ++
      [⟨env.sha256 raw, ctx.userId, ctx.orgId, now + seconds (env.settings.sessionTtlHours * 3600)⟩] } := by
  simp only [createSession, Db.references] at h
  split at h
  · simp [bind, Except.bind, throw, throwThe, MonadExceptOf.throw] at h
  · rename_i hnew
    split at h
    · rename_i href
      simp only [bind, Except.bind, Except.ok.injEq, Prod.mk.injEq] at h
      refine ⟨fun sess hsess he => hnew ?_, (Bool.and_eq_true_iff.1 href).1, h.2.symm⟩
      exact List.any_eq_true.2 ⟨sess, hsess, by simpa using he⟩
    · simp [bind, Except.bind] at h

/-- A change of password knew the old one, and leaves the user the session it keeps. -/
theorem changePassword_ok {userId : Uuid} {current new salt keepTokenHash : String} {revoked : Nat}
    {db db' : Db} (h : changePassword env userId current new salt keepTokenHash db = .ok (revoked, db')) :
    (∃ user ∈ db.users, user.id = userId ∧ env.verifyPassword current user.passwordHash = true) ∧
    db' = { db with
      users := updateWhere (fun u => u.id == userId)
        (fun u => { u with passwordHash := env.hashPassword new salt }) db.users
      sessions := deleteWhere (fun s => s.userId == userId && s.tokenHash != keepTokenHash) db.sessions } := by
  simp only [changePassword] at h
  split at h
  · cases h
  · rename_i user hfind
    split at h
    · cases h
    · rename_i hverify
      have hid := List.find?_some hfind
      refine ⟨⟨user, List.mem_of_find?_eq_some hfind, by simpa using hid, by simpa using hverify⟩, ?_⟩
      exact (Prod.mk.inj (Except.ok.inj h)).2.symm

/-- Sessions and password hashes are nobody's concern here. -/
theorem ServiceInv.sessions {s : Service} (h : ServiceInv env s) {tx : Tx Db Err Unit}
    (htx : ∀ db', tx s.db = .ok ((), db') → ∃ users sessions, db' = { s.db with users, sessions } ∧
      ∀ id, db'.hasUser id = s.db.hasUser id) : ServiceInv env (s.commit tx) := by
  refine h.commit 0 fun db' hok => ?_
  obtain ⟨users, sessions, rfl, hu⟩ := htx db' hok
  exact ⟨h.tenants.frame (le_refl _) rfl hu rfl h.tenants.documents rfl rfl rfl rfl rfl,
    Moves.frame hu rfl rfl rfl, rfl, rfl, rfl⟩

theorem ServiceInv.signup {s : Service} (h : ServiceInv env s) {orgSlug orgName email password salt : String}
    {now : Time} {ctx : AuthContext} {db' : Db}
    (hc : createOrgWithOwner env orgSlug orgName email password salt s.nextId (s.nextId + 1) now s.db =
      .ok (ctx, db')) : ServiceInv env ((s.store db' 2).issue ctx) := by
  obtain ⟨huser, horg, -, user, hid, -, rfl⟩ := createOrgWithOwner_ok hc
  have ht := h.tenants.newMember (k := s.nextId + 2) user s.nextId .owner now (by lia) (by lia)
    [⟨s.nextId, orgSlug, orgName⟩] (by simp) (by simp)
  have hm := moves_newMember (n := s.nextId) (fun _ => False) s.db user (by lia)
    [⟨s.nextId, orgSlug, orgName⟩] ⟨user.id, s.nextId, .owner, now⟩
  simp only [hid] at ht hm
  have hs := h.store 2 ht hm rfl rfl rfl
  refine hs.issue (issued_of_member hs.tenants (member_iff.2 ?_))
  exact ⟨_, List.mem_append_right _ (List.mem_singleton.2 rfl), huser.symm, horg.symm⟩

theorem ServiceInv.member {s : Service} (h : ServiceInv env s) (call : MemberCall) :
    ServiceInv env (s.commit (call.tx env s.nextId) 1) := by
  refine h.commit 1 fun db' hok => ?_
  rcases MemberCall.tx_cases hok with ⟨ctx, userId, role, -, htx⟩ | ⟨ctx, userId, -, htx⟩ |
    ⟨ctx, email, password, role, salt, now, -, horg, user, hid, -, rfl⟩
  · have ht := h.tenants.setMemberRole htx
    obtain ⟨-, -, -, rfl⟩ := setMemberRoleTx_ok htx
    refine ⟨ht.frame (Nat.le_succ _) rfl (fun _ => rfl) rfl ht.documents rfl rfl rfl rfl rfl,
      ⟨fun u _ hu => ⟨hu, fun o hm => ?_⟩, fun g hg _ => ⟨g, hg, rfl, rfl⟩,
        fun a ha _ _ => ⟨a, ha, rfl, rfl, rfl⟩⟩, rfl, rfl, rfl⟩
    obtain ⟨m, hmem, rfl, rfl⟩ := member_iff.1 hm
    refine member_iff.2 ⟨_, mem_updateWhere.2 ⟨m, hmem, rfl⟩, ?_⟩
    split <;> exact ⟨rfl, rfl⟩
  · have ht := h.tenants.removeMember htx
    obtain ⟨-, -, -, rfl⟩ := removeMemberTx_ok htx
    exact ⟨ht.frame (Nat.le_succ _) rfl (fun _ => rfl) rfl ht.documents rfl rfl rfl rfl rfl,
      (dropped_deleteMembership userId ctx.orgId s.db).moves h.tenants.accounts (fun g hg => hg)
        fun a ha => ha, rfl, rfl, rfl⟩
  · have ht := h.tenants.newMember (k := s.nextId + 1) user ctx.orgId role now (by lia) (by lia) []
      (by simp) (by rw [List.append_nil]; exact horg)
    have hm := moves_newMember (n := s.nextId) (fun _ => False) s.db user (by lia) []
      ⟨user.id, ctx.orgId, role, now⟩
    simp only [List.append_nil, hid] at ht hm
    exact ⟨ht, hm, rfl, rfl, rfl⟩

theorem ServiceInv.deleteOrg {s : Service} (h : ServiceInv env s) (orgId : Uuid) :
    ServiceInv env (s.commit (KnowledgeDesk.deleteOrg orgId)) := by
  have ht : Tenants s.nextId (purgeStrandedUsers (membersOf orgId s.db) (s.db.deleteOrg orgId)) :=
    h.tenants.deleteOrg (u := ()) rfl
  have hm : Moves (fun _ => False) s.nextId s.db
      (purgeStrandedUsers (membersOf orgId s.db) (s.db.deleteOrg orgId)) :=
    (dropped_deleteOrg orgId s.db).moves h.tenants.accounts (fun g hg => (mem_deleteWhere.1 hg).1)
      fun a ha => (mem_deleteWhere.1 ha).1
  exact h.next _ 0 (Inv.deleteOrg h.pipeline orgId _) ht (le_refl _) hm (fun _ hi => .inl hi)
    (fun _ hc => .inl hc) fun _ _ _ ha => .inl ⟨ha, not_false⟩

theorem ServiceInv.groups {s : Service} (h : ServiceInv env s) {tx : Tx Db Err Unit} (k : Nat)
    (htx : ∀ db', tx s.db = .ok ((), db') → Tenants (s.nextId + k) db' ∧ ∃ groups groupMembers,
      db' = { s.db with groups, groupMembers } ∧
        ∀ g ∈ groups, g.id < s.nextId → ∃ g₀ ∈ s.db.groups, g₀.id = g.id ∧ g₀.orgId = g.orgId) :
    ServiceInv env (s.commit tx k) := by
  refine h.commit k fun db' hok => ?_
  obtain ⟨ht, groups, groupMembers, rfl, hg⟩ := htx db' hok
  exact ⟨ht, ⟨fun u _ hu => ⟨hu, fun o hm => hm⟩, hg, fun a ha _ _ => ⟨a, ha, rfl, rfl, rfl⟩⟩, rfl, rfl, rfl⟩

/-- Recording the answer of an ask that starts. -/
theorem ServiceInv.ask {s : Service} (h : ServiceInv env s) {stream : Nat} {ctx : AuthContext}
    (hctx : ctx ∈ s.issued) {question provider : String} {refused : Bool} {now : Time} {id : Uuid} {db' : Db}
    (hok : recordAnswerTx ctx question provider refused s.nextId now s.db = .ok (id, db')) :
    ServiceInv env { s.store db' 1 with asks := Function.update s.asks stream (some (ctx, id)) } := by
  obtain ⟨rfl, hu, a, hid, horg, huser, hcost, -, -, rfl⟩ := recordAnswerTx_ok hok
  have hm : Member s.db a.userId a.orgId := by
    rw [horg, huser]
    exact (h.issued ctx hctx).2 hu
  refine h.next (fun _ => False) stream (h.pipeline.store 1 rfl rfl rfl) (h.tenants.newAnswer hid hm)
    (Nat.le_succ _) ⟨fun u _ hu => ⟨hu, fun o hm => hm⟩, fun g hg _ => ⟨g, hg, rfl, rfl⟩, ?_⟩
    (fun _ hi => .inl hi) (fun _ hc => .inl hc) fun i ctx' id' hask => ?_
  · intro b hb hlt _
    rcases List.mem_append.1 hb with hb | hb
    · exact ⟨b, hb, rfl, rfl, rfl⟩
    · obtain rfl := List.mem_singleton.1 hb
      exact absurd hlt (by lia)
  · by_cases hi : i = stream
    · subst hi
      simp only [Function.update_self, Option.some.injEq, Prod.mk.injEq] at hask
      obtain ⟨rfl, rfl⟩ := hask
      refine .inr ⟨rfl, le_refl _, Nat.lt_succ_self _, fun b hb he => ?_⟩
      rcases List.mem_append.1 hb with hb | hb
      · exact absurd (h.tenants.ledger.fresh b hb) (by lia)
      · obtain rfl := List.mem_singleton.1 hb
        exact ⟨horg, hcost⟩
    · exact .inl ⟨by simpa [hi] using hask, not_false⟩

/-- Updating the answer of an open ask, which ends there. -/
theorem ServiceInv.closeAsk {s : Service} (h : ServiceInv env s) {stream : Nat} {ctx : AuthContext}
    {id : Uuid} (hask : s.asks stream = some (ctx, id)) {f : Answer → Answer}
    (hf : ∀ a, (f a).id = a.id ∧ (f a).orgId = a.orgId ∧ (f a).userId = a.userId)
    (spend : List PlatformSpend) :
    ServiceInv env { s.store { s.db with
        answers := updateWhere
          (rls ctx.orgId Answer.orgId fun a => a.id == id && a.orgId == ctx.orgId) f s.db.answers
        platformSpend := spend } with asks := Function.update s.asks stream none } := by
  refine h.next (fun b => b = id) stream (h.pipeline.store 0 rfl rfl rfl)
    (h.tenants.updateAnswers _ hf spend) (le_refl _)
    ⟨fun u _ hu => ⟨hu, fun o hm => hm⟩, fun g hg _ => ⟨g, hg, rfl, rfl⟩, ?_⟩
    (fun _ hi => .inl hi) (fun _ hc => .inl hc) fun i ctx' id' hi => ?_
  · intro b hb _ hne
    obtain ⟨a, ha, rfl⟩ := mem_updateWhere.1 hb
    refine ⟨a, ha, ?_⟩
    split
    · rename_i hp
      rw [if_pos hp, (hf a).1] at hne
      simp only [rls, Bool.and_eq_true, beq_iff_eq] at hp
      exact absurd hp.2.1 hne
    · exact ⟨rfl, rfl, rfl⟩
  · by_cases his : i = stream
    · simp [his] at hi
    · have hi' : s.asks i = some (ctx', id') := by simpa [his] using hi
      refine .inl ⟨hi', fun he => his ?_⟩
      subst he
      exact h.apart i stream ctx' ctx id' hi' hask

/-! ## The steps -/

/-- What is left as it is when the request does not pass keeps the invariant if what the request does when
it passes keeps it. -/
theorem ServiceInv.gated {s t : Service} (h : ServiceInv env s) {p : Prop} [Decidable p]
    (ht : p → ServiceInv env t) : ServiceInv env (if p then t else s) := by
  split
  · exact ht ‹_›
  · exact h

theorem ServiceInv.login {s : Service} (h : ServiceInv env s) (email password : String) (orgSlug : Option String) :
    ServiceInv env (Service.step env s (.login email password orgSlug)) := by
  simp only [Service.step]
  split
  · rename_i hok
    obtain ⟨-, m, hm, hu, ho, -⟩ := authenticate_ok hok
    exact h.issue (issued_of_member h.tenants (member_iff.2 ⟨m, hm, hu, ho⟩))
  · exact h

theorem ServiceInv.resolveSession {s : Service} (h : ServiceInv env s) (raw : String) (now : Time) :
    ServiceInv env (Service.step env s (.resolveSession raw now)) := by
  simp only [Service.step]
  split
  · rename_i hok
    exact h.issue (issued_of_member h.tenants (resolveSession_some hok))
  · exact h

theorem ServiceInv.createSession {s : Service} (h : ServiceInv env s) (ctx : AuthContext) (raw : String)
    (now : Time) : ServiceInv env (Service.step env s (.createSession ctx raw now)) := by
  refine h.gated fun _ => ?_
  refine h.sessions fun db' hok => ?_
  obtain ⟨token, hok⟩ := map_snd_ok.1 hok
  obtain ⟨-, -, rfl⟩ := createSession_ok hok
  exact ⟨_, _, rfl, fun _ => rfl⟩

theorem ServiceInv.logout {s : Service} (h : ServiceInv env s) (raw : String) :
    ServiceInv env (Service.step env s (.logout raw)) := by
  simp only [Service.step]
  refine h.sessions fun db' hok => ?_
  obtain rfl := (Prod.mk.inj (Except.ok.inj hok)).2
  exact ⟨_, _, rfl, fun _ => rfl⟩

theorem ServiceInv.changePassword {s : Service} (h : ServiceInv env s) (ctx : AuthContext)
    (current new salt keepTokenHash : String) :
    ServiceInv env (Service.step env s (.changePassword ctx current new salt keepTokenHash)) := by
  refine h.gated fun _ => ?_
  refine h.sessions fun db' hok => ?_
  obtain ⟨revoked, hok⟩ := map_snd_ok.1 hok
  obtain ⟨-, rfl⟩ := changePassword_ok hok
  refine ⟨_, _, rfl, fun id => ?_⟩
  -- a user keeps its id
  simp only [Db.hasUser, updateWhere, List.any_map]
  congr 1
  funext u
  simp only [Function.comp]
  split <;> rfl

theorem ServiceInv.purgeExpiredSessions {s : Service} (h : ServiceInv env s) (now : Time) :
    ServiceInv env (Service.step env s (.purgeExpiredSessions now)) := by
  simp only [Service.step]
  refine h.sessions fun db' hok => ?_
  obtain ⟨n, hok⟩ := map_snd_ok.1 hok
  obtain rfl := (Prod.mk.inj (Except.ok.inj hok)).2
  exact ⟨_, _, rfl, fun _ => rfl⟩

theorem ServiceInv.createGroup {s : Service} (h : ServiceInv env s) (ctx : AuthContext) (name : String)
    (now : Time) : ServiceInv env (Service.step env s (.createGroup ctx name now)) := by
  refine h.gated fun _ => ?_
  refine h.groups 1 fun db' hok => ?_
  obtain ⟨g, htx⟩ := map_snd_ok.1 hok
  refine ⟨h.tenants.createGroup htx, ?_⟩
  obtain ⟨rfl, rfl⟩ := createGroupTx_ok htx
  refine ⟨_, _, rfl, fun g hg hlt => ?_⟩
  rcases List.mem_append.1 hg with hg | hg
  · exact ⟨g, hg, rfl, rfl⟩
  · obtain rfl := List.mem_singleton.1 hg
    exact absurd hlt (Nat.lt_irrefl _)

/-- The group that is returned is of the org. -/
theorem ServiceInv.getGroup {s : Service} (h : ServiceInv env s) (ctx : AuthContext) (groupId : Uuid) :
    ServiceInv env (Service.step env s (.getGroup ctx groupId)) := by
  refine h.gated fun hok => ?_
  obtain ⟨g, hg⟩ := Option.isSome_iff_exists.1 hok.2
  have hp := List.find?_some hg
  have hgm := List.mem_of_find?_eq_some hg
  simp only [rls, Bool.and_eq_true, beq_iff_eq] at hp
  refine h.next (fun _ => False) 0 h.pipeline h.tenants (le_refl _) (Moves.refl s.db)
    (fun _ hi => .inl hi) (fun c hc => ?_) fun _ _ _ ha => .inl ⟨ha, not_false⟩
  rcases List.mem_cons.1 hc with rfl | hc
  · refine .inr ⟨hp.2.1 ▸ h.tenants.groups.fresh g hgm, fun g' hg' he => ?_⟩
    rw [Table.eq_of_key h.tenants.groups.ids hg' hgm (he.trans hp.2.1.symm), hp.1]
  · exact .inl hc

theorem ServiceInv.addGroupMember {s : Service} (h : ServiceInv env s) (ctx : AuthContext) (groupId userId : Uuid) :
    ServiceInv env (Service.step env s (.addGroupMember ctx groupId userId)) := by
  refine h.gated fun hok => ?_
  refine h.groups 0 fun db' htx => ⟨h.tenants.addGroupMember (h.checked _ hok.2).2 htx, ?_⟩
  obtain ⟨-, rfl | ⟨-, rfl⟩⟩ := addGroupMemberTx_ok htx
  · exact ⟨_, _, rfl, fun g hg _ => ⟨g, hg, rfl, rfl⟩⟩
  · exact ⟨_, _, rfl, fun g hg _ => ⟨g, hg, rfl, rfl⟩⟩

theorem ServiceInv.removeGroupMember {s : Service} (h : ServiceInv env s) (ctx : AuthContext)
    (groupId userId : Uuid) : ServiceInv env (Service.step env s (.removeGroupMember ctx groupId userId)) := by
  refine h.gated fun _ => ?_
  refine h.groups 0 fun db' htx => ?_
  obtain rfl := (Prod.mk.inj (Except.ok.inj htx)).2
  exact ⟨h.tenants.deleteGroupMembers _, _, _, rfl, fun g hg _ => ⟨g, hg, rfl, rfl⟩⟩

theorem ServiceInv.deleteGroup {s : Service} (h : ServiceInv env s) (ctx : AuthContext) (groupId : Uuid) :
    ServiceInv env (Service.step env s (.deleteGroup ctx groupId)) := by
  refine h.gated fun _ => ?_
  refine h.groups 0 fun db' htx => ?_
  obtain rfl := deleteGroupTx_ok htx
  exact ⟨h.tenants.deleteGroups _, _, _, rfl, fun g hg _ => ⟨g, (mem_deleteWhere.1 hg).1, rfl, rfl⟩⟩

theorem ServiceInv.addFeedback {s : Service} (h : ServiceInv env s) (ctx : AuthContext) (answerId : Uuid)
    (rating : Rating) (note : Option String) :
    ServiceInv env (Service.step env s (.addFeedback ctx answerId rating note)) := by
  refine h.gated fun hgate => ?_
  refine h.commit 0 fun db' htx => ?_
  obtain ⟨ha, hu, rfl⟩ := addFeedbackTx_ok htx
  exact ⟨h.tenants.newFeedback ((h.issued ctx (passes_iff.1 hgate).1).2 hu) ha,
    Moves.frame (fun _ => rfl) rfl rfl rfl, rfl, rfl, rfl⟩

theorem ServiceInv.audit {s : Service} (h : ServiceInv env s) (ctx : AuthContext) (action : String)
    (detail : List (String × DetailValue)) (now : Time) :
    ServiceInv env (Service.step env s (.audit ctx action detail now)) := by
  refine h.gated fun hgate => ?_
  refine h.commit 0 fun db' htx => ?_
  obtain ⟨hu, rfl⟩ := auditTx_ok htx
  refine ⟨h.tenants.newAudit fun u he => ?_, Moves.frame (fun _ => rfl) rfl rfl rfl, rfl, rfl, rfl⟩
  obtain rfl := Option.some.inj he
  exact (h.issued ctx (passes_iff.1 hgate).1).2 hu

/-- Every step keeps the invariant. -/
theorem serviceInv_step {s : Service} (h : ServiceInv env s) (l : Label) :
    ServiceInv env (Service.step env s l) := by
  cases l with
  | signup orgSlug orgName email password salt now =>
    simp only [Service.step]
    split
    · rename_i hok
      exact h.signup hok
    · exact h
  | login email password orgSlug => exact h.login email password orgSlug
  | createSession ctx raw now => exact h.createSession ctx raw now
  | resolveSession raw now => exact h.resolveSession raw now
  | logout raw => exact h.logout raw
  | changePassword ctx current new salt keepTokenHash => exact h.changePassword ctx current new salt keepTokenHash
  | purgeExpiredSessions now => exact h.purgeExpiredSessions now
  | deleteOrg ctx => exact h.gated fun _ => h.deleteOrg ctx.orgId
  | member call => exact h.gated fun _ => h.member call
  | createGroup ctx name now => exact h.createGroup ctx name now
  | getGroup ctx groupId => exact h.getGroup ctx groupId
  | addGroupMember ctx groupId userId => exact h.addGroupMember ctx groupId userId
  | removeGroupMember ctx groupId userId => exact h.removeGroupMember ctx groupId userId
  | deleteGroup ctx groupId => exact h.deleteGroup ctx groupId
  | syncSource request ctx source items now => exact h.gated fun _ => h.ingest _
  | updateDocumentAcl ctx documentId acl now => exact h.gated fun _ => h.ingest _
  | deleteDocument ctx documentId => exact h.gated fun _ => h.ingest _
  | background l => exact h.gated fun _ => h.ingest l
  | ask stream ctx question provider refused now =>
    refine h.gated fun hgate => ?_
    split
    · rename_i hok
      exact h.ask (passes_iff.1 hgate.1).1 hok
    · exact h
  | block stream =>
    simp only [Service.step]
    split
    · rename_i ctx id hask
      exact h.closeAsk hask (f := fun a => { a with blocked := true }) (fun _ => ⟨rfl, rfl, rfl⟩) _
    · exact h
  | finalize stream usage estimated now =>
    simp only [Service.step]
    split
    · rename_i ctx id hask
      exact h.closeAsk hask (f := (·.finalize usage estimated)) (fun _ => ⟨rfl, rfl, rfl⟩) _
    · exact h
  | addFeedback ctx answerId rating note => exact h.addFeedback ctx answerId rating note
  | audit ctx action detail now => exact h.audit ctx action detail now

theorem serviceInv_init : ServiceInv env Service.init where
  pipeline := inv_of_reachable ⟨{}, 0, [], rfl, rfl, rfl, rfl⟩
  tenants := by
    refine ⟨⟨membersInv_empty 0, ?_, ?_, ?_⟩, ?_, ⟨?_, ?_, ?_⟩, ⟨?_, ?_, ?_, ?_, ?_⟩, ?_⟩ <;>
      simp [Service.init, Pipeline.atRest, Service.db, AuditInv]
  issued := by simp [Service.init]
  checked := by simp [Service.init]
  asks := by simp [Service.init]
  apart := by simp [Service.init]

/-- The invariant holds in every reachable state. -/
theorem serviceInv_of_reachable {s : Service} (h : Service.Reachable env s) : ServiceInv env s := by
  obtain ⟨ls, rfl⟩ := h
  exact Runs.run_inv (P := ServiceInv env) (fun s l hs => serviceInv_step hs l) serviceInv_init ls

/-! ## Groups -/

/-- Groups have members of their org alone: a row of `group_members` is of a group there is, and its user
is a member of the org whose group it is. So the principals of a context, its own two apart, are groups of
its org, and there are none unless its user still is a member there. -/
theorem group_principals_are_members {s : Service} (h : Service.Reachable env s) :
    (∀ m ∈ s.db.groupMembers, s.db.hasGroup m.groupId = true ∧
      ∀ g ∈ s.db.groups, g.id = m.groupId → Member s.db m.userId g.orgId) ∧
    ∀ ctx, ∀ p ∈ principalsOf ctx s.db, p = "public-to-org" ∨ p = s!"user:{ctx.userId}" ∨
      ∃ g ∈ s.db.groups, p = s!"group:{g.id}" ∧ g.orgId = ctx.orgId ∧ Member s.db ctx.userId ctx.orgId := by
  have hgroups := (serviceInv_of_reachable h).tenants.groups
  refine ⟨fun m hm => ?_, fun ctx p hp => ?_⟩
  · obtain ⟨g, hg, hid, hmember⟩ := hgroups.members m hm
    refine ⟨List.any_eq_true.2 ⟨g, hg, by simpa using hid⟩, fun g' hg' hid' => ?_⟩
    rw [Table.eq_of_key hgroups.ids hg' hg (hid'.trans hid.symm)]
    exact hmember
  · unfold principalsOf at hp
    rcases List.mem_append.1 hp with hown | hgroup
    · rcases List.mem_cons.1 hown with rfl | huser
      · exact .inl rfl
      · exact .inr (.inl (List.mem_singleton.1 huser))
    · obtain ⟨m, hm, rfl⟩ := List.mem_map.1 hgroup
      obtain ⟨hm, hmine⟩ := List.mem_filter.1 hm
      simp only [Bool.and_eq_true, beq_iff_eq, List.any_eq_true, rls] at hmine
      obtain ⟨huser, g, hg, horg, hid, -⟩ := hmine
      obtain ⟨g', hg', hid', hmember⟩ := hgroups.members m hm
      rw [Table.eq_of_key hgroups.ids hg' hg (hid'.trans hid.symm), huser, horg] at hmember
      exact .inr (.inr ⟨g, hg, by rw [hid], horg, hmember⟩)

/-- Ann puts Bob into a group. -/
def annGroupsBob : List Label :=
  let ann : AuthContext := ⟨1, 0, .owner, "ann"⟩
  [.signup "acme" "Acme" "ann" "pw" "salt" 0, .member (.addMember ann "bob" "pw" .member "salt" 0),
    .createGroup ann "ops" 0, .getGroup ann 3, .addGroupMember ann 3 2]

/-- The group is among Bob's principals, and Bob is in the org. -/
theorem group_principals_are_members_for_bob :
    let s := Runs.run (Service.step (asciiEnv id)) Service.init annGroupsBob
    principalsOf ⟨2, 0, .member, "bob"⟩ s.db = ["public-to-org", "user:2", "group:3"] ∧
      ∀ g ∈ s.db.groups, g.id = 3 → Member s.db 2 g.orgId := by
  intro s
  have hs : Service.Reachable (asciiEnv id) s := ⟨annGroupsBob, rfl⟩
  exact ⟨by decide +kernel, ((group_principals_are_members hs).1 ⟨3, 2⟩ (by decide +kernel)).2⟩

end KnowledgeDesk.Proofs
