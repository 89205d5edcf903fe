import KnowledgeDesk.Proofs.MembersProofs

/-!
# What binds the rows of an org together

`Tenants` collects the constraints between accounts, groups, answers, feedback and the audit log: every
account is a member of one org, an org has an owner, and whoever a row of an org names is a member of
it. Removing a member or an org keeps them because the user who is left without a membership goes too,
and what refers to the user with them.
-/

open Table

namespace KnowledgeDesk.Proofs

variable {env : Env}

/-- The user is a member of the org. -/
def Member (db : Db) (userId orgId : Uuid) : Prop := isMember userId orgId db = true

theorem member_iff {db : Db} {userId orgId : Uuid} :
    Member db userId orgId ↔ ∃ m ∈ db.memberships, m.userId = userId ∧ m.orgId = orgId := by
  simp [Member, isMember]

/-- The constraints on accounts. No id from `n` on is in use. -/
structure AccountsInv (n : Nat) (db : Db) : Prop extends MembersInv n db where
  single : (db.memberships.map Membership.userId).Nodup
  orgs : ∀ m ∈ db.memberships, db.hasOrg m.orgId = true
  owned : ∀ o ∈ db.orgs, HasOwner o.id db

/-- The constraints on groups, when `Q` says who may be in a group of an org. -/
structure GroupsInv (Q : Uuid → Uuid → Prop) (n : Nat) (db : Db) : Prop where
  ids : (db.groups.map Group.id).Nodup
  fresh : ∀ g ∈ db.groups, g.id < n
  members : ∀ m ∈ db.groupMembers, ∃ g ∈ db.groups, g.id = m.groupId ∧ Q m.userId g.orgId

/-- The constraints on answers and feedback, when `Q` says who may ask and rate in an org. -/
structure LedgerInv (Q : Uuid → Uuid → Prop) (n : Nat) (db : Db) : Prop where
  ids : (db.answers.map Answer.id).Nodup
  fresh : ∀ a ∈ db.answers, a.id < n
  askers : ∀ a ∈ db.answers, Q a.userId a.orgId
  raters : ∀ f ∈ db.feedback, Q f.userId f.orgId
  rated : ∀ f ∈ db.feedback, ∃ a ∈ db.answers, a.id = f.answerId ∧ a.orgId = f.orgId

/-- The constraint on the audit log, when `Q` says who may act in an org. -/
def AuditInv (Q : Uuid → Uuid → Prop) (db : Db) : Prop :=
  ∀ r ∈ db.auditLog, ∀ u, r.actorUserId = some u → Q u r.orgId

/-- The constraints between the tables. -/
structure Tenants (n : Nat) (db : Db) : Prop where
  accounts : AccountsInv n db
  documents : ∀ doc ∈ db.documents, db.hasOrg doc.orgId = true
  groups : GroupsInv (Member db) n db
  ledger : LedgerInv (Member db) n db
  audit : AuditInv (Member db) db

section Frames

variable {Q Q' : Uuid → Uuid → Prop} {n k : Nat} {db db' : Db}

/-! ## What does not touch a table keeps its constraints -/

theorem AccountsInv.frame (h : AccountsInv n db) (hk : n ≤ k) (ho : db'.orgs = db.orgs)
    (hu : ∀ id, db'.hasUser id = db.hasUser id) (hm : db'.memberships = db.memberships) :
    AccountsInv k db' := by
  refine ⟨⟨hm ▸ h.keys, ?_, ?_⟩, hm ▸ h.single, ?_, ?_⟩
  · rw [hm]
    exact fun m hmm => (hu m.userId).trans (h.user m hmm)
  · rw [hm]
    exact fun m hmm => Nat.lt_of_lt_of_le (h.fresh m hmm) hk
  · simp only [Db.hasOrg, ho, hm]
    exact h.orgs
  · simp only [HasOwner, ho, hm]
    exact h.owned

theorem GroupsInv.frame (h : GroupsInv Q n db) (hk : n ≤ k) (hQ : ∀ u o, Q u o → Q' u o)
    (hg : db'.groups = db.groups) (hm : db'.groupMembers = db.groupMembers) : GroupsInv Q' k db' := by
  refine ⟨hg ▸ h.ids, fun g hgm => Nat.lt_of_lt_of_le (h.fresh g (hg ▸ hgm)) hk, ?_⟩
  rw [hg, hm]
  intro m hmm
  obtain ⟨g, hgm, he, hq⟩ := h.members m hmm
  exact ⟨g, hgm, he, hQ _ _ hq⟩

theorem LedgerInv.frame (h : LedgerInv Q n db) (hk : n ≤ k) (hQ : ∀ u o, Q u o → Q' u o)
    (ha : db'.answers = db.answers) (hf : db'.feedback = db.feedback) : LedgerInv Q' k db' := by
  refine ⟨ha ▸ h.ids, fun a ham => Nat.lt_of_lt_of_le (h.fresh a (ha ▸ ham)) hk,
    fun a ham => hQ _ _ (h.askers a (ha ▸ ham)), fun f hfm => hQ _ _ (h.raters f (hf ▸ hfm)), ?_⟩
  rw [ha, hf]
  exact h.rated

theorem AuditInv.frame (h : AuditInv Q db) (hQ : ∀ u o, Q u o → Q' u o)
    (ha : db'.auditLog = db.auditLog) : AuditInv Q' db' :=
  fun r hr u hu => hQ _ _ (h r (ha ▸ hr) u hu)

theorem member_frame (hm : db'.memberships = db.memberships) (u o : Uuid) (h : Member db u o) :
    Member db' u o := by
  simpa only [Member, isMember, hm] using h

/-- A transaction that leaves accounts, groups, answers, feedback and the audit log as they are. -/
theorem Tenants.frame (h : Tenants n db) (hk : n ≤ k) (ho : db'.orgs = db.orgs)
    (hu : ∀ id, db'.hasUser id = db.hasUser id) (hm : db'.memberships = db.memberships)
    (hd : ∀ doc ∈ db'.documents, db.hasOrg doc.orgId = true) (hg : db'.groups = db.groups)
    (hgm : db'.groupMembers = db.groupMembers) (ha : db'.answers = db.answers)
    (hf : db'.feedback = db.feedback) (hl : db'.auditLog = db.auditLog) : Tenants k db' where
  accounts := h.accounts.frame hk ho hu hm
  documents := by
    simp only [Db.hasOrg, ho]
    exact hd
  groups := h.groups.frame hk (member_frame hm) hg hgm
  ledger := h.ledger.frame hk (member_frame hm) ha hf
  audit := h.audit.frame (member_frame hm) hl

end Frames

/-! ## Purging stranded users -/

/-- The user is one of those a purge deletes. -/
def Stranded (userIds : List Uuid) (db : Db) (id : Uuid) : Prop :=
  id ∈ userIds ∧ db.hasUser id = true ∧ ∀ m ∈ db.memberships, m.userId ≠ id

section Purge

variable {userIds : List Uuid} {db : Db}

theorem gone_iff {id : Uuid} :
    (db.users.any fun u => isStranded userIds db u && u.id == id) = true ↔ Stranded userIds db id := by
  simp only [isStranded, List.any_eq_true, Bool.and_eq_true, beq_iff_eq, Bool.not_eq_true',
    List.contains_iff_mem, List.any_eq_false, Stranded, Db.hasUser]
  constructor
  · rintro ⟨u, hu, ⟨hin, hno⟩, rfl⟩
    exact ⟨hin, ⟨u, hu, rfl⟩, hno⟩
  · rintro ⟨hin, ⟨u, hu, rfl⟩, hno⟩
    exact ⟨u, hu, ⟨hin, hno⟩, rfl⟩

theorem gone_eq_false {id : Uuid} :
    (db.users.any fun u => isStranded userIds db u && u.id == id) = false ↔ ¬ Stranded userIds db id := by
  rw [← gone_iff, Bool.not_eq_true]

/-- A purge deletes no membership. -/
@[simp] theorem purge_memberships : (purgeStrandedUsers userIds db).memberships = db.memberships := by
  refine deleteWhere_of_forall_not fun m hm => gone_eq_false.2 fun hs => ?_
  exact hs.2.2 m hm rfl

theorem purge_hasUser {id : Uuid} :
    (purgeStrandedUsers userIds db).hasUser id = true ↔
      db.hasUser id = true ∧ ¬ Stranded userIds db id := by
  simp only [← gone_eq_false, purgeStrandedUsers, Db.deleteUsers, Db.hasUser, List.any_eq_true,
    List.any_eq_false, mem_deleteWhere, beq_iff_eq, Bool.and_eq_true, not_and]
  constructor
  · rintro ⟨u, ⟨hu, hs⟩, rfl⟩
    refine ⟨⟨u, hu, rfl⟩, fun v hv hvs he => ?_⟩
    simp only [isStranded, he] at hvs hs
    rw [hvs] at hs
    cases hs
  · rintro ⟨⟨u, hu, rfl⟩, hno⟩
    exact ⟨u, ⟨hu, by simpa using fun hs => hno u hu hs rfl⟩, rfl⟩

variable {Q : Uuid → Uuid → Prop} {n : Nat}

theorem mem_purge_answers {a : Answer} : a ∈ (purgeStrandedUsers userIds db).answers ↔
    a ∈ db.answers ∧ ¬ Stranded userIds db a.userId := by
  simp only [← gone_eq_false, purgeStrandedUsers, Db.deleteUsers, Db.deleteAnswers, mem_deleteWhere]

theorem mem_purge_feedback {f : Feedback} : f ∈ (purgeStrandedUsers userIds db).feedback ↔
    f ∈ db.feedback ∧ (∀ a ∈ db.answers, a.id = f.answerId → ¬ Stranded userIds db a.userId) ∧
      ¬ Stranded userIds db f.userId := by
  simp only [← gone_eq_false, purgeStrandedUsers, Db.deleteUsers, Db.deleteAnswers, mem_deleteWhere,
    and_assoc]
  refine and_congr_right fun _ => and_congr_left fun _ => ?_
  rw [List.any_eq_false]
  refine forall₂_congr fun a _ => ?_
  simp only [Bool.and_eq_true, beq_iff_eq, not_and]
  exact ⟨fun h he => Bool.eq_false_iff.2 fun hg => h hg he, fun h hg he => by simp [h he] at hg⟩

theorem mem_purge_groupMembers {m : GroupMember} : m ∈ (purgeStrandedUsers userIds db).groupMembers ↔
    m ∈ db.groupMembers ∧ ¬ Stranded userIds db m.userId := by
  simp only [← gone_eq_false, purgeStrandedUsers, Db.deleteUsers, Db.deleteAnswers, mem_deleteWhere]

/-- Whom the rows left by a purge name is not stranded. -/
theorem GroupsInv.purge (h : GroupsInv Q n db) :
    GroupsInv (fun u o => Q u o ∧ ¬ Stranded userIds db u) n (purgeStrandedUsers userIds db) := by
  refine ⟨h.ids, h.fresh, fun m hm => ?_⟩
  obtain ⟨hm, hs⟩ := mem_purge_groupMembers.1 hm
  obtain ⟨g, hg, he, hq⟩ := h.members m hm
  exact ⟨g, hg, he, hq, hs⟩

theorem LedgerInv.purge (h : LedgerInv Q n db) :
    LedgerInv (fun u o => Q u o ∧ ¬ Stranded userIds db u) n (purgeStrandedUsers userIds db) := by
  have hsub : (purgeStrandedUsers userIds db).answers.Sublist db.answers := sublist_deleteWhere
  refine ⟨h.ids.sublist (hsub.map _), fun a ha => h.fresh a (hsub.subset ha), fun a ha => ?_,
    fun f hf => ?_, fun f hf => ?_⟩
  · obtain ⟨ha, hs⟩ := mem_purge_answers.1 ha
    exact ⟨h.askers a ha, hs⟩
  · obtain ⟨hf, -, hs⟩ := mem_purge_feedback.1 hf
    exact ⟨h.raters f hf, hs⟩
  · obtain ⟨hf, hno, -⟩ := mem_purge_feedback.1 hf
    obtain ⟨a, ha, he, ho⟩ := h.rated f hf
    exact ⟨a, mem_purge_answers.2 ⟨ha, hno a ha he⟩, he, ho⟩

theorem AuditInv.purge (h : AuditInv Q db) :
    AuditInv (fun u o => Q u o ∧ ¬ Stranded userIds db u) (purgeStrandedUsers userIds db) := by
  intro r hr u hu
  obtain ⟨r₀, hr₀, rfl⟩ := mem_updateWhere.1 hr
  split at hu
  · cases hu
  · rename_i hno
    have hact : r₀.actorUserId = some u := hu
    rw [hact, Option.any_some, Bool.not_eq_true, gone_eq_false] at hno
    split
    · exact ⟨h r₀ hr₀ u hact, hno⟩
    · exact ⟨h r₀ hr₀ u hact, hno⟩

end Purge

/-! ## Deleting memberships, and then the users left without one -/

/-- `db₁` is `db` without some memberships, each of a user in `userIds`. -/
structure Dropped (userIds : List Uuid) (db db₁ : Db) : Prop where
  users : db₁.users = db.users
  sub : db₁.memberships.Sublist db.memberships
  gone : ∀ m ∈ db.memberships, m ∉ db₁.memberships → m.userId ∈ userIds

/-- Since every user has one membership, losing it is being stranded. -/
theorem Dropped.stays {n : Nat} {userIds : List Uuid} {db db₁ : Db} (hd : Dropped userIds db db₁)
    (h : AccountsInv n db) {u o : Uuid} (hm : Member db u o) (hs : ¬ Stranded userIds db₁ u) :
    Member (purgeStrandedUsers userIds db₁) u o := by
  obtain ⟨m, hmem, rfl, rfl⟩ := member_iff.1 hm
  rw [member_iff, purge_memberships]
  by_cases hm₁ : m ∈ db₁.memberships
  · exact ⟨m, hm₁, rfl, rfl⟩
  · refine absurd ⟨hd.gone m hmem hm₁, ?_, fun m' hm' he => hm₁ ?_⟩ hs
    · simpa only [Db.hasUser, hd.users] using h.user m hmem
    · rwa [← Table.eq_of_key h.single (hd.sub.subset hm') hmem he]

theorem Dropped.hasUser {userIds : List Uuid} {db db₁ : Db} (hd : Dropped userIds db db₁) {u : Uuid}
    (hu : (purgeStrandedUsers userIds db₁).hasUser u = true) :
    db.hasUser u = true ∧ ¬ Stranded userIds db₁ u := by
  have h := purge_hasUser.1 hu
  exact ⟨by simpa only [Db.hasUser, hd.users] using h.1, h.2⟩

/-- The accounts left, when the orgs left have owners. -/
theorem Dropped.accounts {n : Nat} {userIds : List Uuid} {db db₁ : Db} (hd : Dropped userIds db db₁)
    (h : AccountsInv n db) (horgs : ∀ m ∈ db₁.memberships, db₁.hasOrg m.orgId = true)
    (howned : ∀ o ∈ db₁.orgs, HasOwner o.id db₁) : AccountsInv n (purgeStrandedUsers userIds db₁) := by
  refine ⟨⟨?_, ?_, ?_⟩, ?_, ?_, ?_⟩
  · rw [purge_memberships]
    exact h.keys.sublist (hd.sub.map _)
  · rw [purge_memberships]
    intro m hm
    refine purge_hasUser.2 ⟨?_, fun hs => hs.2.2 m hm rfl⟩
    simpa only [Db.hasUser, hd.users] using h.user m (hd.sub.subset hm)
  · rw [purge_memberships]
    exact fun m hm => h.fresh m (hd.sub.subset hm)
  · rw [purge_memberships]
    exact h.single.sublist (hd.sub.map _)
  · rw [purge_memberships]
    exact horgs
  · intro o ho
    simpa only [HasOwner, purge_memberships] using howned o ho

theorem dropped_deleteMembership (userId orgId : Uuid) (db : Db) :
    Dropped [userId] db (deleteMembership userId orgId db) := by
  refine ⟨rfl, sublist_deleteWhere, fun m hm hno => ?_⟩
  by_contra hne
  exact hno (mem_deleteMembership.2 ⟨hm, fun h => hne (List.mem_singleton.2 h.1)⟩)

/-- `remove_member` keeps the constraints. -/
theorem Tenants.removeMember {n : Nat} {db db' : Db} {u : Unit} {ctx : AuthContext} {userId : Uuid}
    (h : Tenants n db) (htx : removeMemberTx ctx userId db = .ok (u, db')) : Tenants n db' := by
  obtain ⟨target, htarget, hguard, rfl⟩ := removeMemberTx_ok htx
  have hd := dropped_deleteMembership userId ctx.orgId db
  have hstays := fun u o (hq : Member db u o ∧ ¬ Stranded [userId] (deleteMembership userId ctx.orgId db) u) =>
    hd.stays h.accounts hq.1 hq.2
  refine ⟨hd.accounts h.accounts ?_ ?_, h.documents, ?_, ?_, ?_⟩
  · exact fun m hm => h.accounts.orgs m (hd.sub.subset hm)
  · intro o ho
    by_cases horg : o.id = ctx.orgId
    · have hlast : ¬ (memberRole? userId ctx.orgId db = some .owner ∧ ownerCount ctx.orgId db = 1) :=
        fun hl => hguard ⟨Option.some.inj (htarget.symm.trans hl.1), hl.2⟩
      obtain ⟨m, hm, hmo, hmr, hmu⟩ :=
        (other_owner_iff h.accounts.toMembersInv (horg ▸ h.accounts.owned o ho)).2 hlast
      exact ⟨m, mem_deleteMembership.2 ⟨hm, fun hc => hmu hc.1⟩, hmo.trans horg.symm, hmr⟩
    · obtain ⟨m, hm, hmo, hmr⟩ := h.accounts.owned o ho
      exact ⟨m, mem_deleteMembership.2 ⟨hm, fun hc => horg (hmo.symm.trans hc.2)⟩, hmo, hmr⟩
  · have hg : GroupsInv (Member db) n (deleteMembership userId ctx.orgId db) :=
      h.groups.frame (le_refl n) (fun _ _ hq => hq) rfl rfl
    exact hg.purge.frame (le_refl n) hstays rfl rfl
  · have hl : LedgerInv (Member db) n (deleteMembership userId ctx.orgId db) :=
      h.ledger.frame (le_refl n) (fun _ _ hq => hq) rfl rfl
    exact hl.purge.frame (le_refl n) hstays rfl rfl
  · have ha : AuditInv (Member db) (deleteMembership userId ctx.orgId db) := h.audit
    exact ha.purge.frame hstays rfl

/-- The users `delete_org` purges if they are stranded. -/
def membersOf (orgId : Uuid) (db : Db) : List Uuid :=
  (db.memberships.filter fun m => m.orgId == orgId).map (·.userId)

theorem deleteOrg_ok {orgId : Uuid} {db db' : Db} {u : Unit} (h : deleteOrg orgId db = .ok (u, db')) :
    db' = purgeStrandedUsers (membersOf orgId db) (db.deleteOrg orgId) :=
  (Prod.mk.inj (Except.ok.inj h)).2.symm

theorem dropped_deleteOrg (orgId : Uuid) (db : Db) :
    Dropped (membersOf orgId db) db (db.deleteOrg orgId) := by
  refine ⟨rfl, sublist_deleteWhere, fun m hm hno => ?_⟩
  refine List.mem_map.2 ⟨m, List.mem_filter.2 ⟨hm, ?_⟩, rfl⟩
  by_contra hne
  exact hno (mem_deleteWhere.2 ⟨hm, Bool.eq_false_iff.2 hne⟩)

/-! The rows a deleted org leaves are of other orgs. -/

section DeleteOrg

variable {Q : Uuid → Uuid → Prop} {n : Nat} {db : Db}

theorem GroupsInv.deleteOrg (h : GroupsInv Q n db) (orgId : Uuid) :
    GroupsInv (fun u o => Q u o ∧ o ≠ orgId) n (db.deleteOrg orgId) := by
  have hsub : (db.deleteOrg orgId).groups.Sublist db.groups := sublist_deleteWhere
  refine ⟨h.ids.sublist (hsub.map _), fun g hg => h.fresh g (hsub.subset hg), fun m hm => ?_⟩
  obtain ⟨hm, hno⟩ := mem_deleteWhere.1 hm
  obtain ⟨g, hg, he, hq⟩ := h.members m hm
  have horg : g.orgId ≠ orgId := by
    intro ho
    simpa [ho, he] using List.any_eq_false.1 hno g hg
  exact ⟨g, mem_deleteWhere.2 ⟨hg, by simpa using horg⟩, he, hq, horg⟩

theorem LedgerInv.deleteOrg (h : LedgerInv Q n db) (orgId : Uuid) :
    LedgerInv (fun u o => Q u o ∧ o ≠ orgId) n (db.deleteOrg orgId) := by
  have hsub : (db.deleteOrg orgId).answers.Sublist db.answers := sublist_deleteWhere
  have hfb : ∀ f ∈ (db.deleteOrg orgId).feedback, f ∈ db.feedback ∧ f.orgId ≠ orgId := by
    intro f hf
    obtain ⟨hf, ho⟩ := mem_deleteWhere.1 hf
    exact ⟨(mem_deleteWhere.1 hf).1, by simpa using ho⟩
  refine ⟨h.ids.sublist (hsub.map _), fun a ha => h.fresh a (hsub.subset ha), fun a ha => ?_,
    fun f hf => ?_, fun f hf => ?_⟩
  · obtain ⟨ha, ho⟩ := mem_deleteWhere.1 ha
    exact ⟨h.askers a ha, by simpa using ho⟩
  · obtain ⟨hf, ho⟩ := hfb f hf
    exact ⟨h.raters f hf, ho⟩
  · obtain ⟨hf, ho⟩ := hfb f hf
    obtain ⟨a, ha, he, hao⟩ := h.rated f hf
    exact ⟨a, mem_deleteWhere.2 ⟨ha, by simpa [hao] using ho⟩, he, hao⟩

theorem AuditInv.deleteOrg (h : AuditInv Q db) (orgId : Uuid) :
    AuditInv (fun u o => Q u o ∧ o ≠ orgId) (db.deleteOrg orgId) := by
  intro r hr u hu
  obtain ⟨hr, ho⟩ := mem_deleteWhere.1 hr
  exact ⟨h r hr u hu, by simpa using ho⟩

end DeleteOrg

/-- `delete_org` keeps the constraints. -/
theorem Tenants.deleteOrg {n : Nat} {orgId : Uuid} {db db' : Db} {u : Unit} (h : Tenants n db)
    (htx : KnowledgeDesk.deleteOrg orgId db = .ok (u, db')) : Tenants n db' := by
  obtain rfl := deleteOrg_ok htx
  have hd := dropped_deleteOrg orgId db
  have horg : ∀ id, id ≠ orgId → db.hasOrg id = true → (db.deleteOrg orgId).hasOrg id = true := by
    intro id hne hid
    obtain ⟨o, ho, he⟩ := List.any_eq_true.1 hid
    have he' : o.id = id := by simpa using he
    exact List.any_eq_true.2 ⟨o, mem_deleteWhere.2 ⟨ho, by simpa [he'] using hne⟩, he⟩
  have hstays := fun u o (hq : (Member db u o ∧ o ≠ orgId) ∧
      ¬ Stranded (membersOf orgId db) (db.deleteOrg orgId) u) => hd.stays h.accounts hq.1.1 hq.2
  refine ⟨hd.accounts h.accounts ?_ ?_, ?_, ?_, ?_, ?_⟩
  · intro m hm
    obtain ⟨hm, ho⟩ := mem_deleteWhere.1 hm
    exact horg m.orgId (by simpa using ho) (h.accounts.orgs m hm)
  · intro o ho
    obtain ⟨ho, hne⟩ := mem_deleteWhere.1 ho
    obtain ⟨m, hm, hmo, hmr⟩ := h.accounts.owned o ho
    exact ⟨m, mem_deleteWhere.2 ⟨hm, by simpa [hmo] using hne⟩, hmo, hmr⟩
  · intro doc hdoc
    obtain ⟨hdoc, hne⟩ := mem_deleteWhere.1 hdoc
    exact horg doc.orgId (by simpa using hne) (h.documents doc hdoc)
  · exact (h.groups.deleteOrg orgId).purge.frame (le_refl n) hstays rfl rfl
  · exact (h.ledger.deleteOrg orgId).purge.frame (le_refl n) hstays rfl rfl
  · exact (AuditInv.purge (h.audit.deleteOrg orgId)).frame hstays rfl

/-! ## New members and roles -/

/-- A new account in an org there is, or in one that comes with it as its owner. -/
theorem Tenants.newMember {n k : Nat} {db : Db} (h : Tenants n db) (user : User) (orgId : Uuid)
    (role : Role) (now : Time) (hnew : n ≤ user.id) (hk : user.id < k) (l : List Org)
    (hl : ∀ o ∈ l, o.id = orgId ∧ role = .owner) (horg : (db.orgs ++ l).any (fun o => o.id == orgId) = true) :
    Tenants k { db with
      orgs := db.orgs ++ l
      users := db.users ++ [user]
      memberships := db.memberships ++ [⟨user.id, orgId, role, now⟩] } := by
  have hle : n ≤ k := by lia
  have hunused : ∀ m ∈ db.memberships, m.userId ≠ user.id := fun m hm he => by
    have := h.accounts.fresh m hm
    lia
  have hhas : ∀ id, db.hasOrg id = true → (db.orgs ++ l).any (fun o => o.id == id) = true := by
    intro id hid
    rw [List.any_append, Bool.or_eq_true]
    exact .inl hid
  set db' : Db := { db with
    orgs := db.orgs ++ l
    users := db.users ++ [user]
    memberships := db.memberships ++ [⟨user.id, orgId, role, now⟩] } with hdb'
  have hmem : ∀ m ∈ db.memberships, m ∈ db'.memberships := fun m hm => List.mem_append_left _ hm
  have hstays : ∀ u o, Member db u o → Member db' u o := by
    intro u o hm
    obtain ⟨m, hm, he⟩ := member_iff.1 hm
    exact member_iff.2 ⟨m, hmem m hm, he⟩
  have hkey : ∀ {κ : Type} (f : Membership → κ), (∀ m ∈ db.memberships, f m ≠ f ⟨user.id, orgId, role, now⟩) →
      (db.memberships.map f).Nodup → (db'.memberships.map f).Nodup := by
    intro κ f hf hnd
    rw [hdb', List.map_append, List.nodup_append]
    refine ⟨hnd, List.nodup_singleton _, ?_⟩
    rintro _ ha _ hb rfl
    obtain ⟨m, hm, he⟩ := List.mem_map.1 ha
    exact hf m hm (he.trans (List.mem_singleton.1 hb))
  refine ⟨⟨⟨?_, fun m hm => ?_, fun m hm => ?_⟩, ?_, fun m hm => ?_, fun o ho => ?_⟩,
    fun doc hdoc => hhas _ (h.documents doc hdoc), h.groups.frame hle hstays rfl rfl,
    h.ledger.frame hle hstays rfl rfl, AuditInv.frame h.audit hstays rfl⟩
  · exact hkey _ (fun m hm he => hunused m hm (congrArg (·.1) he)) h.accounts.keys
  · rw [Db.hasUser, hdb', List.any_append, Bool.or_eq_true]
    rcases List.mem_append.1 hm with hm | hm
    · exact .inl (h.accounts.user m hm)
    · rw [List.mem_singleton.1 hm]
      exact .inr (by simp)
  · rcases List.mem_append.1 hm with hm | hm
    · exact Nat.lt_of_lt_of_le (h.accounts.fresh m hm) hle
    · rw [List.mem_singleton.1 hm]
      exact hk
  · exact hkey _ hunused h.accounts.single
  · rcases List.mem_append.1 hm with hm | hm
    · exact hhas _ (h.accounts.orgs m hm)
    · rw [List.mem_singleton.1 hm]
      exact horg
  · rcases List.mem_append.1 ho with ho | ho
    · obtain ⟨m, hm, he⟩ := h.accounts.owned o ho
      exact ⟨m, hmem m hm, he⟩
    · obtain ⟨he, hr⟩ := hl o ho
      exact ⟨_, List.mem_append_right _ (List.mem_singleton.2 rfl), he.symm, hr⟩

/-- `set_member_role` keeps the constraints. -/
theorem Tenants.setMemberRole {n : Nat} {db db' : Db} {u : Unit} {ctx : AuthContext} {userId : Uuid}
    {role : Role} (h : Tenants n db) (htx : setMemberRoleTx ctx userId role db = .ok (u, db')) :
    Tenants n db' := by
  obtain ⟨target, htarget, hguard, rfl⟩ := setMemberRoleTx_ok htx
  have hmap : ∀ {κ : Type} (f : Membership → κ), (∀ m, f { m with role } = f m) →
      (updateRole userId ctx.orgId role db).memberships.map f = db.memberships.map f :=
    fun f hf => map_updateWhere f hf
  have hold : ∀ m ∈ (updateRole userId ctx.orgId role db).memberships,
      ∃ m₀ ∈ db.memberships, m₀.userId = m.userId ∧ m₀.orgId = m.orgId := by
    intro m hm
    obtain ⟨m₀, hm₀, rfl⟩ := mem_updateWhere.1 hm
    refine ⟨m₀, hm₀, ?_⟩
    split <;> exact ⟨rfl, rfl⟩
  have hstays : ∀ u o, Member db u o → Member (updateRole userId ctx.orgId role db) u o := by
    intro u o hm
    obtain ⟨m, hmem, rfl, rfl⟩ := member_iff.1 hm
    refine member_iff.2 ⟨_, mem_updateWhere.2 ⟨m, hmem, rfl⟩, ?_⟩
    split <;> exact ⟨rfl, rfl⟩
  refine ⟨⟨⟨?_, fun m hm => ?_, fun m hm => ?_⟩, ?_, fun m hm => ?_, fun o ho => ?_⟩, h.documents,
    h.groups.frame (le_refl n) hstays rfl rfl, h.ledger.frame (le_refl n) hstays rfl rfl,
    AuditInv.frame h.audit hstays rfl⟩
  · rw [hmap _ fun _ => rfl]
    exact h.accounts.keys
  · obtain ⟨m₀, hm₀, hu, -⟩ := hold m hm
    rw [← hu]
    exact h.accounts.user m₀ hm₀
  · obtain ⟨m₀, hm₀, hu, -⟩ := hold m hm
    rw [← hu]
    exact h.accounts.fresh m₀ hm₀
  · rw [hmap _ fun _ => rfl]
    exact h.accounts.single
  · obtain ⟨m₀, hm₀, -, ho⟩ := hold m hm
    rw [← ho]
    exact h.accounts.orgs m₀ hm₀
  · have hown := h.accounts.owned o ho
    by_cases horg : o.id = ctx.orgId
    · rw [horg] at hown ⊢
      by_cases hr : role = .owner
      · subst hr
        exact hasOwner_promoted hown
      · have hlast : ¬ (memberRole? userId ctx.orgId db = some .owner ∧ ownerCount ctx.orgId db = 1) :=
          fun hl => hguard ⟨Option.some.inj (htarget.symm.trans hl.1), hr, hl.2⟩
        exact (hasOwner_demoted hr).2 ((other_owner_iff h.accounts.toMembersInv hown).2 hlast)
    · obtain ⟨m, hm, hmo, hmr⟩ := hown
      exact ⟨m, mem_updateWhere.2 ⟨m, hm, by simp [hmo, horg]⟩, hmo, hmr⟩

/-! ## Groups -/

theorem createGroupTx_ok {ctx : AuthContext} {name : String} {fresh : Uuid} {now : Time} {g : Group}
    {db db' : Db} (h : createGroupTx ctx name fresh now db = .ok (g, db')) :
    g = ⟨fresh, ctx.orgId, name, now⟩ ∧ db' = { db with groups := db.groups ++ [g] } := by
  simp only [createGroupTx, Db.references] at h
  split at h
  · cases h
  · split at h
    · simp only [bind, Except.bind, Except.ok.injEq, Prod.mk.injEq] at h
      obtain ⟨rfl, rfl⟩ := h
      exact ⟨rfl, rfl⟩
    · cases h

/-- `create_group` keeps the constraints. -/
theorem Tenants.createGroup {n : Nat} {db db' : Db} {ctx : AuthContext} {name : String} {now : Time}
    {g : Group} (h : Tenants n db) (htx : createGroupTx ctx name n now db = .ok (g, db')) :
    Tenants (n + 1) db' := by
  obtain ⟨rfl, rfl⟩ := createGroupTx_ok htx
  have hle : n ≤ n + 1 := Nat.le_succ n
  refine ⟨h.accounts.frame hle rfl (fun _ => rfl) rfl, h.documents, ⟨?_, fun g hg => ?_, fun m hm => ?_⟩,
    h.ledger.frame hle (member_frame rfl) rfl rfl, h.audit⟩
  · rw [List.map_append, List.nodup_append]
    refine ⟨h.groups.ids, List.nodup_singleton _, ?_⟩
    rintro _ ha _ hb rfl
    obtain ⟨g, hg, he⟩ := List.mem_map.1 ha
    exact Nat.ne_of_lt (h.groups.fresh g hg) (he.trans (List.mem_singleton.1 hb))
  · rcases List.mem_append.1 hg with hg | hg
    · exact Nat.lt_succ_of_lt (h.groups.fresh g hg)
    · rw [List.mem_singleton.1 hg]
      exact Nat.lt_succ_self n
  · obtain ⟨g, hg, he⟩ := h.groups.members m hm
    exact ⟨g, List.mem_append_left _ hg, he⟩

theorem addGroupMemberTx_ok {ctx : AuthContext} {groupId userId : Uuid} {u : Unit} {db db' : Db}
    (h : addGroupMemberTx ctx groupId userId db = .ok (u, db')) :
    Member db userId ctx.orgId ∧ (db' = db ∨ (db.hasGroup groupId = true ∧
      db' = { db with groupMembers := db.groupMembers ++ [⟨groupId, userId⟩] })) := by
  simp only [addGroupMemberTx, Db.references] at h
  split at h
  · rename_i hm
    refine ⟨hm, ?_⟩
    split at h
    · exact .inl (Prod.mk.inj (Except.ok.inj h)).2.symm
    · split at h
      · rename_i href
        simp only [Bool.and_eq_true] at href
        exact .inr ⟨href.1, (Prod.mk.inj (Except.ok.inj h)).2.symm⟩
      · cases h
  · cases h

/-- `add_group_member` keeps the constraints, its check having found the group in the caller's org. -/
theorem Tenants.addGroupMember {n : Nat} {db db' : Db} {ctx : AuthContext} {groupId userId : Uuid}
    {u : Unit} (h : Tenants n db) (hcheck : ∀ g ∈ db.groups, g.id = groupId → g.orgId = ctx.orgId)
    (htx : addGroupMemberTx ctx groupId userId db = .ok (u, db')) : Tenants n db' := by
  obtain ⟨hm, rfl | ⟨hg, rfl⟩⟩ := addGroupMemberTx_ok htx
  · exact h
  · refine ⟨h.accounts.frame (le_refl n) rfl (fun _ => rfl) rfl, h.documents,
      ⟨h.groups.ids, h.groups.fresh, fun m hmm => ?_⟩,
      h.ledger.frame (le_refl n) (member_frame rfl) rfl rfl, h.audit⟩
    rcases List.mem_append.1 hmm with hmm | hmm
    · exact h.groups.members m hmm
    · rw [List.mem_singleton.1 hmm]
      obtain ⟨g, hgm, he⟩ := List.any_eq_true.1 hg
      have he' : g.id = groupId := by simpa using he
      exact ⟨g, hgm, he', by rw [hcheck g hgm he']; exact hm⟩

/-- Removing rows of `group_members` keeps the constraints. -/
theorem Tenants.deleteGroupMembers {n : Nat} {db : Db} (h : Tenants n db) (p : GroupMember → Bool) :
    Tenants n { db with groupMembers := deleteWhere p db.groupMembers } :=
  ⟨h.accounts.frame (le_refl n) rfl (fun _ => rfl) rfl, h.documents,
    ⟨h.groups.ids, h.groups.fresh, fun m hm => h.groups.members m (mem_deleteWhere.1 hm).1⟩,
    h.ledger.frame (le_refl n) (member_frame rfl) rfl rfl, h.audit⟩

/-- Removing groups, and with them their members, keeps the constraints. -/
theorem Tenants.deleteGroups {n : Nat} {db : Db} (h : Tenants n db) (p : Group → Bool) :
    Tenants n (db.deleteGroups p) := by
  have hsub : (db.deleteGroups p).groups.Sublist db.groups := sublist_deleteWhere
  refine ⟨h.accounts.frame (le_refl n) rfl (fun _ => rfl) rfl, h.documents,
    ⟨h.groups.ids.sublist (hsub.map _), fun g hg => h.groups.fresh g (hsub.subset hg), fun m hm => ?_⟩,
    h.ledger.frame (le_refl n) (member_frame rfl) rfl rfl, h.audit⟩
  obtain ⟨hm, hno⟩ := mem_deleteWhere.1 hm
  obtain ⟨g, hg, he, hq⟩ := h.groups.members m hm
  refine ⟨g, mem_deleteWhere.2 ⟨hg, ?_⟩, he, hq⟩
  simpa [he] using List.any_eq_false.1 hno g hg

theorem deleteGroupTx_ok {ctx : AuthContext} {groupId : Uuid} {u : Unit} {db db' : Db}
    (h : deleteGroupTx ctx groupId db = .ok (u, db')) :
    db' = db.deleteGroups (rls ctx.orgId Group.orgId fun g => g.id == groupId && g.orgId == ctx.orgId) := by
  simp only [deleteGroupTx] at h
  split at h
  · cases h
  · exact (Prod.mk.inj (Except.ok.inj h)).2.symm

/-! ## Answers, feedback and the audit log -/

theorem recordAnswerTx_ok {ctx : AuthContext} {question provider : String} {refused : Bool}
    {fresh id : Uuid} {now : Time} {db db' : Db}
    (h : recordAnswerTx ctx question provider refused fresh now db = .ok (id, db')) :
    id = fresh ∧ db.hasUser ctx.userId = true ∧ ∃ a : Answer, a.id = fresh ∧ a.orgId = ctx.orgId ∧
      a.userId = ctx.userId ∧ a.costUsd = 0 ∧ a.createdAt = now ∧ a.blocked = false ∧
      db' = { db with answers := db.answers ++ [a] } := by
  simp only [recordAnswerTx, Db.references] at h
  split at h
  · rename_i href
    simp only [Bool.and_eq_true] at href
    simp only [bind, Except.bind, Except.ok.injEq, Prod.mk.injEq] at h
    obtain ⟨rfl, rfl⟩ := h
    exact ⟨rfl, href.2, _, rfl, rfl, rfl, rfl, rfl, rfl, rfl⟩
  · cases h

/-- A new answer of a member keeps the constraints. -/
theorem Tenants.newAnswer {n : Nat} {db : Db} (h : Tenants n db) {a : Answer} (hid : a.id = n)
    (hm : Member db a.userId a.orgId) : Tenants (n + 1) { db with answers := db.answers ++ [a] } := by
  have hle : n ≤ n + 1 := Nat.le_succ n
  refine ⟨h.accounts.frame hle rfl (fun _ => rfl) rfl, h.documents,
    h.groups.frame hle (member_frame rfl) rfl rfl,
    ⟨?_, fun b hb => ?_, fun b hb => ?_, h.ledger.raters, fun f hf => ?_⟩, h.audit⟩
  · rw [List.map_append, List.nodup_append]
    refine ⟨h.ledger.ids, List.nodup_singleton _, ?_⟩
    rintro _ ha _ hb rfl
    obtain ⟨b, hb', he⟩ := List.mem_map.1 ha
    have := h.ledger.fresh b hb'
    have := he.trans (List.mem_singleton.1 hb)
    lia
  · rcases List.mem_append.1 hb with hb | hb
    · exact Nat.lt_succ_of_lt (h.ledger.fresh b hb)
    · rw [List.mem_singleton.1 hb, hid]
      exact Nat.lt_succ_self n
  · rcases List.mem_append.1 hb with hb | hb
    · exact h.ledger.askers b hb
    · rw [List.mem_singleton.1 hb]
      exact hm
  · obtain ⟨b, hb, he⟩ := h.ledger.rated f hf
    exact ⟨b, List.mem_append_left _ hb, he⟩

/-- Updating answers, but for whose they are, keeps the constraints. -/
theorem Tenants.updateAnswers {n : Nat} {db : Db} (h : Tenants n db) (p : Answer → Bool)
    {f : Answer → Answer} (hf : ∀ a, (f a).id = a.id ∧ (f a).orgId = a.orgId ∧ (f a).userId = a.userId)
    (spend : List PlatformSpend) : Tenants n { db with
      answers := updateWhere p f db.answers
      platformSpend := spend } := by
  have hold : ∀ a ∈ updateWhere p f db.answers, ∃ a₀ ∈ db.answers,
      a.id = a₀.id ∧ a.orgId = a₀.orgId ∧ a.userId = a₀.userId := by
    intro a ha
    obtain ⟨a₀, ha₀, rfl⟩ := mem_updateWhere.1 ha
    refine ⟨a₀, ha₀, ?_⟩
    split
    · exact hf a₀
    · exact ⟨rfl, rfl, rfl⟩
  refine ⟨h.accounts.frame (le_refl n) rfl (fun _ => rfl) rfl, h.documents,
    h.groups.frame (le_refl n) (member_frame rfl) rfl rfl,
    ⟨?_, fun a ha => ?_, fun a ha => ?_, h.ledger.raters, fun r hr => ?_⟩, h.audit⟩
  · rw [map_updateWhere Answer.id fun a => (hf a).1]
    exact h.ledger.ids
  · obtain ⟨a₀, ha₀, he, -⟩ := hold a ha
    rw [he]
    exact h.ledger.fresh a₀ ha₀
  · obtain ⟨a₀, ha₀, -, ho, hu⟩ := hold a ha
    rw [ho, hu]
    exact h.ledger.askers a₀ ha₀
  · obtain ⟨a, ha, he, ho⟩ := h.ledger.rated r hr
    refine ⟨_, mem_updateWhere.2 ⟨a, ha, rfl⟩, ?_⟩
    split
    · exact ⟨(hf a).1.trans he, (hf a).2.1.trans ho⟩
    · exact ⟨he, ho⟩

theorem addFeedbackTx_ok {ctx : AuthContext} {answerId : Uuid} {rating : Rating} {note : Option String}
    {u : Unit} {db db' : Db} (h : addFeedbackTx ctx answerId rating note db = .ok (u, db')) :
    (∃ a ∈ db.answers, a.id = answerId ∧ a.orgId = ctx.orgId) ∧ db.hasUser ctx.userId = true ∧
      db' = { db with
        feedback := db.feedback ++ [⟨ctx.orgId, ctx.userId, answerId, rating, note⟩] } := by
  simp only [addFeedbackTx, Db.references] at h
  split at h
  · rename_i hany
    split at h
    · cases h
    · split at h
      · rename_i href
        simp only [Bool.and_eq_true] at href
        refine ⟨?_, href.2, (Prod.mk.inj (Except.ok.inj h)).2.symm⟩
        obtain ⟨a, ha, hp⟩ := List.any_eq_true.1 hany
        simp only [rls, Bool.and_eq_true, beq_iff_eq] at hp
        exact ⟨a, ha, hp.2⟩
      · cases h
  · cases h

/-- Feedback of a member keeps the constraints. -/
theorem Tenants.newFeedback {n : Nat} {db : Db} (h : Tenants n db) {f : Feedback}
    (hm : Member db f.userId f.orgId) (ha : ∃ a ∈ db.answers, a.id = f.answerId ∧ a.orgId = f.orgId) :
    Tenants n { db with feedback := db.feedback ++ [f] } := by
  refine ⟨h.accounts.frame (le_refl n) rfl (fun _ => rfl) rfl, h.documents,
    h.groups.frame (le_refl n) (member_frame rfl) rfl rfl,
    ⟨h.ledger.ids, h.ledger.fresh, h.ledger.askers, fun r hr => ?_, fun r hr => ?_⟩, h.audit⟩
  · rcases List.mem_append.1 hr with hr | hr
    · exact h.ledger.raters r hr
    · rw [List.mem_singleton.1 hr]
      exact hm
  · rcases List.mem_append.1 hr with hr | hr
    · exact h.ledger.rated r hr
    · rw [List.mem_singleton.1 hr]
      exact ha

theorem auditTx_ok {orgId : Uuid} {actor : Uuid} {action : String}
    {detail : List (String × DetailValue)} {now : Time} {u : Unit} {db db' : Db}
    (h : auditTx env orgId (some actor) action detail now db = .ok (u, db')) :
    db.hasUser actor = true ∧ db' = { db with
      auditLog := db.auditLog ++ [⟨orgId, some actor, action, Pii.redactDetail env detail, now⟩] } := by
  simp only [auditTx, Db.references] at h
  split at h
  · rename_i href
    simp only [Bool.and_eq_true, Option.all_some] at href
    exact ⟨href.2, (Prod.mk.inj (Except.ok.inj h)).2.symm⟩
  · cases h

/-- An audit entry of a member keeps the constraints. -/
theorem Tenants.newAudit {n : Nat} {db : Db} (h : Tenants n db) {r : AuditRow}
    (hm : ∀ u, r.actorUserId = some u → Member db u r.orgId) :
    Tenants n { db with auditLog := db.auditLog ++ [r] } := by
  refine ⟨h.accounts.frame (le_refl n) rfl (fun _ => rfl) rfl, h.documents,
    h.groups.frame (le_refl n) (member_frame rfl) rfl rfl,
    h.ledger.frame (le_refl n) (member_frame rfl) rfl rfl, fun r' hr' u hu => ?_⟩
  rcases List.mem_append.1 hr' with hr' | hr'
  · exact h.audit r' hr' u hu
  · rw [List.mem_singleton.1 hr'] at hu ⊢
    exact hm u hu

end KnowledgeDesk.Proofs
