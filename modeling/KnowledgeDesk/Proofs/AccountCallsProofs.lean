import KnowledgeDesk.AccountCalls
import KnowledgeDesk.Lib.Contracts
import KnowledgeDesk.Proofs.MembersProofs

/-!
# Accounts nobody can use

A user row is reachable through a membership only. Over every interleaving of the statements of
`create_org_with_owner`, `add_member`, `remove_member` and `delete_org` a user is left without one just
where the delete of `delete_org` runs on members that its list, read a statement before, does not name.
-/

open Table ReadCommitted

namespace KnowledgeDesk.Proofs

variable {env : Env}

/-! ## Calls run alone -/

theorem insertOrgStmt_serial (org : Org) (taken : Err) (k : AccountProg) (db : Db) :
    (insertOrgStmt org taken k).serial db = if db.orgs.any fun o => o.slug == org.slug then .error taken
      else k.serial { db with orgs := db.orgs ++ [org] } := by
  rw [insertOrgStmt, Prog.serial]
  split <;> rfl

theorem insertUserStmt_serial (user : User) (taken : Err) (k : AccountProg) (db : Db) :
    (insertUserStmt user taken k).serial db = match insertUser user.email user.passwordHash user.id db with
      | .error _ => .error taken
      | .ok db' => k.serial db' := by
  rw [insertUserStmt, Prog.serial, insertUser]
  split <;> rfl

theorem insertUser_error {email hash : String} {fresh : Uuid} {db : Db} {e : DbError}
    (h : insertUser email hash fresh db = .error e) : e = .uniqueViolation := by
  unfold insertUser at h
  split at h
  · exact (Except.error.inj h).symm
  · cases h

theorem insertMemberStmt_serial (m : Membership) (taken : Err) (db : Db) :
    (insertMemberStmt m taken).serial db =
      (onUniqueViolation taken (insertMembership m.userId m.orgId m.role m.createdAt db)).map fun db' => ((), db') := by
  rw [insertMemberStmt, Prog.serial]
  cases hm : insertMembership m.userId m.orgId m.role m.createdAt db with
  | error e => cases e <;> rfl
  | ok db' =>
    obtain ⟨-, -, rfl⟩ := insertMembership_ok hm
    rfl

theorem createOrgWithOwnerProg_serial (orgSlug orgName email password salt : String) (now : Time) (fresh : Uuid)
    (db : Db) : (createOrgWithOwnerProg env orgSlug orgName email password salt now fresh).serial db =
      (createOrgWithOwner env orgSlug orgName email password salt fresh fresh now db).map fun r => ((), r.2) := by
  rw [createOrgWithOwnerProg, insertOrgStmt_serial, insertUserStmt_serial, createOrgWithOwner]
  by_cases hslug : (db.orgs.any fun o => o.slug == orgSlug) = true
  · rw [if_pos hslug, if_pos hslug]
    rfl
  · rw [if_neg hslug, if_neg hslug]
    cases hu : insertUser (normalizeEmail env email) (env.hashPassword password salt) fresh
        { db with orgs := db.orgs ++ [⟨fresh, orgSlug, orgName⟩] } with
    | error e =>
      obtain rfl := insertUser_error hu
      simp only [bind, Except.bind, hu, onUniqueViolation, Except.map]
    | ok db₁ =>
      simp only [bind, Except.bind, pure, Except.pure, hu, insertMemberStmt_serial]
      cases insertMembership fresh fresh .owner now db₁ with
      | error e => cases e <;> rfl
      | ok db₂ => rfl

theorem addMemberStmts_serial (orgId : Uuid) (email password : String) (role : Role) (salt : String) (now : Time)
    (fresh : Uuid) (db : Db) : (addMemberStmts env orgId email password role salt now fresh).serial db =
      (addMember env orgId email password role salt fresh now db).map fun r => ((), r.2) := by
  rw [addMemberStmts, insertUserStmt_serial, addMember]
  cases hu : insertUser (normalizeEmail env email) (env.hashPassword password salt) fresh db with
  | error e =>
    obtain rfl := insertUser_error hu
    simp only [bind, Except.bind, onUniqueViolation, Except.map]
  | ok db₁ =>
    simp only [bind, Except.bind, pure, Except.pure, insertMemberStmt_serial]
    cases insertMembership fresh orgId role now db₁ with
    | error e => cases e <;> rfl
    | ok db₂ => rfl

/-- The statements of `delete_org` on an org there is. -/
theorem deleteOrgProg_serial {orgId : Uuid} {db : Db} (h : db.hasOrg orgId = true) :
    (deleteOrgProg orgId).serial db = deleteOrg orgId db := by
  simp only [deleteOrgProg, deleteOrgStmts, purgeStrandedStmt, Prog.serial, h, if_true, deleteOrg]
  refine congrArg (fun db' => Except.ok ((), db')) ?_
  refine deleteUsers_congr fun u hu => ?_
  rw [Bool.eq_iff_iff, List.contains_iff_mem, List.mem_map]
  constructor
  · rintro ⟨v, hv, he⟩
    have hs := (List.mem_filter.1 hv).2
    simp only [isStranded, he] at hs ⊢
    exact hs
  · intro hs
    exact ⟨u, List.mem_filter.2 ⟨hu, hs⟩, rfl⟩

/-! ## What the calls keep -/

/-- Every user is a member of some org. -/
def NoStranded (db : Db) : Prop := ∀ u ∈ db.users, ∃ m ∈ db.memberships, m.userId = u.id

instance (db : Db) : Decidable (NoStranded db) :=
  inferInstanceAs (Decidable (∀ u ∈ db.users, ∃ m ∈ db.memberships, m.userId = u.id))

/-- Users and memberships as the calls leave them: each user has one membership, and each membership a
user. -/
structure Accounts (db : Db) : Prop where
  members : NoStranded db
  single : (db.memberships.map (·.userId)).Nodup
  user : ∀ m ∈ db.memberships, db.hasUser m.userId = true

theorem hasUser_iff {db : Db} {id : Uuid} : db.hasUser id = true ↔ ∃ u ∈ db.users, u.id = id := by
  simp [Db.hasUser]

theorem Accounts.eq {db : Db} (h : Accounts db) {m m' : Membership} (hm : m ∈ db.memberships)
    (hm' : m' ∈ db.memberships) (he : m.userId = m'.userId) : m = m' :=
  Table.eq_of_key h.single hm hm' he

/-- A new user comes with a membership. -/
theorem Accounts.added {db db' : Db} (h : Accounts db) {user : User} {m : Membership} (hid : m.userId = user.id)
    (hfresh : ∀ m' ∈ db.memberships, m'.userId ≠ user.id) (hu : db'.users = db.users ++ [user])
    (hm : db'.memberships = db.memberships ++ [m]) : Accounts db' := by
  refine ⟨fun u hmem => ?_, ?_, fun m' hmem => ?_⟩
  · rw [hu] at hmem
    rw [hm]
    rcases List.mem_append.1 hmem with hmem | hmem
    · obtain ⟨m', hm', he⟩ := h.members u hmem
      exact ⟨m', List.mem_append_left _ hm', he⟩
    · obtain rfl := List.mem_singleton.1 hmem
      exact ⟨m, List.mem_append_right _ List.mem_cons_self, hid⟩
  · rw [hm, List.map_append, List.nodup_append]
    refine ⟨h.single, List.nodup_singleton _, ?_⟩
    simp only [List.mem_map, List.map_cons, List.map_nil, List.mem_singleton]
    rintro _ ⟨m', hm', rfl⟩ _ rfl he
    exact hfresh m' hm' (he.trans hid)
  · rw [hm] at hmem
    rw [hasUser_iff, hu]
    rcases List.mem_append.1 hmem with hmem | hmem
    · obtain ⟨u, hum, he⟩ := hasUser_iff.1 (h.user m' hmem)
      exact ⟨u, List.mem_append_left _ hum, he⟩
    · obtain rfl := List.mem_singleton.1 hmem
      exact ⟨user, List.mem_append_right _ List.mem_cons_self, hid.symm⟩

/-- Users that go take all of their memberships with them, and nobody else's. -/
theorem Accounts.purged {db db' : Db} (h : Accounts db) (ids : List Uuid)
    (hu : ∀ u, u ∈ db'.users ↔ u ∈ db.users ∧ u.id ∉ ids) (hsub : db'.memberships.Sublist db.memberships)
    (hm : ∀ m ∈ db.memberships, m ∈ db'.memberships ↔ m.userId ∉ ids) : Accounts db' := by
  refine ⟨fun u hmem => ?_, h.single.sublist (hsub.map _), fun m hmem => ?_⟩
  · obtain ⟨hum, hid⟩ := (hu u).1 hmem
    obtain ⟨m, hm', he⟩ := h.members u hum
    exact ⟨m, (hm m hm').2 (he ▸ hid), he⟩
  · have hmem' := hsub.subset hmem
    obtain ⟨u, hum, he⟩ := hasUser_iff.1 (h.user m hmem')
    exact hasUser_iff.2 ⟨u, (hu u).2 ⟨hum, he ▸ (hm m hmem').1 hmem⟩, he⟩

/-! ## The contracts of the calls -/

/-- What others may do to the memberships while the locks are held: those locked stay, and an org whose
row is locked gets no new ones. -/
structure KeepsMembers (locks : List AccountLock) (db db' : Db) : Prop where
  kept : ∀ m ∈ db.memberships, AccountLock.row (.membership m.userId m.orgId) ∈ locks → m ∈ db'.memberships
  closed : ∀ m ∈ db'.memberships, AccountLock.org m.orgId ∈ locks → m ∈ db.memberships

theorem keepsMembers_refl {locks : List AccountLock} {db : Db} : KeepsMembers locks db db :=
  ⟨fun _ hm _ => hm, fun _ hm _ => hm⟩

/-- What a call of the system keeps to, `fresh` being the id drawn for it. -/
def accountContract (call : AccountCall) (fresh : Nat) : Contract Db AccountLock Err Unit where
  inv := fun db => Accounts db ∧ ∀ m ∈ db.memberships, m.userId ≠ fresh
  rely := KeepsMembers
  allowed := fun p db => ∀ orgId members, call = .deleteOrg orgId → p = deleteOrgStmts orgId members →
    ∀ m ∈ db.memberships, m.orgId = orgId → m.userId ∈ members
  commits := fun locks pending db => Accounts (pending db) ∧
    (∀ m ∈ db.memberships, m ∉ (pending db).memberships → .row (.membership m.userId m.orgId) ∈ locks) ∧
    ∀ m ∈ (pending db).memberships, m ∈ db.memberships ∨
      (m.userId = fresh ∧ (.org m.orgId ∈ locks ∨ .orgShare m.orgId ∈ locks))
  rely_refl := fun _ _ => keepsMembers_refl
  rely_trans := fun _ _ _ _ h h' =>
    ⟨fun m hm hl => h'.kept m (h.kept m hm hl) hl, fun m hm hl => h.closed m (h'.closed m hm hl) hl⟩

section Meets

variable {call : AccountCall} {fresh : Nat}

/-- The insert of the membership, after that of the user whose id was drawn. -/
theorem insertMemberStmt_meets {user : User} (hid : user.id = fresh) {m : Membership} (hm : m.userId = fresh)
    (taken : Err) {pending : Db → Db}
    (hu : ∀ db, (pending db).users = db.users ++ [user]) (hp : ∀ db, (pending db).memberships = db.memberships)
    {locks : List AccountLock} (db : Db) :
    (insertMemberStmt m taken).Meets (accountContract call fresh) locks pending db := by
  intro db₁ _ _ _
  cases hins : insertMembership m.userId m.orgId m.role m.createdAt (pending db₁) with
  | error e =>
    dsimp only
    rw [hins]
    cases e <;> trivial
  | ok db' =>
    obtain ⟨-, horg, -⟩ := insertMembership_ok hins
    dsimp only
    rw [hins]
    intro db₂ hdb₂ _
    have hmem : (((fun db : Db => { db with memberships := db.memberships ++ [m] }) ∘ pending) db₂).memberships =
        db₂.memberships ++ [m] := congrArg (· ++ [m]) (hp db₂)
    have husers : (((fun db : Db => { db with memberships := db.memberships ++ [m] }) ∘ pending) db₂).users =
        db₂.users ++ [user] := hu db₂
    refine ⟨hdb₂.1.added (hm.trans hid.symm) (by rw [hid]; exact hdb₂.2) husers hmem, fun m' hm' hgone => ?_,
      fun m' hm' => ?_⟩
    · rw [hmem] at hgone
      exact absurd (List.mem_append_left _ hm') hgone
    · rw [hmem] at hm'
      rcases List.mem_append.1 hm' with hm' | hm'
      · exact .inl hm'
      · obtain rfl := List.mem_singleton.1 hm'
        refine .inr ⟨hm, .inr ?_⟩
        rw [horg, if_pos rfl]
        exact List.mem_append_left _ (List.mem_cons_of_mem _ List.mem_cons_self)

theorem insertUserStmt_meets {user : User} (hid : user.id = fresh) {m : Membership} (hm : m.userId = fresh)
    (taken taken' : Err) {pending : Db → Db}
    (hu : ∀ db, (pending db).users = db.users) (hp : ∀ db, (pending db).memberships = db.memberships)
    {locks : List AccountLock} (db : Db) :
    (insertUserStmt user taken (insertMemberStmt m taken')).Meets (accountContract call fresh) locks pending db := by
  intro db₁ _ _ _
  dsimp only
  split
  · trivial
  · refine insertMemberStmt_meets hid hm taken' (fun db => ?_) (fun db => ?_) db₁
    · exact congrArg (· ++ [user]) (hu db)
    · exact hp db

theorem createOrgWithOwnerProg_meets (orgSlug orgName email password salt : String) (now : Time)
    (db : Db) :
    (createOrgWithOwnerProg env orgSlug orgName email password salt now fresh).Meets (accountContract call fresh)
      [] id db := by
  intro db₁ _ _ _
  dsimp only
  split
  · trivial
  · refine insertUserStmt_meets ?_ ?_ _ _ (fun _ => ?_) (fun _ => ?_) db₁ <;> rfl

theorem addMemberStmts_meets (orgId : Uuid) (email password : String) (role : Role) (salt : String) (now : Time)
    (db : Db) : (addMemberStmts env orgId email password role salt now fresh).Meets (accountContract call fresh)
      [] id db := by
  refine insertUserStmt_meets ?_ ?_ _ _ (fun _ => ?_) (fun _ => ?_) db <;> rfl

/-- A transaction that has touched no member. -/
theorem commits_unchanged {pending : Db → Db} (hp : ∀ db, (pending db) = db) {locks : List AccountLock} (db : Db) :
    (Prog.done ()).Meets (accountContract call fresh) locks pending db := by
  intro db₁ hdb₁ _
  show Accounts (pending db₁) ∧ _
  rw [hp]
  exact ⟨hdb₁.1, fun m hm hgone => absurd hm hgone, fun m hm => .inl hm⟩

/-- What a purge leaves of the users. -/
theorem mem_users_deleteUsers {db : Db} {p : User → Bool} {u : User} :
    u ∈ (db.deleteUsers p).users ↔ u ∈ db.users ∧ p u = false := by
  simp [Db.deleteUsers]

/-- What a purge leaves of the memberships of users there are. -/
theorem mem_memberships_deleteUsers {db : Db} {ids : List Uuid} {m : Membership} (hm : db.hasUser m.userId = true) :
    m ∈ (db.deleteUsers fun u => ids.contains u.id).memberships ↔ m ∈ db.memberships ∧ m.userId ∉ ids := by
  obtain ⟨u, hu, hid⟩ := hasUser_iff.1 hm
  simp only [Db.deleteUsers, mem_deleteWhere, List.any_eq_false, Bool.and_eq_true, List.contains_iff_mem,
    beq_iff_eq, not_and]
  refine and_congr_right fun _ => ⟨fun h hmem => h u hu (hid ▸ hmem) hid, fun hmem v _ hv he => hmem (he ▸ hv)⟩

/-- The purge that ends `remove_member`, after the delete of the membership. -/
theorem purgeStmt_meets {userId orgId : Uuid} {locks : List AccountLock} {db : Db}
    (hlock : AccountLock.row (.membership userId orgId) ∈ locks)
    (hmember : ∃ m ∈ db.memberships, m.userId = userId ∧ m.orgId = orgId) :
    ((purgeStmt userId).relock AccountLock.row).Meets (accountContract call fresh) locks
      (deleteMembership userId orgId) db := by
  intro db₁ hdb₁ hkeep _ db₂ hdb₂ hkeep₂
  obtain ⟨m, hm, rfl, rfl⟩ := hmember
  have hm₁ := hkeep.kept m hm hlock
  have hm₂ := hkeep₂.kept m hm₁ (List.mem_append_right _ hlock)
  -- the user is there, and the membership was the only one
  have hstranded : ((deleteMembership m.userId m.orgId db₁).users.any
      (isStranded [m.userId] (deleteMembership m.userId m.orgId db₁))) = true := by
    obtain ⟨u, hu, hid⟩ := hasUser_iff.1 (hdb₁.1.user m hm₁)
    refine List.any_eq_true.2 ⟨u, hu, ?_⟩
    have hnone : ((deleteMembership m.userId m.orgId db₁).memberships.any fun m' => m'.userId == m.userId) = false := by
      rw [List.any_eq_false]
      intro m' hm' he
      obtain ⟨hmem, hne⟩ := mem_deleteMembership.1 hm'
      obtain rfl := hdb₁.1.eq hmem hm₁ (by simpa using he)
      exact hne ⟨rfl, rfl⟩
    simp only [isStranded, hid, hnone]
    simp
  have hlast : ∀ m' ∈ db₂.memberships, m'.userId = m.userId → m' = m := fun m' hm' he => hdb₂.1.eq hm' hm₂ he
  have hmem : ∀ m', m' ∈ ((deleteMembership m.userId m.orgId db₂).deleteUsers fun u => u.id == m.userId).memberships ↔
      m' ∈ db₂.memberships ∧ m'.userId ≠ m.userId := by
    intro m'
    constructor
    · intro hm'
      have hm'' : m' ∈ (deleteMembership m.userId m.orgId db₂).memberships := sublist_deleteWhere.subset hm'
      have hdel := mem_deleteMembership.1 hm''
      refine ⟨hdel.1, fun he => hdel.2 ⟨he, ?_⟩⟩
      rw [hlast m' hdel.1 he]
    · rintro ⟨hm', hne⟩
      have huser : (deleteMembership m.userId m.orgId db₂).hasUser m'.userId = true := hdb₂.1.user m' hm'
      exact (mem_deleteUser huser).2 ⟨mem_deleteMembership.2 ⟨hm', fun h => hne h.1⟩, hne⟩
  show Accounts ((if _ then _ else id) (deleteMembership m.userId m.orgId db₂)) ∧ _
  simp only [Function.comp_apply, hstranded, if_true]
  refine ⟨hdb₂.1.purged [m.userId] (fun u => ?_) ?_ fun m' hm' => ?_, fun m' hm' hgone => ?_, fun m' hm' => ?_⟩
  · rw [mem_users_deleteUsers, List.mem_singleton, beq_eq_false_iff_ne]
    rfl
  · exact sublist_deleteWhere.trans sublist_deleteWhere
  · rw [hmem, List.mem_singleton]
    exact ⟨fun h => h.2, fun h => ⟨hm', h⟩⟩
  · have he : m'.userId = m.userId := by
      by_contra hne
      exact hgone ((hmem m').2 ⟨hm', hne⟩)
    rw [hlast m' hm' he]
    exact List.mem_append_right _ hlock
  · exact .inl ((hmem m').1 hm').1

/-- `remove_member` deletes a membership and the user with it, or nothing. -/
theorem removeMember_meets (ctx : AuthContext) (userId : Uuid) (db : Db) :
    ((MemberCall.program env (.removeMember ctx userId) fresh).relock AccountLock.row).Meets
      (accountContract call fresh) [] id db := by
  have hdelete : ∀ db, ((deleteMemberStmts userId ctx.orgId).relock AccountLock.row).Meets
      (accountContract call fresh) [] id db := by
    intro db db₁ hdb₁ _ _
    by_cases hmember : isMember userId ctx.orgId db₁ = true
    · simp only [id_eq, hmember, if_true]
      refine purgeStmt_meets (List.mem_append_left _ (List.mem_map.2 ⟨_, List.mem_singleton.2 rfl, rfl⟩)) ?_
      obtain ⟨m, hm, he⟩ := List.any_eq_true.1 hmember
      simp only [Bool.and_eq_true, beq_iff_eq] at he
      exact ⟨m, hm, he⟩
    · simp only [id_eq, hmember, if_neg, Bool.false_eq_true, not_false_eq_true]
      -- nobody is stranded, so nothing is purged
      intro db₂ hdb₂ _ _
      have hnone : (db₂.users.any (isStranded [userId] db₂)) = false := by
        rw [List.any_eq_false]
        intro u hu hs
        obtain ⟨m, hm, he⟩ := hdb₂.1.members u hu
        simp only [isStranded, Bool.and_eq_true, Bool.not_eq_true', List.any_eq_false] at hs
        exact hs.2 m hm (by simpa using he)
      refine commits_unchanged (fun db => ?_) db₂
      simp only [Function.comp_apply, id_eq, hnone, Bool.false_eq_true, if_false]
  unfold MemberCall.program
  split
  · trivial
  · intro db₁ hdb₁ _
    simp only [id_eq]
    cases memberRole? userId ctx.orgId db₁ with
    | none => trivial
    | some target =>
      dsimp only
      split
      · intro db₂ _ _
        dsimp only
        split
        · trivial
        · exact hdelete db₂
      · exact hdelete db₁

theorem mem_deleteOrg_memberships {orgId : Uuid} {db : Db} {m : Membership} :
    m ∈ (db.deleteOrg orgId).memberships ↔ m ∈ db.memberships ∧ m.orgId ≠ orgId := by
  simp [Db.deleteOrg]

/-- The purge that ends `delete_org`, after the delete of the org: every member the org had is on the list
and no new one has come. -/
theorem purgeStrandedStmt_meets {orgId : Uuid} {members : List Uuid} {locks : List AccountLock} {db : Db}
    (hlock : AccountLock.org orgId ∈ locks)
    (hlocks : ∀ m ∈ db.memberships, m.orgId = orgId → AccountLock.row (.membership m.userId m.orgId) ∈ locks)
    (hlist : ∀ m ∈ db.memberships, m.orgId = orgId → m.userId ∈ members) :
    (purgeStrandedStmt members).Meets (accountContract call fresh) locks (Db.deleteOrg orgId) db := by
  intro db₁ hdb₁ hkeep _ db₂ hdb₂ hkeep₂
  set view := db₁.deleteOrg orgId with hview
  set ids := (view.users.filter (isStranded members view)).map (·.id) with hids
  -- the members of the org are the same throughout
  have hold : ∀ m ∈ db₂.memberships, m.orgId = orgId → m ∈ db₁.memberships ∧ m ∈ db.memberships := by
    intro m hm ho
    have hm₁ := hkeep₂.closed m hm (List.mem_append_right _ (ho ▸ hlock))
    exact ⟨hm₁, hkeep.closed m hm₁ (ho ▸ hlock)⟩
  have hstay : ∀ m ∈ db₁.memberships, m.orgId = orgId → m ∈ db₂.memberships := by
    intro m hm ho
    have hm₀ := hkeep.closed m hm (ho ▸ hlock)
    exact hkeep₂.kept m hm (List.mem_append_right _ (hlocks m hm₀ ho))
  have hmem_ids : ∀ id, id ∈ ids ↔ ∃ m ∈ db₂.memberships, m.userId = id ∧ m.orgId = orgId := by
    intro id
    rw [hids, List.mem_map]
    constructor
    · rintro ⟨u, hu, rfl⟩
      obtain ⟨hu, hs⟩ := List.mem_filter.1 hu
      simp only [isStranded, Bool.and_eq_true, Bool.not_eq_true', List.any_eq_false] at hs
      obtain ⟨m, hm, he⟩ := hdb₁.1.members u hu
      have ho : m.orgId = orgId := by
        by_contra hne
        exact hs.2 m (mem_deleteOrg_memberships.2 ⟨hm, hne⟩) (by simpa using he)
      exact ⟨m, hstay m hm ho, he, ho⟩
    · rintro ⟨m, hm, rfl, ho⟩
      obtain ⟨hm₁, hm₀⟩ := hold m hm ho
      obtain ⟨u, hu, he⟩ := hasUser_iff.1 (hdb₁.1.user m hm₁)
      refine ⟨u, List.mem_filter.2 ⟨hu, ?_⟩, he⟩
      have hin : u.id ∈ members := he ▸ hlist m hm₀ ho
      have hnone : (view.memberships.any fun m' => m'.userId == u.id) = false := by
        rw [List.any_eq_false]
        intro m' hm' he'
        obtain ⟨hmem, hne⟩ := mem_deleteOrg_memberships.1 hm'
        obtain rfl := hdb₁.1.eq hmem hm₁ ((by simpa using he' : m'.userId = u.id).trans he)
        exact hne ho
      simp only [isStranded, List.contains_iff_mem.2 hin, hnone, Bool.not_false, Bool.and_self]
  have hmem : ∀ m, m ∈ ((db₂.deleteOrg orgId).deleteUsers fun u => ids.contains u.id).memberships ↔
      m ∈ db₂.memberships ∧ m.userId ∉ ids := by
    intro m
    constructor
    · intro hm
      have hm' : m ∈ (db₂.deleteOrg orgId).memberships := sublist_deleteWhere.subset hm
      obtain ⟨hm₂, hne⟩ := mem_deleteOrg_memberships.1 hm'
      refine ⟨hm₂, fun hid => ?_⟩
      obtain ⟨m', hm'', he, ho⟩ := (hmem_ids _).1 hid
      rw [hdb₂.1.eq hm'' hm₂ he] at ho
      exact hne ho
    · rintro ⟨hm, hid⟩
      have huser : (db₂.deleteOrg orgId).hasUser m.userId = true := hdb₂.1.user m hm
      refine (mem_memberships_deleteUsers huser).2 ⟨mem_deleteOrg_memberships.2 ⟨hm, fun ho => ?_⟩, hid⟩
      exact hid ((hmem_ids _).2 ⟨m, hm, rfl, ho⟩)
  show Accounts ((db₂.deleteOrg orgId).deleteUsers fun u => ids.contains u.id) ∧ _
  refine ⟨hdb₂.1.purged ids (fun u => ?_) ?_ fun m hm => ?_, fun m hm hgone => ?_, fun m hm => ?_⟩
  · rw [mem_users_deleteUsers, ← Bool.not_eq_true, List.contains_iff_mem]
    rfl
  · exact sublist_deleteWhere.trans sublist_deleteWhere
  · rw [hmem]
    exact ⟨fun h => h.2, fun h => ⟨hm, h⟩⟩
  · have hid : m.userId ∈ ids := by
      by_contra hno
      exact hgone ((hmem m).2 ⟨hm, hno⟩)
    obtain ⟨m', hm', he, ho⟩ := (hmem_ids _).1 hid
    obtain rfl := hdb₂.1.eq hm' hm he
    exact List.mem_append_right _ (hlocks m' (hold m' hm ho).2 ho)
  · exact .inl ((hmem m).1 hm).1

theorem deleteOrgProg_meets {orgId : Uuid} (hcall : call = .deleteOrg orgId) (db : Db) :
    (deleteOrgProg orgId).Meets (accountContract call fresh) [] id db := by
  intro db₁ _ _ db₂ hdb₂ _ hallowed
  have hlist := hallowed orgId _ hcall rfl
  by_cases horg : db₂.hasOrg orgId = true
  · have hrows : deleteOrgLocks orgId db₂ ++ [] = deleteOrgLocks orgId db₂ := List.append_nil _
    show (purgeStrandedStmt _).Meets _ (deleteOrgLocks orgId db₂ ++ [])
      ((if db₂.hasOrg orgId then Db.deleteOrg orgId else id) ∘ id) db₂
    rw [hrows, if_pos horg]
    have hlocks : deleteOrgLocks orgId db₂ = .org orgId ::
        (db₂.memberships.filter fun m => m.orgId == orgId).map fun m => .row (.membership m.userId m.orgId) := by
      rw [deleteOrgLocks, if_pos horg]
    refine purgeStrandedStmt_meets ?_ (fun m hm ho => ?_) hlist
    · rw [hlocks]
      exact List.mem_cons_self
    · rw [hlocks]
      exact List.mem_cons_of_mem _ (List.mem_map.2 ⟨m, List.mem_filter.2 ⟨hm, by simpa using ho⟩, rfl⟩)
  · show (purgeStrandedStmt _).Meets _ (deleteOrgLocks orgId db₂ ++ [])
      ((if db₂.hasOrg orgId then Db.deleteOrg orgId else id) ∘ id) db₂
    rw [if_neg horg]
    -- the delete found no row, and nobody is stranded
    intro db₃ hdb₃ _ _
    refine commits_unchanged (fun db => deleteUsers_none fun u _ => ?_) db₃
    rw [← Bool.not_eq_true, List.contains_iff_mem, List.mem_map]
    rintro ⟨v, hv, -⟩
    obtain ⟨hv, hs⟩ := List.mem_filter.1 hv
    obtain ⟨m, hm, he⟩ := hdb₃.1.members v hv
    simp only [isStranded, Bool.and_eq_true, Bool.not_eq_true', List.any_eq_false] at hs
    exact hs.2 m hm (by simpa using he)

/-- Every call meets its contract. -/
theorem accountCall_meets (call : AccountCall) (fresh : Nat) (db : Db) :
    (call.program env fresh).Meets (accountContract call fresh) [] id db := by
  cases call with
  | createOrgWithOwner orgSlug orgName email password salt now =>
    exact createOrgWithOwnerProg_meets orgSlug orgName email password salt now db
  | addMember orgId email password role salt now => exact addMemberStmts_meets orgId email password role salt now db
  | removeMember ctx userId => exact removeMember_meets ctx userId db
  | deleteOrg orgId => exact deleteOrgProg_meets rfl db

end Meets

/-! ## Runs -/

theorem conflicts_comm (a b : AccountLock) : (a == b) = (b == a) := by
  show a.conflicts b = b.conflicts a
  cases a <;> cases b <;> simp [AccountLock.conflicts, eq_comm, Bool.beq_comm]

theorem row_conflicts (k : RowKey) : (AccountLock.row k == AccountLock.row k) = true :=
  decide_eq_true rfl

theorem org_conflicts (o : Uuid) : (AccountLock.org o == AccountLock.org o) = true :=
  decide_eq_true rfl

theorem orgShare_conflicts (o : Uuid) : (AccountLock.orgShare o == AccountLock.org o) = true :=
  beq_self_eq_true o

/-- The invariant of sessions that run these calls. -/
structure AccountSystemInv (s : AccountSystem) : Prop where
  sessions : SessionsInv (fun _ _ _ _ => True) s
  exclusive : Exclusive s
  met : Met accountContract s
  accounts : Accounts s.store
  below : ∀ m ∈ s.store.memberships, m.userId < s.drawn
  unused : ∀ i t, s.sessions i = some t → ∀ m ∈ s.store.memberships, m.userId ≠ t.drawn

theorem accountSystemInv_atRest {db : Db} {n : Nat} (h : Accounts db) (hn : ∀ m ∈ db.memberships, m.userId < n) :
    AccountSystemInv (atRest db n) :=
  ⟨sessionsInv_atRest _ _, exclusive_atRest _ _, met_atRest _ _, h, hn, fun _ _ ht => by simp [atRest] at ht⟩

/-- What a session commits keeps the accounts, adds its own user at most, and is what the others count
on. -/
theorem AccountSystemInv.committed {s : AccountSystem} (h : AccountSystemInv s) {i : Nat}
    {t : ReadCommitted.Session Db AccountLock Err Unit AccountCall} {a : Unit} (ht : s.sessions i = some t)
    (hp : t.prog = .done a) : Accounts (t.pending s.store) ∧ Respects accountContract s (t.pending s.store) i ∧
      ∀ m ∈ (t.pending s.store).memberships, m ∈ s.store.memberships ∨ m.userId = t.drawn := by
  have hmeets := h.met i t ht
  rw [hp] at hmeets
  obtain ⟨haccounts, hgone, hnew⟩ := hmeets s.store ⟨h.accounts, h.unused i t ht⟩ keepsMembers_refl
  refine ⟨haccounts, fun j u hji _ => ⟨fun m hm hlock => ?_, fun m hm hlock => ?_⟩, fun m hm => ?_⟩
  · by_contra hno
    have hapart := h.exclusive i j (Ne.symm hji) _ (hgone m hm hno) _ hlock
    rw [row_conflicts] at hapart
    cases hapart
  · rcases hnew m hm with hold | ⟨-, hlock' | hlock'⟩
    · exact hold
    · have hapart := h.exclusive i j (Ne.symm hji) _ hlock' _ hlock
      rw [org_conflicts] at hapart
      cases hapart
    · have hapart := h.exclusive i j (Ne.symm hji) _ hlock' _ hlock
      rw [orgShare_conflicts] at hapart
      cases hapart
  · exact (hnew m hm).imp_right And.left

/-- Every step keeps the invariant, unless it is the delete of a `delete_org` that overlooks a member. -/
theorem accountSystemInv_step {s : AccountSystem} (h : AccountSystemInv s) {l : Label AccountCall}
    (hl : ¬ OverlooksMember s l) : AccountSystemInv (accountStep env s l) := by
  have hsessions : SessionsInv (fun _ _ _ _ => True) (accountStep env s l) :=
    sessionsInv_step (fun call n => (call.program env n).commits_trivial _ _) h.sessions l
  have hexclusive : Exclusive (accountStep env s l) := exclusive_step conflicts_comm _ h.exclusive l
  have hallowed : Allowed accountContract s l := by
    cases l with
    | start i call => trivial
    | kill i => trivial
    | advance i =>
      rintro t rows effect k ht hp hfree orgId members hcall hdelete m hm ho
      by_contra hmiss
      refine hl ⟨t, orgId, members, ht, hcall, hdelete, ?_, m, hm, ho, hmiss⟩
      rw [hp, deleteOrgStmts, Prog.write.injEq] at hdelete
      rw [← hdelete.1]
      exact hfree
  have hmet : Met accountContract (accountStep env s l) :=
    met_step (fun call n db => accountCall_meets call n db) h.sessions.idle h.met
      (fun i t ht => ⟨h.accounts, h.unused i t ht⟩) hallowed fun i t a _ ht hp => (h.committed ht hp).2.1
  have hdrawn := drawn_le_step (AccountCall.program env) s l
  rcases store_step (AccountCall.program env) s l with ⟨hstore, -⟩ | ⟨i, t, a, rfl, ht, hp, hclose⟩
  · refine ⟨hsessions, hexclusive, hmet, ?_, fun m hm => ?_, fun i t ht m hm => ?_⟩
    · rw [accountStep, hstore]
      exact h.accounts
    · rw [accountStep, hstore] at hm
      exact Nat.lt_of_lt_of_le (h.below m hm) hdrawn
    · rw [accountStep, hstore] at hm
      rcases session_step ht with ⟨t₀, ht₀, -, hd⟩ | ⟨-, hd⟩
      · rw [← hd]
        exact h.unused i t₀ ht₀ m hm
      · rw [hd]
        exact Nat.ne_of_lt (h.below m hm)
  · obtain ⟨haccounts, -, hnew⟩ := h.committed ht hp
    have hs : accountStep env s (.advance i) = s.close i (t.pending s.store) := hclose
    rw [hs] at hsessions hexclusive hmet ⊢
    refine ⟨hsessions, hexclusive, hmet, haccounts, fun m hm => ?_, fun j u hj m hm => ?_⟩
    · rcases hnew m hm with hold | he
      · exact h.below m hold
      · rw [he]
        exact h.sessions.below i t ht
    · have hji : j ≠ i := by
        rintro rfl
        simp [State.close] at hj
      have hju : s.sessions j = some u := by simpa [State.close, hji] using hj
      rcases hnew m hm with hold | he
      · exact h.unused j u hju m hold
      · rw [he]
        exact fun hd => hji (h.sessions.apart j i u t hju ht hd.symm)

/-- From accounts as the calls leave them, every committed state of every run leaves each user a membership,
unless a step of the run is the delete of a `delete_org` that overlooks a member. -/
theorem no_user_stranded_unless_overlooked {db : Db} {n : Nat} (h : Accounts db)
    (hn : ∀ m ∈ db.memberships, m.userId < n) {ls : List (Label AccountCall)}
    (hls : Runs.EachStep (accountStep env) (fun s l => ¬ OverlooksMember s l) (atRest db n) ls) :
    Runs.Throughout (accountStep env) (fun s => NoStranded s.store) (atRest db n) ls := by
  have hinv : Runs.Throughout (accountStep env) AccountSystemInv (atRest db n) ls :=
    Runs.throughout_of_eachStep (fun _ _ hs hl => accountSystemInv_step hs hl) (accountSystemInv_atRest h hn) hls
  exact hinv.mono fun _ hs => hs.accounts.members

/-! ## An account nobody can use -/

/-- The list of a `delete_org` can be told from its delete. -/
theorem deleteOrgStmts_members {orgId orgId' : Uuid} {members members' : List Uuid}
    (h : deleteOrgStmts orgId members = deleteOrgStmts orgId' members') {id : Uuid} (hid : id ∈ members) :
    id ∈ members' := by
  rw [deleteOrgStmts, deleteOrgStmts, Prog.write.injEq] at h
  have hpurge : purgeStrandedStmt members = purgeStrandedStmt members' := congrFun h.2.2 {}
  rw [purgeStrandedStmt, purgeStrandedStmt, Prog.write.injEq] at hpurge
  have hrows := congrFun hpurge.1 { users := [⟨id, "", ""⟩] }
  by_contra hno
  simp [isStranded, hid, hno] at hrows

theorem not_overlooksMember {s : AccountSystem} {i : Nat}
    {t : ReadCommitted.Session Db AccountLock Err Unit AccountCall} (ht : s.sessions i = some t)
    (h : ∀ orgId members, t.prog = deleteOrgStmts orgId members →
      ∀ m ∈ s.store.memberships, m.orgId = orgId → m.userId ∈ members) : ¬ OverlooksMember s (.advance i) := by
  rintro ⟨u, orgId, members, hu, -, hp, -, m, hm, ho, hmiss⟩
  obtain rfl := Option.some.inj (ht.symm.trans hu)
  exact hmiss (h orgId members hp m hm ho)

/-- An org with an owner and a member. -/
def orgOfTwo : Db where
  orgs := [⟨1, "acme", "Acme"⟩]
  users := [⟨1, "ann", "saltpw"⟩, ⟨2, "bob", "saltpw"⟩]
  memberships := [⟨1, 1, .owner, 0⟩, ⟨2, 1, .member, 0⟩]

/-- While nobody joins, the org's delete takes both of its users along. -/
theorem no_user_stranded_by_delete :
    Runs.Throughout (accountStep (asciiEnv id)) (fun s => NoStranded s.store) (atRest orgOfTwo 3)
      [.start 0 (.deleteOrg 1), .advance 0, .advance 0, .advance 0, .advance 0] := by
  refine no_user_stranded_unless_overlooked ⟨by decide, by decide, by decide⟩ (by decide)
    ⟨id, not_overlooksMember rfl fun orgId members hp => ?_, not_overlooksMember rfl fun orgId members hp => ?_,
      not_overlooksMember rfl fun orgId members hp => ?_, not_overlooksMember rfl fun orgId members hp => ?_, trivial⟩
  · cases hp
  · -- the list names both members
    intro m hm _
    have hall : ∀ m ∈ orgOfTwo.memberships, (m.orgId == 1) = true := by decide
    exact deleteOrgStmts_members hp (List.mem_map_of_mem (List.mem_filter.2 ⟨hm, hall m hm⟩))
  · have hdone : Prog.done () = purgeStrandedStmt members := congrFun (Prog.write.inj hp).2.2 {}
    cases hdone
  · cases hp

/-- Ann signs up; `delete_org` reads the members of her org; Bob is added; then the org goes. -/
def deleteMeetsAdd : List (Label AccountCall) :=
  [.start 0 (.createOrgWithOwner "acme" "Acme" "ann" "pw" "salt" 0), .advance 0, .advance 0, .advance 0, .advance 0,
    .start 1 (.deleteOrg 1), .advance 1,
    .start 2 (.addMember 1 "bob" "pw" .member "salt" 0), .advance 2, .advance 2, .advance 2,
    .advance 1, .advance 1, .advance 1]

/-- Bob's row is left behind with no membership, and his email stays taken. -/
theorem delete_org_strands_a_new_member :
    let s := Runs.run (accountStep (asciiEnv id)) (atRest {} 1) deleteMeetsAdd
    ¬ NoStranded s.store ∧
      addMember (asciiEnv id) 1 "bob" "pw" .member "salt" 9 0 s.store = .error (.conflict memberExists) := by
  decide +kernel

end KnowledgeDesk.Proofs
