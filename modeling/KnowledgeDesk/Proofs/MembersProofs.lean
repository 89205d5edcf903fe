import KnowledgeDesk.Tenancy

/-!
# Memberships

What the statements on memberships and users do to the memberships of an org, and when it is left with
an owner.
-/

open Table

namespace KnowledgeDesk.Proofs

variable {env : Env}

theorem memberRole?_eq_some {userId orgId : Uuid} {db : Db} {role : Role}
    (h : memberRole? userId orgId db = some role) :
    ∃ m ∈ db.memberships, m.userId = userId ∧ m.orgId = orgId ∧ m.role = role := by
  obtain ⟨m, hm, rfl⟩ := Option.map_eq_some_iff.1 h
  have hp := List.find?_some hm
  simp only [Bool.and_eq_true, beq_iff_eq] at hp
  exact ⟨m, List.mem_of_find?_eq_some hm, hp.1, hp.2, rfl⟩

theorem isMember_of_memberRole? {userId orgId : Uuid} {db : Db} {role : Role}
    (h : memberRole? userId orgId db = some role) : isMember userId orgId db = true := by
  obtain ⟨m, hm, hu, ho, -⟩ := memberRole?_eq_some h
  exact List.any_eq_true.2 ⟨m, hm, by simp [hu, ho]⟩

/-- The org has an owner. -/
def HasOwner (orgId : Uuid) (db : Db) : Prop := ∃ m ∈ db.memberships, m.orgId = orgId ∧ m.role = .owner

instance (orgId : Uuid) (db : Db) : Decidable (HasOwner orgId db) :=
  inferInstanceAs (Decidable (∃ m ∈ db.memberships, m.orgId = orgId ∧ m.role = .owner))

/-- The constraints on memberships: one for each user and org, of users there are; and no id from `n`
on is in use. -/
structure MembersInv (n : Nat) (db : Db) : Prop where
  keys : (db.memberships.map fun m => (m.userId, m.orgId)).Nodup
  user : ∀ m ∈ db.memberships, db.hasUser m.userId = true
  fresh : ∀ m ∈ db.memberships, m.userId < n

theorem membersInv_empty (n : Nat) : MembersInv n {} :=
  ⟨List.nodup_nil, fun _ h => by simp at h, fun _ h => by simp at h⟩

theorem MembersInv.mono {n k : Nat} {db : Db} (h : MembersInv n db) (hk : n ≤ k) : MembersInv k db :=
  { h with fresh := fun m hm => Nat.lt_of_lt_of_le (h.fresh m hm) hk }

/-! ## Inserts -/

theorem insertMembership_ok {userId orgId : Uuid} {role : Role} {now : Time} {db db' : Db}
    (h : insertMembership userId orgId role now db = .ok db') :
    (∀ m ∈ db.memberships, m.userId = userId → m.orgId ≠ orgId) ∧ db.hasOrg orgId = true ∧
      db' = { db with memberships := db.memberships ++ [⟨userId, orgId, role, now⟩] } := by
  simp only [insertMembership] at h
  split at h
  · cases h
  · rename_i hnew
    split at h
    · rename_i href
      simp only [Bool.and_eq_true] at href
      exact ⟨by simpa using hnew, href.2, (Except.ok.inj h).symm⟩
    · cases h

/-- What creating an org adds: the org, its owner under a new email, and the owner's membership. -/
theorem createOrgWithOwner_inserted {orgSlug orgName email password salt : String} {freshOrg freshUser : Uuid}
    {now : Time} {db db' : Db} {ctx : AuthContext}
    (h : createOrgWithOwner env orgSlug orgName email password salt freshOrg freshUser now db =
      .ok (ctx, db')) :
    ctx.userId = freshUser ∧ ctx.orgId = freshOrg ∧
      (∀ m ∈ db.memberships, m.userId = freshUser → m.orgId ≠ freshOrg) ∧
      (∀ u ∈ db.users, u.email ≠ normalizeEmail env email) ∧ db' = { db with
        orgs := db.orgs ++ [⟨freshOrg, orgSlug, orgName⟩]
        users := db.users ++ [⟨freshUser, normalizeEmail env email, env.hashPassword password salt⟩]
        memberships := db.memberships ++ [⟨freshUser, freshOrg, .owner, now⟩] } := by
  by_cases hslug : (db.orgs.any fun o => o.slug == orgSlug) = true
  · simp [createOrgWithOwner, hslug, onUniqueViolation, bind, Except.bind, throw, throwThe,
      MonadExceptOf.throw] at h
  · by_cases hu : (db.users.any fun u => u.email == normalizeEmail env email) = true
    · simp [createOrgWithOwner, hslug, insertUser, hu, onUniqueViolation, bind, Except.bind] at h
    · simp only [createOrgWithOwner, hslug, insertUser, hu, bind, Except.bind, Bool.false_eq_true, if_false,
        pure, Except.pure] at h
      cases hm : insertMembership freshUser freshOrg .owner now
          { db with
            orgs := db.orgs ++ [⟨freshOrg, orgSlug, orgName⟩]
            users := db.users ++ [⟨freshUser, normalizeEmail env email, env.hashPassword password salt⟩] }
        with
      | error e => cases e <;> simp [hm, onUniqueViolation] at h
      | ok db₂ =>
        obtain ⟨hnew, -, rfl⟩ := insertMembership_ok hm
        simp only [hm, onUniqueViolation] at h
        obtain ⟨rfl, rfl⟩ := Prod.mk.inj (Except.ok.inj h)
        exact ⟨rfl, rfl, hnew, by simpa using hu, rfl⟩

theorem createOrgWithOwner_ok {orgSlug orgName email password salt : String} {freshOrg freshUser : Uuid}
    {now : Time} {db db' : Db} {ctx : AuthContext}
    (h : createOrgWithOwner env orgSlug orgName email password salt freshOrg freshUser now db =
      .ok (ctx, db')) :
    ctx.userId = freshUser ∧ ctx.orgId = freshOrg ∧
      (∀ m ∈ db.memberships, m.userId = freshUser → m.orgId ≠ freshOrg) ∧
      ∃ user : User, user.id = freshUser ∧ user.passwordHash = env.hashPassword password salt ∧ db' = { db with
        orgs := db.orgs ++ [⟨freshOrg, orgSlug, orgName⟩]
        users := db.users ++ [user]
        memberships := db.memberships ++ [⟨freshUser, freshOrg, .owner, now⟩] } := by
  obtain ⟨huser, horg, hnew, -, hdb⟩ := createOrgWithOwner_inserted h
  exact ⟨huser, horg, hnew, _, rfl, rfl, hdb⟩

/-- What adding a member adds: a user under a new email, and the user's membership of an org there is. -/
theorem addMember_inserted {orgId : Uuid} {email password : String} {role : Role} {salt : String}
    {fresh id : Uuid} {now : Time} {db db' : Db}
    (h : addMember env orgId email password role salt fresh now db = .ok (id, db')) :
    id = fresh ∧ db.hasOrg orgId = true ∧ (∀ u ∈ db.users, u.email ≠ normalizeEmail env email) ∧
      db' = { db with
        users := db.users ++ [⟨fresh, normalizeEmail env email, env.hashPassword password salt⟩]
        memberships := db.memberships ++ [⟨fresh, orgId, role, now⟩] } := by
  by_cases hu : (db.users.any fun u => u.email == normalizeEmail env email) = true
  · simp [addMember, insertUser, hu, onUniqueViolation, bind, Except.bind] at h
  · simp only [addMember, insertUser, hu, bind, Except.bind, Bool.false_eq_true, if_false, pure,
      Except.pure] at h
    cases hm : insertMembership fresh orgId role now { db with
        users := db.users ++ [⟨fresh, normalizeEmail env email, env.hashPassword password salt⟩] } with
    | error e => cases e <;> simp [hm, onUniqueViolation] at h
    | ok db₂ =>
      obtain ⟨-, horg, rfl⟩ := insertMembership_ok hm
      simp only [hm, onUniqueViolation] at h
      obtain ⟨rfl, rfl⟩ := Prod.mk.inj (Except.ok.inj h)
      exact ⟨rfl, horg, by simpa using hu, rfl⟩

theorem addMember_ok {orgId : Uuid} {email password : String} {role : Role} {salt : String}
    {fresh id : Uuid} {now : Time} {db db' : Db}
    (h : addMember env orgId email password role salt fresh now db = .ok (id, db')) :
    id = fresh ∧ db.hasOrg orgId = true ∧ ∃ user : User, user.id = fresh ∧
      user.passwordHash = env.hashPassword password salt ∧ db' = { db with
        users := db.users ++ [user]
        memberships := db.memberships ++ [⟨fresh, orgId, role, now⟩] } := by
  obtain ⟨hid, horg, -, hdb⟩ := addMember_inserted h
  exact ⟨hid, horg, _, rfl, rfl, hdb⟩

/-! ## Updates and deletes -/

theorem setMemberRoleTx_ok {ctx : AuthContext} {userId : Uuid} {role : Role} {db db' : Db} {u : Unit}
    (h : setMemberRoleTx ctx userId role db = .ok (u, db')) :
    ∃ target, memberRole? userId ctx.orgId db = some target ∧
      ¬ (target = .owner ∧ role ≠ .owner ∧ ownerCount ctx.orgId db = 1) ∧
      db' = updateRole userId ctx.orgId role db := by
  simp only [setMemberRoleTx] at h
  split at h
  · cases h
  · rename_i target htarget
    split at h
    · cases h
    · rename_i hguard
      exact ⟨target, htarget, hguard, (Prod.mk.inj (Except.ok.inj h)).2.symm⟩

theorem removeMemberTx_ok {ctx : AuthContext} {userId : Uuid} {db db' : Db} {u : Unit}
    (h : removeMemberTx ctx userId db = .ok (u, db')) :
    ∃ target, memberRole? userId ctx.orgId db = some target ∧
      ¬ (target = .owner ∧ ownerCount ctx.orgId db = 1) ∧
      db' = purgeStrandedUsers [userId] (deleteMembership userId ctx.orgId db) := by
  simp only [removeMemberTx] at h
  split at h
  · cases h
  · rename_i target htarget
    split at h
    · cases h
    · rename_i hguard
      exact ⟨target, htarget, hguard, (Prod.mk.inj (Except.ok.inj h)).2.symm⟩

/-! ## Deleting users -/

theorem deleteWhere_congr {ρ : Type} {p q : ρ → Bool} {t : List ρ} (h : ∀ r ∈ t, p r = q r) :
    deleteWhere p t = deleteWhere q t :=
  List.filter_congr fun r hr => by rw [h r hr]

/-- Deleting users depends on the rows the predicate selects alone. -/
theorem deleteUsers_congr {db : Db} {p q : User → Bool} (h : ∀ u ∈ db.users, p u = q u) :
    db.deleteUsers p = db.deleteUsers q := by
  have hgone : ∀ id, (db.users.any fun u => p u && u.id == id) =
      db.users.any fun u => q u && u.id == id := by
    intro id
    rw [Bool.eq_iff_iff, List.any_eq_true, List.any_eq_true]
    refine exists_congr fun u => and_congr_right fun hu => ?_
    rw [h u hu]
  simp only [Db.deleteUsers, hgone, deleteWhere_congr h]

theorem deleteUsers_none {db : Db} {p : User → Bool} (h : ∀ u ∈ db.users, p u = false) :
    db.deleteUsers p = db := by
  have hgone : ∀ id, (db.users.any fun u => p u && u.id == id) = false := by
    intro id
    rw [List.any_eq_false]
    intro u hu
    simp [h u hu]
  have hnone : ∀ {ρ : Type} (t : List ρ), deleteWhere (fun _ => false) t = t := fun t =>
    deleteWhere_of_forall_not fun _ _ => rfl
  have hany : ∀ l : List Answer, (l.any fun _ => false) = false := fun l => by simp
  have hnull : ∀ a : Option Uuid, (a.any fun _ => false) = false := fun a => by cases a <;> rfl
  simp only [Db.deleteUsers, Db.deleteAnswers, hgone, Bool.false_and, hany, hnone, hnull,
    updateWhere_of_forall_not fun _ _ => rfl, deleteWhere_of_forall_not h]

theorem purgeStrandedUsers_one (userId : Uuid) (db : Db) :
    purgeStrandedUsers [userId] db =
      if db.users.any (isStranded [userId] db) then db.deleteUsers (fun u => u.id == userId) else db := by
  split
  · rename_i hany
    obtain ⟨u₀, -, hs⟩ := List.any_eq_true.1 hany
    refine deleteUsers_congr fun u hu => ?_
    by_cases hid : u.id = userId
    · have hid₀ : u₀.id = userId := by
        simp only [isStranded, Bool.and_eq_true] at hs
        simpa using hs.1
      simpa [isStranded, hid, hid₀] using hs
    · simp [isStranded, hid]
  · rename_i hany
    exact deleteUsers_none fun u hu => by simpa using List.any_eq_false.1 (by simpa using hany) u hu

/-! ## The last owner -/

theorem memberRole?_of_mem {n : Nat} {db : Db} (h : MembersInv n db) {m : Membership}
    (hm : m ∈ db.memberships) : memberRole? m.userId m.orgId db = some m.role := by
  cases hr : memberRole? m.userId m.orgId db with
  | none =>
    have hnone := Option.map_eq_none_iff.1 hr
    simpa using List.find?_eq_none.1 hnone m hm
  | some role =>
    obtain ⟨m', hm', hu, ho, rfl⟩ := memberRole?_eq_some hr
    rw [Table.eq_of_key h.keys hm' hm (Prod.ext hu ho)]

/-- An owner other than `userId` is left, unless the check the calls make says they are the last. -/
theorem other_owner_iff {n : Nat} {db : Db} (h : MembersInv n db) {orgId userId : Uuid}
    (hown : HasOwner orgId db) :
    (∃ m ∈ db.memberships, m.orgId = orgId ∧ m.role = .owner ∧ m.userId ≠ userId) ↔
      ¬ (memberRole? userId orgId db = some .owner ∧ ownerCount orgId db = 1) := by
  set owners := db.memberships.filter fun m => m.orgId == orgId && m.role == .owner with howners
  have hmem : ∀ m, m ∈ owners ↔ m ∈ db.memberships ∧ m.orgId = orgId ∧ m.role = .owner := by
    intro m
    simp [howners]
  constructor
  · rintro ⟨m, hm, ho, hr, hne⟩ ⟨hrole, hone⟩
    obtain ⟨a, ha⟩ := List.length_eq_one_iff.1 hone
    obtain ⟨m', hm', hu', ho', hr'⟩ := memberRole?_eq_some hrole
    have h1 : m ∈ owners := (hmem m).2 ⟨hm, ho, hr⟩
    have h2 : m' ∈ owners := (hmem m').2 ⟨hm', ho', hr'⟩
    rw [howners, ha, List.mem_singleton] at h1 h2
    exact hne (by rw [h1, ← h2, hu'])
  · intro hlast
    by_contra hno
    have hall : ∀ m ∈ owners, m.userId = userId := by
      intro m hm
      obtain ⟨hm, ho, hr⟩ := (hmem m).1 hm
      by_contra hne
      exact hno ⟨m, hm, ho, hr, hne⟩
    obtain ⟨m, hm, ho, hr⟩ := hown
    have hmo : m ∈ owners := (hmem m).2 ⟨hm, ho, hr⟩
    have heq : ∀ m' ∈ owners, m' = m := by
      intro m' hm'
      obtain ⟨hm'', ho', -⟩ := (hmem m').1 hm'
      refine Table.eq_of_key h.keys hm'' hm (Prod.ext ?_ (ho'.trans ho.symm))
      exact (hall m' hm').trans (hall m hmo).symm
    have hone : owners.length = 1 := by
      have hnd : owners.Nodup := (List.Nodup.of_map _ h.keys).filter _
      rw [List.eq_replicate_of_mem heq, List.nodup_replicate] at hnd
      have := List.length_pos_of_mem hmo
      omega
    have hrole := memberRole?_of_mem h hm
    rw [hall m hmo, ho, hr] at hrole
    exact hlast ⟨hrole, hone⟩

theorem hasOwner_demoted {orgId userId : Uuid} {role : Role} (hrole : role ≠ .owner) {db : Db} :
    HasOwner orgId (updateRole userId orgId role db) ↔
      ∃ m ∈ db.memberships, m.orgId = orgId ∧ m.role = .owner ∧ m.userId ≠ userId := by
  constructor
  · rintro ⟨m, hm, ho, hr⟩
    obtain ⟨m₀, hm₀, rfl⟩ := mem_updateWhere.1 hm
    by_cases hp : m₀.userId = userId ∧ m₀.orgId = orgId
    · simp only [hp, beq_self_eq_true, Bool.and_self, if_true] at hr
      exact absurd hr hrole
    · have hp' : (m₀.userId == userId && m₀.orgId == orgId) = false := by simpa using hp
      simp only [hp', Bool.false_eq_true, if_false] at ho hr
      exact ⟨m₀, hm₀, ho, hr, fun hu => hp ⟨hu, ho⟩⟩
  · rintro ⟨m, hm, ho, hr, hu⟩
    exact ⟨m, mem_updateWhere.2 ⟨m, hm, by simp [hu]⟩, ho, hr⟩

theorem hasOwner_promoted {orgId userId : Uuid} {db : Db} (h : HasOwner orgId db) :
    HasOwner orgId (updateRole userId orgId .owner db) := by
  obtain ⟨m, hm, ho, hr⟩ := h
  refine ⟨_, mem_updateWhere.2 ⟨m, hm, rfl⟩, ?_⟩
  split
  · exact ⟨ho, rfl⟩
  · exact ⟨ho, hr⟩

/-- What `remove_member` has written when it commits. -/
def removal (userId orgId : Uuid) (member purge : Bool) (db : Db) : Db :=
  (if purge then (·.deleteUsers fun u => u.id == userId) else id)
    ((if member then deleteMembership userId orgId else id) db)

theorem mem_deleteMembership {userId orgId : Uuid} {db : Db} {m : Membership} :
    m ∈ (deleteMembership userId orgId db).memberships ↔
      m ∈ db.memberships ∧ ¬ (m.userId = userId ∧ m.orgId = orgId) := by
  simp only [deleteMembership, mem_deleteWhere, Bool.and_eq_false_iff, beq_eq_false_iff_ne, ne_eq,
    not_and_or]

/-- The cascade of a user's deletion. -/
theorem mem_deleteUser {userId : Uuid} {db : Db} {m : Membership} (hm : db.hasUser m.userId = true) :
    m ∈ (db.deleteUsers fun u => u.id == userId).memberships ↔
      m ∈ db.memberships ∧ m.userId ≠ userId := by
  obtain ⟨u, hum, hid⟩ := List.any_eq_true.1 hm
  simp only [Db.deleteUsers, mem_deleteWhere, List.any_eq_false, Bool.and_eq_true, beq_iff_eq, not_and]
  refine and_congr_right fun _ => ⟨fun h he => ?_, fun hne u' _ hu' he => hne (he.symm.trans hu')⟩
  rw [he] at hid h
  exact h u hum (by simpa using hid) (by simpa using hid)

theorem mem_removal {n : Nat} {db : Db} (h : MembersInv n db) (orgId userId : Uuid) (member purge : Bool)
    {m : Membership} : m ∈ (removal userId orgId member purge db).memberships ↔
      m ∈ db.memberships ∧ ¬ (member = true ∧ m.userId = userId ∧ m.orgId = orgId) ∧
        ¬ (purge = true ∧ m.userId = userId) := by
  have hmember : m ∈ ((if member then deleteMembership userId orgId else id) db).memberships ↔
      m ∈ db.memberships ∧ ¬ (member = true ∧ m.userId = userId ∧ m.orgId = orgId) := by
    cases member
    · simp
    · simpa using mem_deleteMembership
  cases purge
  · simpa [removal] using hmember
  · set db₁ := (if member then deleteMembership userId orgId else id) db with hdb₁
    have husers : ∀ id, db₁.hasUser id = db.hasUser id := by
      intro id
      rw [hdb₁]
      cases member <;> rfl
    have hpurge : m ∈ (db₁.deleteUsers fun u => u.id == userId).memberships ↔
        m ∈ db₁.memberships ∧ m.userId ≠ userId := by
      refine ⟨fun hm => ?_, fun hm => ?_⟩
      · have hm₁ : m ∈ db₁.memberships := sublist_deleteWhere.subset hm
        exact (mem_deleteUser (by rw [husers]; exact h.user m (hmember.1 hm₁).1)).1 hm
      · exact (mem_deleteUser (by rw [husers]; exact h.user m (hmember.1 hm.1).1)).2 hm
    rw [removal, if_pos rfl, ← hdb₁]
    simp only [hpurge, hmember, true_and, ne_eq, and_assoc]

theorem hasOwner_removed {n : Nat} {db : Db} (h : MembersInv n db) {orgId userId : Uuid}
    {member purge : Bool} (hwrites : member = true ∨ purge = true) :
    HasOwner orgId (removal userId orgId member purge db) ↔
      ∃ m ∈ db.memberships, m.orgId = orgId ∧ m.role = .owner ∧ m.userId ≠ userId := by
  refine exists_congr fun m => ?_
  rw [mem_removal h orgId userId member purge]
  constructor
  · rintro ⟨⟨hm, h1, h2⟩, ho, hr⟩
    refine ⟨hm, ho, hr, fun hu => ?_⟩
    rcases hwrites with hw | hw
    · exact h1 ⟨hw, hu, ho⟩
    · exact h2 ⟨hw, hu⟩
  · rintro ⟨hm, ho, hr, hu⟩
    exact ⟨⟨hm, fun h => hu h.2.1, fun h => hu h.2⟩, ho, hr⟩

theorem MembersInv.removal {n : Nat} {db : Db} (h : MembersInv n db) {orgId userId : Uuid}
    {member purge : Bool} : MembersInv n (removal userId orgId member purge db) := by
  have hsub : (Proofs.removal userId orgId member purge db).memberships.Sublist db.memberships := by
    cases member <;> cases purge
    · exact List.Sublist.refl _
    · exact sublist_deleteWhere
    · exact sublist_deleteWhere
    · exact sublist_deleteWhere.trans sublist_deleteWhere
  refine ⟨h.keys.sublist (hsub.map _), fun m hm => ?_, fun m hm => h.fresh m (hsub.subset hm)⟩
  obtain ⟨hm₀, -, hp⟩ := (mem_removal h orgId userId member purge).1 hm
  obtain ⟨u, hu, hid⟩ := List.any_eq_true.1 (h.user m hm₀)
  have hid' : u.id = m.userId := by simpa using hid
  cases hpurge : purge
  · cases member <;> exact h.user m hm₀
  · have hne : u.id ≠ userId := fun he => hp ⟨hpurge, hid'.symm.trans he⟩
    have hkept : u ∈ deleteWhere (fun u => u.id == userId) db.users :=
      mem_deleteWhere.2 ⟨hu, by simpa using hne⟩
    cases member <;> exact List.any_eq_true.2 ⟨u, hkept, hid⟩

end KnowledgeDesk.Proofs
