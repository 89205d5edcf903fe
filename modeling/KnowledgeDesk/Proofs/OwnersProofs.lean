import KnowledgeDesk.MemberCalls
import KnowledgeDesk.Proofs.MembersProofs

/-!
# Owners under concurrency

The last-owner checks of `set_member_role` and `remove_member` read before they write, and nothing holds
what they read until they commit. An org keeps an owner as long as no call takes the role of an owner
after another has done so since its last read: then what its check has shown is still true.
-/

open Table

namespace KnowledgeDesk.Proofs

open ReadCommitted Runs

variable {env : Env}

/-! ## Run alone, the calls are their transactions -/

theorem setMemberRoleProg_serial (ctx : AuthContext) (userId : Uuid) (role : Role) (db : Db) :
    (setMemberRoleProg ctx userId role).serial db = setMemberRoleTx ctx userId role db := by
  simp only [setMemberRoleProg, setMemberRoleTx, Prog.serial]
  cases hrole : memberRole? userId ctx.orgId db with
  | none => rfl
  | some target =>
    have hmem := isMember_of_memberRole? hrole
    by_cases hown : target = .owner ∧ role ≠ .owner
    · by_cases hone : ownerCount ctx.orgId db = 1
      · simp [hown, hone, Prog.serial]
      · simp [hown, hone, Prog.serial, updateRoleStmt, hmem]
    · have hno : ¬ (target = .owner ∧ role ≠ .owner ∧ ownerCount ctx.orgId db = 1) :=
        fun h => hown ⟨h.1, h.2.1⟩
      simp [hown, hno, Prog.serial, updateRoleStmt, hmem]

theorem removeMemberProg_serial (ctx : AuthContext) (userId : Uuid) (db : Db) :
    (removeMemberProg ctx userId).serial db = removeMemberTx ctx userId db := by
  simp only [removeMemberProg, removeMemberTx, Prog.serial]
  cases hrole : memberRole? userId ctx.orgId db with
  | none => rfl
  | some target =>
    have hmem := isMember_of_memberRole? hrole
    have hdel : (deleteMemberStmts userId ctx.orgId).serial db =
        .ok ((), purgeStrandedUsers [userId] (deleteMembership userId ctx.orgId db)) := by
      simp only [deleteMemberStmts, purgeStmt, Prog.serial, hmem, if_true, purgeStrandedUsers_one]
      split <;> rfl
    by_cases hown : target = .owner
    · by_cases hone : ownerCount ctx.orgId db = 1
      · simp [hown, hone, Prog.serial]
      · simpa [hown, hone, Prog.serial] using hdel
    · simpa [hown, Prog.serial] using hdel

theorem addMemberProg_serial (orgId : Uuid) (email password : String) (role : Role) (salt : String)
    (now : Time) (fresh : Uuid) (db : Db) :
    (addMemberProg env orgId email password role salt now fresh).serial db =
      (addMember env orgId email password role salt fresh now db).map fun r => ((), r.2) := by
  by_cases hu : (db.users.any fun u => u.email == normalizeEmail env email) = true
  · have hins : insertUser (normalizeEmail env email) (env.hashPassword password salt) fresh db =
        .error .uniqueViolation := by
      rw [insertUser, if_pos hu]
    simp only [addMemberProg, addMember, Prog.serial, hins]
    rfl
  · obtain ⟨db₁, hdb₁, hins⟩ : ∃ db₁ : Db, { db with users := db.users ++
        [⟨fresh, normalizeEmail env email, env.hashPassword password salt⟩] } = db₁ ∧
        insertUser (normalizeEmail env email) (env.hashPassword password salt) fresh db = .ok db₁ :=
      ⟨_, rfl, by rw [insertUser, if_neg hu]⟩
    simp only [addMemberProg, addMember, Prog.serial, hins, insertMembershipStmt, hdb₁, bind, Except.bind]
    cases hm : insertMembership fresh orgId role now db₁ with
    | error e => cases e <;> rfl
    | ok db₂ =>
      obtain ⟨-, -, rfl⟩ := insertMembership_ok hm
      rfl

/-! ## What the calls commit -/

/-- What a call has locked and written when it commits: nothing, or the write it is for. -/
inductive MemberWrite : MemberCall → Nat → List RowKey → (Db → Db) → Prop
  | none {call : MemberCall} {fresh : Nat} : MemberWrite call fresh [] id
  | role {ctx : AuthContext} {userId : Uuid} {role : Role} {fresh : Nat} :
      MemberWrite (.setMemberRole ctx userId role) fresh [.membership userId ctx.orgId]
        (updateRole userId ctx.orgId role)
  | removal {ctx : AuthContext} {userId : Uuid} {fresh : Nat} {locks : List RowKey} (member purge : Bool)
      (hlocks : locks ≠ []) (hwrites : member = true ∨ purge = true) :
      MemberWrite (.removeMember ctx userId) fresh locks fun db =>
        (if purge then (·.deleteUsers fun u => u.id == userId) else id)
          ((if member then deleteMembership userId ctx.orgId else id) db)
  | added {ctx : AuthContext} {email password : String} {role : Role} {salt : String} {now : Time}
      {fresh : Nat} {locks : List RowKey} (user : User) (hid : user.id = fresh) :
      MemberWrite (.addMember ctx email password role salt now) fresh locks fun db =>
        { db with
          users := db.users ++ [user]
          memberships := db.memberships ++ [⟨fresh, ctx.orgId, role, now⟩] }

theorem updateRoleStmt_commits (ctx : AuthContext) (userId : Uuid) (role : Role) (fresh : Nat) :
    (updateRoleStmt userId ctx.orgId role).Commits
      (MemberWrite (.setMemberRole ctx userId role) fresh) [] id := by
  intro view
  by_cases hm : isMember userId ctx.orgId view = true
  · simp only [hm, if_true]
    exact MemberWrite.role
  · simp only [hm]
    exact MemberWrite.none

theorem deleteMemberStmts_commits (ctx : AuthContext) (userId : Uuid) (fresh : Nat) :
    (deleteMemberStmts userId ctx.orgId).Commits
      (MemberWrite (.removeMember ctx userId) fresh) [] id := by
  intro view view'
  by_cases hm : isMember userId ctx.orgId view = true <;>
    by_cases hs : view'.users.any (isStranded [userId] view') = true <;>
    simp only [hm, hs, if_true]
  · exact MemberWrite.removal true true (by simp) (.inl rfl)
  · exact MemberWrite.removal true false (by simp) (.inl rfl)
  · exact MemberWrite.removal false true (by simp) (.inr rfl)
  · exact MemberWrite.none

/-- Every call commits a write of its own kind. -/
theorem program_commits (call : MemberCall) (fresh : Nat) :
    (call.program env fresh).Commits (MemberWrite call fresh) [] id := by
  unfold MemberCall.program
  split
  · trivial
  · cases call with
    | setMemberRole ctx userId role =>
      intro view
      dsimp only
      split
      · trivial
      · split
        · intro view'
          dsimp only
          split
          · trivial
          · exact updateRoleStmt_commits ctx userId role fresh
        · exact updateRoleStmt_commits ctx userId role fresh
    | removeMember ctx userId =>
      intro view
      dsimp only
      split
      · trivial
      · split
        · intro view'
          dsimp only
          split
          · trivial
          · exact deleteMemberStmts_commits ctx userId fresh
        · exact deleteMemberStmts_commits ctx userId fresh
    | addMember ctx email password role salt now =>
      intro view
      dsimp only
      split
      · rename_i db₁ hins
        intro view'
        simp only [hins]
        cases hm : insertMembership fresh ctx.orgId role now view' with
        | ok db₂ =>
          exact MemberWrite.added ⟨fresh, normalizeEmail env email, env.hashPassword password salt⟩ rfl
        | error e => cases e <;> trivial
      · trivial
      · trivial

/-! ## Commits keep the constraints -/

theorem MemberWrite.orgs {call : MemberCall} {fresh : Nat} {locks : List RowKey} {f : Db → Db}
    (h : MemberWrite call fresh locks f) (db : Db) : (f db).orgs = db.orgs := by
  cases h with
  | none | role | added => rfl
  | removal member purge => cases member <;> cases purge <;> rfl

/-- A commit keeps the constraints, and brings no user but the one whose id was drawn for it. -/
theorem MemberWrite.members {call : MemberCall} {fresh n : Nat} {locks : List RowKey} {f : Db → Db}
    (hf : MemberWrite call fresh locks f) {db : Db} (h : MembersInv n db) (hn : fresh < n)
    (hunused : ∀ m ∈ db.memberships, m.userId ≠ fresh) :
    MembersInv n (f db) ∧
      ∀ m ∈ (f db).memberships, (∃ m₀ ∈ db.memberships, m₀.userId = m.userId) ∨ m.userId = fresh := by
  cases hf with
  | none => exact ⟨h, fun m hm => .inl ⟨m, hm, rfl⟩⟩
  | @role ctx userId role =>
    have hold : ∀ m ∈ (updateRole userId ctx.orgId role db).memberships,
        ∃ m₀ ∈ db.memberships, m₀.userId = m.userId := by
      intro m hm
      obtain ⟨m₀, hm₀, rfl⟩ := mem_updateWhere.1 hm
      refine ⟨m₀, hm₀, ?_⟩
      split <;> rfl
    refine ⟨⟨?_, fun m hm => ?_, fun m hm => ?_⟩, fun m hm => .inl (hold m hm)⟩
    · have hmap : (updateRole userId ctx.orgId role db).memberships.map
          (fun m => (m.userId, m.orgId)) = db.memberships.map fun m => (m.userId, m.orgId) :=
        map_updateWhere _ fun _ => rfl
      rw [hmap]
      exact h.keys
    · obtain ⟨m₀, hm₀, he⟩ := hold m hm
      rw [← he]
      exact h.user m₀ hm₀
    · obtain ⟨m₀, hm₀, he⟩ := hold m hm
      rw [← he]
      exact h.fresh m₀ hm₀
  | @removal ctx userId _ _ member purge =>
    refine ⟨h.removal, fun m hm => .inl ⟨m, ?_, rfl⟩⟩
    exact ((mem_removal h ctx.orgId userId member purge).1 hm).1
  | @added ctx email password role salt now _ _ user hid =>
    refine ⟨⟨?_, fun m hm => ?_, fun m hm => ?_⟩, fun m hm => ?_⟩
    · rw [List.map_append, List.nodup_append]
      refine ⟨h.keys, by simp, ?_⟩
      simp only [List.mem_map, List.map_cons, List.map_nil, List.mem_singleton]
      rintro _ ⟨m, hm, rfl⟩ _ rfl he
      exact hunused m hm (congrArg (·.1) he)
    · simp only [Db.hasUser, List.any_append, Bool.or_eq_true]
      rcases List.mem_append.1 hm with hm | hm
      · exact .inl (h.user m hm)
      · rw [List.mem_singleton.1 hm]
        simp [hid]
    · rcases List.mem_append.1 hm with hm | hm
      · exact h.fresh m hm
      · rw [List.mem_singleton.1 hm]
        exact hn
    · rcases List.mem_append.1 hm with hm | hm
      · exact .inl ⟨m, hm, rfl⟩
      · rw [List.mem_singleton.1 hm]
        exact .inr rfl

/-! ## The owners of an org over a run -/

/-- The invariant of sessions that run calls of one org. -/
structure SystemInv (orgId : Uuid) (s : MemberSystem) : Prop where
  sessions : SessionsInv MemberWrite s
  members : MembersInv s.drawn s.store
  unused : ∀ i t, s.sessions i = some t → ∀ m ∈ s.store.memberships, m.userId ≠ t.drawn
  ofOrg : ∀ i t, s.sessions i = some t → t.call.orgId = orgId
  org : s.store.hasOrg orgId = true

/-- The label starts no call of another org. -/
def OfOrg (orgId : Uuid) : Label MemberCall → Prop
  | .start _ call => call.orgId = orgId
  | _ => True

/-- The step commits a demotion or a removal of whom the calls' own check, made again on the state
committed so far, finds to be the last owner. -/
def TakesLastOwner (orgId : Uuid) (s : MemberSystem) : Label MemberCall → Prop
  | .advance i => ∃ t ∈ s.sessions i, t.prog.isDone = true ∧ s.locksOf i ≠ [] ∧
      ∃ userId ∈ t.call.demotes, memberRole? userId orgId s.store = some .owner ∧
        ownerCount orgId s.store = 1
  | _ => False

instance (orgId : Uuid) (s : MemberSystem) : ∀ l, Decidable (TakesLastOwner orgId s l)
  | .advance i => inferInstanceAs (Decidable (∃ t ∈ s.sessions i, t.prog.isDone = true ∧
      s.locksOf i ≠ [] ∧ ∃ userId ∈ t.call.demotes, memberRole? userId orgId s.store = some .owner ∧
        ownerCount orgId s.store = 1))
  | .start .. | .kill _ => inferInstanceAs (Decidable False)

/-- Every step of calls of the org keeps the invariant. -/
theorem systemInv_step {orgId : Uuid} {s : MemberSystem} (h : SystemInv orgId s) {l : Label MemberCall}
    (hl : OfOrg orgId l) : SystemInv orgId (memberStep env s l) := by
  have hsessions : SessionsInv MemberWrite (memberStep env s l) :=
    sessionsInv_step (fun call n => program_commits call n) h.sessions l
  have hof : ∀ i t, (memberStep env s l).sessions i = some t → t.call.orgId = orgId := by
    intro i t ht
    rcases session_step ht with ⟨t₀, ht₀, hc, -⟩ | ⟨rfl, -⟩
    · rw [← hc]
      exact h.ofOrg i t₀ ht₀
    · exact hl
  have hdrawn := drawn_le_step (MemberCall.program env) s l
  rcases store_step (MemberCall.program env) s l with ⟨hstore, -⟩ | ⟨i, t, a, rfl, ht, hp, hstep⟩
  · refine ⟨hsessions, ?_, fun i t ht m hm => ?_, hof, ?_⟩
    · simpa only [memberStep, hstore] using h.members.mono hdrawn
    · rw [memberStep, hstore] at hm
      rcases session_step ht with ⟨t₀, ht₀, -, hd⟩ | ⟨-, hd⟩
      · rw [← hd]
        exact h.unused i t₀ ht₀ m hm
      · rw [hd]
        exact Nat.ne_of_lt (h.members.fresh m hm)
    · simpa only [memberStep, hstore] using h.org
  · have hwrite := h.sessions.commits i t ht
    rw [hp] at hwrite
    obtain ⟨hmembers, hnew⟩ := MemberWrite.members hwrite h.members (h.sessions.below i t ht)
      (h.unused i t ht)
    have hs : memberStep env s (.advance i) = s.close i (t.pending s.store) := hstep
    rw [hs] at hsessions hof ⊢
    refine ⟨hsessions, hmembers, fun j u hj m hm => ?_, hof, ?_⟩
    · have hji : j ≠ i := by
        rintro rfl
        simp [State.close] at hj
      have hju : s.sessions j = some u := by simpa [State.close, hji] using hj
      rcases hnew m hm with ⟨m₀, hm₀, he⟩ | he
      · rw [← he]
        exact h.unused j u hju m₀ hm₀
      · rw [he]
        exact fun hd => hji (h.sessions.apart j i u t hju ht hd.symm)
    · have horgs : (s.close i (t.pending s.store)).store.orgs = s.store.orgs := hwrite.orgs s.store
      simpa only [Db.hasOrg, horgs] using h.org

/-- One step: the org keeps an owner unless the step takes the last one. -/
theorem hasOwner_step {orgId : Uuid} {s : MemberSystem} (h : SystemInv orgId s)
    (hown : HasOwner orgId s.store) (l : Label MemberCall) :
    HasOwner orgId (memberStep env s l).store ↔ ¬ TakesLastOwner orgId s l := by
  rcases store_step (MemberCall.program env) s l with ⟨hstore, hno⟩ | ⟨i, t, a, rfl, ht, hp, hstep⟩
  · rw [memberStep, hstore]
    refine ⟨fun _ htakes => ?_, fun _ => hown⟩
    cases l with
    | start i call => exact htakes
    | kill i => exact htakes
    | advance i =>
      obtain ⟨t, ht, hd, -⟩ := htakes
      obtain ⟨a, hp⟩ := Prog.isDone_iff.1 hd
      exact hno i t a rfl ht hp
  · have hs : (memberStep env s (.advance i)).store = t.pending s.store := congrArg State.store hstep
    have hwrite := h.sessions.commits i t ht
    rw [hp] at hwrite
    -- the condition, said of the session that commits
    have htakes : TakesLastOwner orgId s (.advance i) ↔ s.locksOf i ≠ [] ∧
        ∃ userId, t.call.demotes = some userId ∧ memberRole? userId orgId s.store = some .owner ∧
          ownerCount orgId s.store = 1 := by
      constructor
      · rintro ⟨u, hu, -, hlocks, hd⟩
        obtain rfl := Option.some.inj (ht.symm.trans hu)
        exact ⟨hlocks, hd⟩
      · rintro ⟨hlocks, hd⟩
        exact ⟨t, ht, Prog.isDone_iff.2 ⟨a, hp⟩, hlocks, hd⟩
    have horg := h.ofOrg i t ht
    rw [hs, htakes]
    have hkeep : (∀ userId, t.call.demotes ≠ some userId) → HasOwner orgId (t.pending s.store) →
        (HasOwner orgId (t.pending s.store) ↔ ¬ (s.locksOf i ≠ [] ∧ ∃ userId,
          t.call.demotes = some userId ∧ memberRole? userId orgId s.store = some .owner ∧
            ownerCount orgId s.store = 1)) :=
      fun hd hk => ⟨fun _ ⟨_, userId, hu, _⟩ => hd userId hu, fun _ => hk⟩
    have hdemote : ∀ userId, t.call.demotes = some userId → s.locksOf i ≠ [] →
        (HasOwner orgId (t.pending s.store) ↔
          ∃ m ∈ s.store.memberships, m.orgId = orgId ∧ m.role = .owner ∧ m.userId ≠ userId) →
        (HasOwner orgId (t.pending s.store) ↔ ¬ (s.locksOf i ≠ [] ∧ ∃ userId,
          t.call.demotes = some userId ∧ memberRole? userId orgId s.store = some .owner ∧
            ownerCount orgId s.store = 1)) := by
      intro userId hd hlocks hiff
      rw [hiff, other_owner_iff h.members hown]
      refine not_congr ⟨fun hc => ⟨hlocks, userId, hd, hc⟩, fun ⟨_, u, hu, hc⟩ => ?_⟩
      obtain rfl := Option.some.inj (hd.symm.trans hu)
      exact hc
    generalize hcall : t.call = call at hwrite horg hkeep hdemote
    generalize hlk : s.locksOf i = locks at hwrite hkeep hdemote
    generalize hpend : t.pending = f at hwrite hkeep hdemote
    cases hwrite with
    | none => exact ⟨fun _ hc => hc.1 rfl, fun _ => hown⟩
    | @role ctx userId role =>
      obtain rfl : ctx.orgId = orgId := horg
      by_cases hr : role = .owner
      · subst hr
        exact hkeep (by simp [MemberCall.demotes]) (hasOwner_promoted hown)
      · exact hdemote userId (by simp [MemberCall.demotes, hr]) (by simp) (hasOwner_demoted hr)
    | @removal ctx userId _ _ member purge hlocks hwrites =>
      obtain rfl : ctx.orgId = orgId := horg
      exact hdemote userId rfl hlocks (hasOwner_removed h.members hwrites)
    | added user hid =>
      obtain ⟨m, hm, ho⟩ := hown
      exact hkeep (by simp [MemberCall.demotes]) ⟨m, List.mem_append_left _ hm, ho⟩

/-! ## An org that `create_org_with_owner` made -/

/-- The org starts with its owner, under the constraints. -/
theorem systemInv_created {orgSlug orgName email password salt : String} {freshOrg freshUser : Uuid}
    {now : Time} {db₀ db : Db} {ctx : AuthContext} {n : Nat} (h : MembersInv n db₀) (hn : freshUser < n)
    (hc : createOrgWithOwner env orgSlug orgName email password salt freshOrg freshUser now db₀ =
      .ok (ctx, db)) :
    SystemInv ctx.orgId (atRest db n) ∧ HasOwner ctx.orgId db := by
  obtain ⟨-, horg, hnew, user, hid, -, rfl⟩ := createOrgWithOwner_ok hc
  refine ⟨⟨sessionsInv_atRest _ n, ⟨?_, fun m hm => ?_, fun m hm => ?_⟩, fun i t ht => ?_,
    fun i t ht => ?_, ?_⟩, ⟨freshUser, freshOrg, .owner, now⟩, by simp, horg.symm, rfl⟩
  · simp only [atRest, List.map_append, List.nodup_append]
    refine ⟨h.keys, by simp, ?_⟩
    simp only [List.mem_map, List.map_cons, List.map_nil, List.mem_singleton]
    rintro _ ⟨m, hm, rfl⟩ _ rfl he
    obtain ⟨hu, ho⟩ := Prod.mk.inj he
    exact hnew m hm hu ho
  · simp only [atRest, Db.hasUser, List.any_append, Bool.or_eq_true]
    rcases List.mem_append.1 hm with hm | hm
    · exact .inl (h.user m hm)
    · rw [List.mem_singleton.1 hm]
      simp [hid]
  · rcases List.mem_append.1 hm with hm | hm
    · exact h.fresh m hm
    · rw [List.mem_singleton.1 hm]
      exact hn
  · simp [atRest] at ht
  · simp [atRest] at ht
  · simp [atRest, Db.hasOrg, horg]

/-! ## What the checks have shown -/

/-- The last-owner check lets the user be demoted or removed. -/
def SparesOwner (orgId userId : Uuid) (db : Db) : Prop :=
  ¬ (memberRole? userId orgId db = some .owner ∧ ownerCount orgId db = 1)

/-- The step commits a demotion or a removal of an owner of the org. -/
def TakesOwner (orgId : Uuid) (s : MemberSystem) : Label MemberCall → Prop
  | .advance i => ∃ t ∈ s.sessions i, t.prog.isDone = true ∧ s.locksOf i ≠ [] ∧
      ∃ userId ∈ t.call.demotes, memberRole? userId orgId s.store = some .owner
  | _ => False

instance (orgId : Uuid) (s : MemberSystem) : ∀ l, Decidable (TakesOwner orgId s l)
  | .advance i => inferInstanceAs (Decidable (∃ t ∈ s.sessions i, t.prog.isDone = true ∧
      s.locksOf i ≠ [] ∧ ∃ userId ∈ t.call.demotes, memberRole? userId orgId s.store = some .owner))
  | .start .. | .kill _ => inferInstanceAs (Decidable False)

/-- Whose last read is out of date: an owner of the org has been demoted or removed since. -/
def outdated (orgId : Uuid) (s : MemberSystem) (l : Label MemberCall) (old : Nat → Bool) : Nat → Bool :=
  fun i => if s.reads i l then false else if TakesOwner orgId s l then true else old i

/-- The step takes the role of an owner, and the last read of the call is out of date. -/
def TakesUnchecked (orgId : Uuid) (p : MemberSystem × (Nat → Bool)) : Label MemberCall → Prop
  | .advance i => TakesOwner orgId p.1 (.advance i) ∧ p.2 i = true
  | _ => False

instance (orgId : Uuid) (p : MemberSystem × (Nat → Bool)) : ∀ l, Decidable (TakesUnchecked orgId p l)
  | .advance i => inferInstanceAs (Decidable (TakesOwner orgId p.1 (.advance i) ∧ p.2 i = true))
  | .start .. | .kill _ => inferInstanceAs (Decidable False)

/-- Someone else is an owner of the org. -/
def OtherOwner (orgId userId : Uuid) (db : Db) : Prop :=
  ∃ m ∈ db.memberships, m.orgId = orgId ∧ m.role = .owner ∧ m.userId ≠ userId

/-- The calls check what they read before they write. -/
theorem program_readsFirst {call : MemberCall} {userId : Uuid} (hd : call.demotes = some userId)
    (fresh : Nat) :
    (call.program env fresh).ReadsFirst (SparesOwner call.orgId userId) false False := by
  unfold MemberCall.program
  split
  · trivial
  · cases call with
    | setMemberRole ctx target role =>
      obtain ⟨hrole, rfl⟩ : role ≠ .owner ∧ target = userId := by
        simpa [MemberCall.demotes] using hd
      refine ⟨rfl, fun view => ?_⟩
      dsimp only
      split
      · trivial
      · rename_i r hm
        split
        · refine ⟨rfl, fun view' => ?_⟩
          dsimp only
          split
          · trivial
          · rename_i hcount
            exact fun _ h => hcount h.2
        · rename_i hno
          exact fun _ h => hno ⟨Option.some.inj (hm.symm.trans h.1), hrole⟩
    | removeMember ctx target =>
      obtain rfl : target = userId := by simpa [MemberCall.demotes] using hd
      refine ⟨rfl, fun view => ?_⟩
      dsimp only
      split
      · trivial
      · rename_i r hm
        split
        · refine ⟨rfl, fun view' => ?_⟩
          dsimp only
          split
          · trivial
          · rename_i hcount
            exact fun _ _ h => hcount h.2
        · rename_i hno
          exact fun _ _ h => hno (Option.some.inj (hm.symm.trans h.1))
    | addMember => cases hd

/-- A commit that takes the role from no owner leaves everybody else's owners. -/
theorem otherOwner_kept {call : MemberCall} {fresh n : Nat} {locks : List RowKey} {f : Db → Db}
    (hf : MemberWrite call fresh locks f) {db : Db} (h : MembersInv n db) {orgId userId : Uuid}
    (horg : call.orgId = orgId)
    (hno : locks ≠ [] → ∀ u, call.demotes = some u → memberRole? u orgId db ≠ some .owner)
    (ho : OtherOwner orgId userId db) : OtherOwner orgId userId (f db) := by
  obtain ⟨m, hm, hmorg, hrole, hne⟩ := ho
  have hmrole : memberRole? m.userId orgId db = some .owner := by
    rw [← hmorg, ← hrole]
    exact memberRole?_of_mem h hm
  cases hf with
  | none => exact ⟨m, hm, hmorg, hrole, hne⟩
  | @role ctx u role =>
    obtain rfl : ctx.orgId = orgId := horg
    refine ⟨_, mem_updateWhere.2 ⟨m, hm, rfl⟩, ?_⟩
    by_cases hr : role = .owner
    · split
      · exact ⟨hmorg, hr, hne⟩
      · exact ⟨hmorg, hrole, hne⟩
    · have hu : m.userId ≠ u := by
        rintro rfl
        exact hno (by simp) _ (by simp [MemberCall.demotes, hr]) hmrole
      simp [hu, hmorg, hrole, hne]
  | @removal ctx u _ _ member purge hlocks hwrites =>
    obtain rfl : ctx.orgId = orgId := horg
    have hu : m.userId ≠ u := by
      rintro rfl
      exact hno hlocks _ rfl hmrole
    refine ⟨m, (mem_removal h ctx.orgId u member purge).2 ⟨hm, ?_, ?_⟩, hmorg, hrole, hne⟩
    · exact fun hc => hu hc.2.1
    · exact fun hc => hu hc.2
  | added user hid => exact ⟨m, List.mem_append_left _ hm, hmorg, hrole, hne⟩

/-- Every call that takes a role has read that another owner is left, unless that is out of date. -/
def ChecksHold (orgId : Uuid) (p : MemberSystem × (Nat → Bool)) : Prop :=
  ∀ i t userId, p.1.sessions i = some t → t.call.demotes = some userId →
    t.ReadUpToDate (SparesOwner orgId userId) (OtherOwner orgId userId p.1.store) (p.2 i)

/-- An owner the check has seen stays, over a step that takes the role from nobody. -/
theorem otherOwner_step {orgId userId : Uuid} {s : MemberSystem} (h : SystemInv orgId s)
    {l : Label MemberCall} (hno : ¬ TakesOwner orgId s l) (ho : OtherOwner orgId userId s.store) :
    OtherOwner orgId userId (memberStep env s l).store := by
  rcases store_step (MemberCall.program env) s l with ⟨hstore, -⟩ | ⟨i, t, a, rfl, ht, hp, hstep⟩
  · rwa [memberStep, hstore]
  · have hs : (memberStep env s (.advance i)).store = t.pending s.store := congrArg State.store hstep
    have hwrite := h.sessions.commits i t ht
    rw [hp] at hwrite
    rw [hs]
    refine otherOwner_kept hwrite h.members (h.ofOrg i t ht) (fun hlocks u hd hrole => ?_) ho
    exact hno ⟨t, ht, Prog.isDone_iff.2 ⟨a, hp⟩, hlocks, u, hd, hrole⟩

/-- A read shows what holds; and until it is out of date, it still does. -/
theorem checksHold_step {orgId : Uuid} {p : MemberSystem × (Nat → Bool)} (h : SystemInv orgId p.1)
    (hown : HasOwner orgId p.1.store) (hc : ChecksHold orgId p) {l : Label MemberCall}
    (hl : OfOrg orgId l) : ChecksHold orgId (noted (memberStep env) (outdated orgId) p l) := by
  obtain ⟨s, old⟩ := p
  dsimp only at h hown
  intro i t userId ht hd
  have hkept : s.reads i l = false → ∀ shown : Prop,
      (shown → old i = false → OtherOwner orgId userId s.store) →
      shown → outdated orgId s l old i = false → OtherOwner orgId userId (memberStep env s l).store := by
    intro hr shown hold hs ho
    simp only [outdated, hr, Bool.false_eq_true, if_false] at ho
    split at ho
    · cases ho
    · rename_i hno
      exact otherOwner_step h hno (hold hs ho)
  rcases session_cases ht with ⟨ht₀, hr⟩ | ⟨rfl, hnew⟩ | ⟨t₀, k, rfl, ht₀, hk, rfl⟩ |
    ⟨t₀, rows, effect, k, rfl, ht₀, hk, rfl⟩
  · obtain ⟨written, shown, hprog, hpend, hold⟩ := hc i t userId ht₀ hd
    exact ⟨written, shown, hprog, hpend, hkept hr shown hold⟩
  · obtain rfl : t.call.orgId = orgId := hl
    rw [hnew]
    exact ⟨false, False, program_readsFirst hd _, fun _ => rfl, False.elim⟩
  · -- the read: what it shows holds now
    obtain ⟨written, shown, hprog, hpend, -⟩ := hc i t₀ userId ht₀ hd
    rw [hk] at hprog
    have hstore : (memberStep env s (.advance i)).store = s.store := by
      dsimp only at ht₀
      simp [memberStep, ReadCommitted.step, ht₀, hk, State.resume]
    have hview : t₀.pending s.store = s.store := by rw [hpend hprog.1, id]
    refine ⟨false, _, hprog.2 _, fun _ => hpend hprog.1, fun hs _ => ?_⟩
    rw [hview] at hs
    change OtherOwner orgId userId (memberStep env s (.advance i)).store
    rw [hstore]
    exact (other_owner_iff h.members hown).2 hs
  · obtain ⟨written, shown, hprog, -, hold⟩ := hc i t₀ userId ht₀ hd
    rw [hk] at hprog
    have hr : s.reads i (.advance i) = false := by
      dsimp only at ht₀
      simp [State.reads, ht₀, hk, Prog.isSelect]
    exact ⟨true, shown, hprog _, by simp, hkept hr shown hold⟩

/-- One step: the org keeps an owner, unless a call takes the role on a read that is out of date. -/
theorem hasOwner_step_checked {orgId : Uuid} {p : MemberSystem × (Nat → Bool)} (h : SystemInv orgId p.1)
    (hown : HasOwner orgId p.1.store) (hc : ChecksHold orgId p) {l : Label MemberCall}
    (hl : ¬ TakesUnchecked orgId p l) : HasOwner orgId (memberStep env p.1 l).store := by
  refine (hasOwner_step h hown l).2 fun htakes => ?_
  cases l with
  | start | kill => exact htakes
  | advance i =>
    obtain ⟨t, ht, hdone, hlocks, userId, hd, hrole, hone⟩ := htakes
    have hold : p.2 i = false := by
      by_contra ho
      exact hl ⟨⟨t, ht, hdone, hlocks, userId, hd, hrole⟩, by simpa using ho⟩
    obtain ⟨written, shown, hprog, -, hholds⟩ := hc i t userId ht hd
    obtain ⟨a, ha⟩ := Prog.isDone_iff.1 hdone
    rw [ha] at hprog
    exact (other_owner_iff h.members hown).1 (hholds hprog hold) ⟨hrole, hone⟩

/-- An org keeps an owner in every committed state of a run in which no call takes the role of an owner
after another has done so since its last read. -/
theorem org_keeps_owner_unless_outdated {orgSlug orgName email password salt : String}
    {freshOrg freshUser : Uuid} {now : Time} {db₀ db : Db} {ctx : AuthContext} {n : Nat}
    (h : MembersInv n db₀) (hn : freshUser < n)
    (hc : createOrgWithOwner env orgSlug orgName email password salt freshOrg freshUser now db₀ =
      .ok (ctx, db)) {ls : List (Label MemberCall)} (hls : ∀ l ∈ ls, OfOrg ctx.orgId l)
    (hsteps : EachStep (noted (memberStep env) (outdated ctx.orgId))
      (fun p l => ¬ TakesUnchecked ctx.orgId p l) (atRest db n, fun _ => false) ls) :
    Throughout (memberStep env) (fun s => s.store.hasOrg ctx.orgId = true → HasOwner ctx.orgId s.store)
      (atRest db n) ls := by
  obtain ⟨hinv, hown⟩ := systemInv_created h hn hc
  refine throughout_of_noted (I := fun p => SystemInv ctx.orgId p.1 ∧ HasOwner ctx.orgId p.1.store ∧
    ChecksHold ctx.orgId p) (fun p l hp hl => ?_) (fun p hp _ => hp.2.1)
    ⟨hinv, hown, fun i t _ ht => by simp [atRest] at ht⟩ (eachStep_and.2 ⟨eachStep_label.2 hls, hsteps⟩)
  obtain ⟨hs, ho, hchecks⟩ := hp
  exact ⟨systemInv_step hs hl.1, hasOwner_step_checked hs ho hchecks hl.2,
    checksHold_step hs ho hchecks hl.1⟩

/-! ## Two owners who demote each other -/

/-- An owner with id 1 of the org 2, and one with id 3. -/
def ann : AuthContext := ⟨1, 2, .owner, "ann"⟩

def bob : AuthContext := ⟨3, 2, .owner, "bob"⟩

/-- The database in which Ann has just created her org. -/
def annsOrg : Db where
  orgs := [⟨2, "acme", "Acme"⟩]
  users := [⟨1, "ann", "saltpw"⟩]
  memberships := [⟨1, 2, .owner, 0⟩]

theorem annsOrg_created :
    createOrgWithOwner (asciiEnv id) "acme" "Acme" "ann" "pw" "salt" 2 1 0 {} = .ok (ann, annsOrg) := by
  decide +kernel

/-- Ann adds Bob as an owner. -/
def annAddsBob : List (Label MemberCall) :=
  [.start 0 (.addMember ann "bob" "pw" .owner "salt" 0), .advance 0, .advance 0, .advance 0]

/-- Ann and Bob demote each other, each having counted two owners before the other commits. -/
def mutualDemotion : List (Label MemberCall) :=
  [.start 0 (.setMemberRole ann 3 .admin), .start 1 (.setMemberRole bob 1 .admin),
    .advance 0, .advance 1, .advance 0, .advance 1, .advance 0, .advance 1, .advance 0, .advance 1]

/-- Both calls are under way at once, but Bob's counts the owners after Ann's has committed: the guard
refuses it. -/
theorem org_keeps_owner_counted_in_turn :
    Throughout (memberStep (asciiEnv id))
      (fun s => s.store.hasOrg ann.orgId = true → HasOwner ann.orgId s.store) (atRest annsOrg 3)
      (annAddsBob ++ [.start 0 (.setMemberRole ann 3 .admin), .start 1 (.setMemberRole bob 1 .admin),
        .advance 0, .advance 1, .advance 0, .advance 0, .advance 0, .advance 1, .advance 1]) := by
  refine org_keeps_owner_unless_outdated (membersInv_empty 3) (by decide) annsOrg_created (by
    simp [annAddsBob, OfOrg, MemberCall.orgId, MemberCall.ctx, ann, bob]) ?_
  decide +kernel

/-- Both owners demote the other and both transactions commit: the org is left with no owner. -/
theorem mutual_demotion_leaves_no_owner :
    createOrgWithOwner (asciiEnv id) "acme" "Acme" "ann" "pw" "salt" 2 1 0 {} = .ok (ann, annsOrg) ∧
      (let s := run (memberStep (asciiEnv id)) (atRest annsOrg 3) annAddsBob
       memberRole? ann.userId ann.orgId s.store = some ann.role ∧
         memberRole? bob.userId bob.orgId s.store = some bob.role) ∧
      (let s := run (memberStep (asciiEnv id)) (atRest annsOrg 3) (annAddsBob ++ mutualDemotion)
       s.store.hasOrg ann.orgId = true ∧ ¬ HasOwner ann.orgId s.store) := by
  decide +kernel

end KnowledgeDesk.Proofs
