import KnowledgeDesk.Proofs.ServiceWritesProofs

/-!
# Sessions

`AccountWrite` says what one step of the service may do to users, memberships and sessions. A user who
is left without a membership goes with it, and a new membership is of a new user: so what a session
needs in order to resolve is never given back once it is gone.
-/

open Table

namespace KnowledgeDesk.Proofs

open Service

variable {env : Env}

/-! ## What a step does to the accounts -/

/-- What a step may do to users, memberships and sessions. -/
inductive AccountWrite (env : Env) (s : Service) : Label → Db → Prop
  /-- Rows may go, and none comes. -/
  | fewer {l : Label} {db : Db} (users : ∀ u ∈ db.users, u ∈ s.db.users)
      (memberships : ∀ m ∈ db.memberships, m ∈ s.db.memberships)
      (sessions : db.sessions.Sublist s.db.sessions) : AccountWrite env s l db
  | signup {db : Db} (orgSlug orgName email password salt : String) (now : Time) (user : User) (m : Membership)
      (id : user.id = s.nextId + 1) (hash : user.passwordHash = env.hashPassword password salt)
      (member : m.userId = user.id) (org : m.orgId = s.nextId) (users : db.users = s.db.users ++ [user])
      (memberships : db.memberships = s.db.memberships ++ [m]) (sessions : db.sessions = s.db.sessions) :
      AccountWrite env s (.signup orgSlug orgName email password salt now) db
  | addMember {db : Db} (ctx : AuthContext) (email password : String) (role : Role) (salt : String)
      (now : Time) (pass : s.passes ctx (requireCanGrant ctx role) = true)
      (org : s.db.hasOrg ctx.orgId = true) (user : User) (id : user.id = s.nextId)
      (hash : user.passwordHash = env.hashPassword password salt)
      (users : db.users = s.db.users ++ [user])
      (memberships : db.memberships = s.db.memberships ++ [⟨user.id, ctx.orgId, role, now⟩])
      (sessions : db.sessions = s.db.sessions) :
      AccountWrite env s (.member (.addMember ctx email password role salt now)) db
  | setMemberRole {db : Db} (ctx : AuthContext) (userId : Uuid) (role : Role)
      (pass : s.passes ctx (setMemberRoleGate ctx userId role) = true) (users : db.users = s.db.users)
      (memberships : db.memberships = (updateRole userId ctx.orgId role s.db).memberships)
      (sessions : db.sessions = s.db.sessions) : AccountWrite env s (.member (.setMemberRole ctx userId role)) db
  | createSession {db : Db} (ctx : AuthContext) (raw : String) (now : Time) (pass : ctx ∈ s.issued)
      (new : ∀ sess ∈ s.db.sessions, sess.tokenHash ≠ env.sha256 raw)
      (user : s.db.hasUser ctx.userId = true) (users : db.users = s.db.users)
      (memberships : db.memberships = s.db.memberships)
      (sessions : db.sessions = s.db.sessions ++
        [⟨env.sha256 raw, ctx.userId, ctx.orgId, now + seconds (env.settings.sessionTtlHours * 3600)⟩]) :
      AccountWrite env s (.createSession ctx raw now) db
  | changePassword {db : Db} (ctx : AuthContext) (current new salt keepTokenHash : String)
      (pass : ctx ∈ s.issued)
      (known : ∃ user ∈ s.db.users, user.id = ctx.userId ∧ env.verifyPassword current user.passwordHash = true)
      (users : db.users = updateWhere (fun u => u.id == ctx.userId)
        (fun u => { u with passwordHash := env.hashPassword new salt }) s.db.users)
      (memberships : db.memberships = s.db.memberships)
      (sessions : db.sessions.Sublist s.db.sessions) :
      AccountWrite env s (.changePassword ctx current new salt keepTokenHash) db

theorem AccountWrite.kept {s : Service} {l : Label} {db : Db} (hu : db.users = s.db.users)
    (hm : db.memberships = s.db.memberships) (hs : db.sessions = s.db.sessions) : AccountWrite env s l db :=
  .fewer (fun _ h => hu ▸ h) (fun _ h => hm ▸ h) (hs ▸ List.Sublist.refl _)

/-- What is deleted from users, whoever they are, takes memberships and sessions with it. -/
theorem AccountWrite.purge {s : Service} {l : Label} {db : Db} (userIds : List Uuid)
    (hu : db.users = s.db.users) (hm : ∀ m ∈ db.memberships, m ∈ s.db.memberships)
    (hs : db.sessions.Sublist s.db.sessions) : AccountWrite env s l (purgeStrandedUsers userIds db) := by
  refine .fewer (fun u hum => ?_) (fun m hmm => ?_) (sublist_deleteWhere.trans hs)
  · exact hu ▸ (mem_deleteWhere.1 hum).1
  · exact hm m (mem_deleteWhere.1 hmm).1

/-- Every step is one of these. -/
theorem accountWrite_step {s : Service} (h : ServiceInv env s) (l : Label) :
    AccountWrite env s l (Service.step env s l).db := by
  cases serviceWrite_step h l with
  | aside users memberships sessions => exact .kept users memberships sessions
  | signup orgSlug orgName email password salt now ok =>
    obtain ⟨-, -, -, user, hid, hhash, hdb⟩ := createOrgWithOwner_ok ok
    rw [hdb]
    exact .signup orgSlug orgName email password salt now user _ hid hhash hid.symm rfl rfl rfl rfl
  | member call pass ok =>
    rcases MemberCall.tx_cases ok with ⟨ctx, userId, role, rfl, htx⟩ | ⟨ctx, userId, rfl, htx⟩ |
      ⟨ctx, email, password, role, salt, now, rfl, horg, user, hid, hhash, hdb⟩
    · obtain ⟨-, -, -, hdb⟩ := setMemberRoleTx_ok htx
      rw [hdb]
      exact .setMemberRole ctx userId role pass rfl rfl rfl
    · obtain ⟨-, -, -, hdb⟩ := removeMemberTx_ok htx
      rw [hdb]
      exact .purge [userId] rfl (fun m hm => (mem_deleteWhere.1 hm).1) (List.Sublist.refl _)
    · rw [hdb]
      exact .addMember ctx email password role salt now pass horg user hid hhash rfl (by rw [hid]) rfl
  | createSession ctx raw now pass ok =>
    obtain ⟨hnew, huser, hdb⟩ := createSession_ok ok
    rw [hdb]
    exact .createSession ctx raw now (passes_iff.1 pass).1 hnew huser rfl rfl rfl
  | changePassword ctx current new salt keepTokenHash pass ok =>
    obtain ⟨hknown, hdb⟩ := changePassword_ok ok
    rw [hdb]
    exact .changePassword ctx current new salt keepTokenHash (passes_iff.1 pass).1 hknown rfl rfl sublist_deleteWhere
  | sessionsDeleted p cause eq =>
    rw [eq]
    exact .fewer (fun _ hu => hu) (fun _ hm => hm) sublist_deleteWhere
  | deleteOrg ctx ok =>
    rw [deleteOrg_ok ok]
    exact .purge _ rfl (fun m hm => (mem_deleteWhere.1 hm).1) sublist_deleteWhere
  | ask stream ctx question provider refused now ok =>
    obtain ⟨-, -, a, -, -, -, -, -, -, hdb⟩ := recordAnswerTx_ok ok
    exact .kept (by rw [hdb]) (by rw [hdb]) (by rw [hdb])
  | block stream asked ok =>
    have hdb := (Prod.mk.inj (Except.ok.inj ok)).2
    exact .kept (by rw [← hdb]) (by rw [← hdb]) (by rw [← hdb])
  | finalize stream usage estimated now asked ok =>
    have hdb := (Prod.mk.inj (Except.ok.inj ok)).2
    exact .kept (by rw [← hdb]) (by rw [← hdb]) (by rw [← hdb])

/-- Ids are drawn upwards. -/
theorem service_nextId_le (s : Service) (l : Label) : s.nextId ≤ (Service.step env s l).nextId := by
  have hcommit : ∀ (tx : Tx Db Err Unit) (k : Nat), s.nextId ≤ (s.commit tx k).nextId := by
    intro tx k
    unfold Service.commit
    split
    · exact Nat.le_add_right _ _
    · exact le_refl _
  have hingest : ∀ pl, s.nextId ≤ (s.ingest env pl).nextId := fun pl => nextId_le_step s.pipeline pl
  cases l <;> simp only [Service.step] <;> (repeat' split) <;>
    first
    | exact le_refl _
    | exact hcommit _ _
    | exact hingest _
    | exact Nat.le_add_right _ _

/-- No membership comes to a user there has been. -/
theorem AccountWrite.member {s : Service} {l : Label} {db : Db} (hw : AccountWrite env s l db) {u o : Uuid}
    (hu : u < s.nextId) (hm : Member db u o) : Member s.db u o := by
  obtain ⟨m, hmm, rfl, rfl⟩ := member_iff.1 hm
  cases hw with
  | fewer _ memberships => exact member_iff.2 ⟨m, memberships m hmm, rfl, rfl⟩
  | createSession _ _ _ _ _ _ _ memberships => exact member_iff.2 ⟨m, memberships ▸ hmm, rfl, rfl⟩
  | changePassword _ _ _ _ _ _ _ _ memberships => exact member_iff.2 ⟨m, memberships ▸ hmm, rfl, rfl⟩
  | setMemberRole ctx userId role _ _ memberships =>
    rw [memberships] at hmm
    obtain ⟨m₀, hm₀, rfl⟩ := mem_updateWhere.1 hmm
    refine member_iff.2 ⟨m₀, hm₀, ?_⟩
    split <;> exact ⟨rfl, rfl⟩
  | signup _ _ _ _ _ _ user m' id _ member _ _ memberships =>
    rw [memberships] at hmm
    rcases List.mem_append.1 hmm with hmm | hmm
    · exact member_iff.2 ⟨m, hmm, rfl, rfl⟩
    · obtain rfl := List.mem_singleton.1 hmm
      exact absurd hu (by lia)
  | addMember _ _ _ _ _ _ _ _ user id _ _ memberships =>
    rw [memberships] at hmm
    rcases List.mem_append.1 hmm with hmm | hmm
    · exact member_iff.2 ⟨m, hmm, rfl, rfl⟩
    · obtain rfl := List.mem_singleton.1 hmm
      have hfresh : user.id < s.nextId := hu
      exact absurd hfresh (by lia)

/-- The tokens that sessions are created for. -/
def tokens (ls : List Label) : List String :=
  ls.filterMap fun
    | .createSession _ raw _ => some raw
    | _ => none

/-- A session a step finds or leaves is one there was, or of the token it was created for. -/
theorem AccountWrite.session {s : Service} {l : Label} {db : Db} (hw : AccountWrite env s l db)
    {sess : Session} (hs : sess ∈ db.sessions) :
    sess ∈ s.db.sessions ∨ ∃ ctx raw now, l = .createSession ctx raw now ∧ ctx ∈ s.issued ∧
      sess.tokenHash = env.sha256 raw ∧ sess.userId = ctx.userId := by
  cases hw with
  | fewer _ _ sessions => exact .inl (sessions.subset hs)
  | changePassword _ _ _ _ _ _ _ _ _ sessions => exact .inl (sessions.subset hs)
  | signup _ _ _ _ _ _ _ _ _ _ _ _ _ _ sessions => exact .inl (sessions ▸ hs)
  | addMember _ _ _ _ _ _ _ _ _ _ _ _ _ sessions => exact .inl (sessions ▸ hs)
  | setMemberRole _ _ _ _ _ _ sessions => exact .inl (sessions ▸ hs)
  | createSession ctx raw now pass _ _ _ _ sessions =>
    rw [sessions] at hs
    rcases List.mem_append.1 hs with hs | hs
    · exact .inl hs
    · obtain rfl := List.mem_singleton.1 hs
      exact .inr ⟨ctx, raw, now, rfl, pass, rfl, rfl⟩

/-! ## What a session needs in order to resolve -/

/-- Every session has a token hash of its own, and is of a user there has been. -/
structure TokensInv (n : Nat) (db : Db) : Prop where
  hashes : (db.sessions.map Session.tokenHash).Nodup
  fresh : ∀ sess ∈ db.sessions, sess.userId < n

/-- A session that resolves is a live row of the token's hash, of a member in the role of the context. -/
theorem resolveSession_eq_some {raw : String} {now : Time} {db : Db} {ctx : AuthContext}
    (h : resolveSession env raw now db = some ctx) :
    ∃ sess ∈ db.sessions, sess.tokenHash = env.sha256 raw ∧ sess.userId = ctx.userId ∧
      sess.orgId = ctx.orgId ∧ now < sess.expiresAt ∧ memberRole? ctx.userId ctx.orgId db = some ctx.role := by
  unfold resolveSession at h
  split at h
  · cases h
  · rename_i sess c hrow
    split at h
    · cases h
    · rename_i hlive
      obtain rfl := Option.some.inj h
      obtain ⟨row, hmem, hsess⟩ := List.exists_of_findSome?_eq_some hrow
      obtain ⟨hmem, hhash⟩ := List.mem_filter.1 hmem
      obtain ⟨m, hm, hu⟩ := Option.bind_eq_some_iff.1 hsess
      obtain ⟨u, -, he⟩ := Option.map_eq_some_iff.1 hu
      obtain ⟨rfl, rfl⟩ := Prod.mk.inj he
      refine ⟨row, hmem, by simpa using hhash, rfl, rfl, not_le.1 hlive, ?_⟩
      unfold memberRole?
      rw [hm]
      rfl

/-- The session has expired, or its user is no member any more. -/
def DeadSession (now : Time) (n : Nat) (db : Db) (sess : Session) : Prop :=
  sess.userId < n ∧ (sess.expiresAt ≤ now ∨ ¬ Member db sess.userId sess.orgId)

/-- Every session of the token has. -/
def DeadToken (env : Env) (raw : String) (now : Time) (n : Nat) (db : Db) : Prop :=
  ∀ sess ∈ db.sessions, sess.tokenHash = env.sha256 raw → DeadSession now n db sess

theorem AccountWrite.deadSession {s : Service} {l : Label} {now : Time} {sess : Session}
    (hw : AccountWrite env s l (Service.step env s l).db) (h : DeadSession now s.nextId s.db sess) :
    DeadSession now (Service.step env s l).nextId (Service.step env s l).db sess := by
  refine ⟨Nat.lt_of_lt_of_le h.1 (service_nextId_le s l), h.2.imp_right fun hgone hm => ?_⟩
  exact hgone (hw.member h.1 hm)

/-- A dead session does not resolve. -/
theorem DeadSession.not_resolves {raw : String} {now now' : Time} {n : Nat} {db : Db} {ctx : AuthContext}
    {sess : Session} (h : DeadSession now n db sess) (hnow : now ≤ now')
    (hctx : resolveSession env raw now' db = some ctx) (huser : sess.userId = ctx.userId)
    (horg : sess.orgId = ctx.orgId) (hlive : now' < sess.expiresAt) : False := by
  rcases h.2 with hexpired | hgone
  · exact absurd (hexpired.trans hnow) (not_le.2 hlive)
  · rw [huser, horg] at hgone
    exact hgone (resolveSession_some hctx)

theorem DeadToken.resolves {raw : String} {now now' : Time} {n : Nat} {db : Db} (h : DeadToken env raw now n db)
    (hnow : now ≤ now') : resolveSession env raw now' db = none := by
  by_contra hne
  obtain ⟨ctx, hctx⟩ := Option.ne_none_iff_exists'.1 hne
  obtain ⟨sess, hsess, hhash, huser, horg, hlive, -⟩ := resolveSession_eq_some hctx
  exact (h sess hsess hhash).not_resolves hnow hctx huser horg hlive

/-- A token that does not resolve is dead. -/
theorem deadToken_of_none {raw : String} {now : Time} {n : Nat} {db : Db} (ht : TokensInv n db)
    (hm : MembersInv n db) (h : resolveSession env raw now db = none) : DeadToken env raw now n db := by
  intro sess hsess hhash
  refine ⟨ht.fresh sess hsess, ?_⟩
  by_contra hcon
  obtain ⟨hlive, hmember⟩ := not_or.1 hcon
  have hmember : Member db sess.userId sess.orgId := not_not.1 hmember
  -- the row of the token is the only one of its hash
  have hrows : db.sessions.filter (fun s => s.tokenHash == env.sha256 raw) = [sess] := by
    rw [← hhash]
    exact filter_key_eq ht.hashes hsess
  obtain ⟨m, hmm, hmu, hmo⟩ := member_iff.1 hmember
  have hfirst : (db.memberships.find? fun m => m.userId == sess.userId && m.orgId == sess.orgId).isSome := by
    rw [List.find?_isSome]
    exact ⟨m, hmm, by simp [hmu, hmo]⟩
  obtain ⟨m', hm'⟩ := Option.isSome_iff_exists.1 hfirst
  have huser : (db.users.find? fun u => u.id == sess.userId).isSome := by
    rw [List.find?_isSome]
    obtain ⟨u, hu, hid⟩ := List.any_eq_true.1 (hmu ▸ hm.user m hmm)
    exact ⟨u, hu, hid⟩
  obtain ⟨u, hu⟩ := Option.isSome_iff_exists.1 huser
  simp [resolveSession, sessionRow, hrows, hm', hu, hlive] at h

/-! ## Whose the sessions are -/

/-- Every session is of a member of its org. -/
def Seated (db : Db) : Prop := ∀ sess ∈ db.sessions, Member db sess.userId sess.orgId

theorem Seated.of_subset {db db' : Db} (h : Seated db) (hs : ∀ sess ∈ db'.sessions, sess ∈ db.sessions)
    (hm : ∀ u o, Member db u o → Member db' u o) : Seated db' :=
  fun sess hsess => hm _ _ (h sess (hs sess hsess))

/-- The sessions go with the users who are left without a membership. -/
theorem Seated.dropped {n : Nat} {userIds : List Uuid} {db db₁ : Db} (h : Seated db) (ha : AccountsInv n db)
    (hd : Dropped userIds db db₁) (hs : ∀ sess ∈ db₁.sessions, sess ∈ db.sessions) :
    Seated (purgeStrandedUsers userIds db₁) := by
  intro sess hsess
  obtain ⟨hsess, hno⟩ := mem_deleteWhere.1 hsess
  exact hd.stays ha (h sess (hs sess hsess)) (gone_eq_false.1 hno)

theorem seated_step {s : Service} (h : ServiceInv env s) (hs : Seated s.db) (l : Label) :
    Seated (Service.step env s l).db := by
  have hsame : ∀ {db : Db}, db.memberships = s.db.memberships → (∀ sess ∈ db.sessions, sess ∈ s.db.sessions) →
      Seated db := fun hm hsub => hs.of_subset hsub fun _ _ hq => member_frame hm _ _ hq
  have hmore : ∀ {db : Db} {m : Membership}, db.memberships = s.db.memberships ++ [m] →
      db.sessions = s.db.sessions → Seated db := by
    intro db m hm hsessions
    refine hs.of_subset (fun _ hsess => hsessions ▸ hsess) fun u o hq => ?_
    obtain ⟨m₀, hm₀, hu, ho⟩ := member_iff.1 hq
    exact member_iff.2 ⟨m₀, hm ▸ List.mem_append_left _ hm₀, hu, ho⟩
  cases serviceWrite_step h l with
  | aside users memberships sessions => exact hsame memberships fun _ hsess => sessions ▸ hsess
  | signup orgSlug orgName email password salt now ok =>
    obtain ⟨-, -, -, user, -, -, hdb⟩ := createOrgWithOwner_ok ok
    rw [hdb]
    exact hmore rfl rfl
  | member call pass ok =>
    rcases MemberCall.tx_cases ok with ⟨ctx, userId, role, rfl, htx⟩ | ⟨ctx, userId, rfl, htx⟩ |
      ⟨ctx, email, password, role, salt, now, rfl, -, user, -, -, hdb⟩
    · obtain ⟨-, -, -, hdb⟩ := setMemberRoleTx_ok htx
      rw [hdb]
      refine hs.of_subset (fun _ hsess => hsess) fun u o hq => ?_
      obtain ⟨m, hm, hu, ho⟩ := member_iff.1 hq
      refine member_iff.2 ⟨_, mem_updateWhere.2 ⟨m, hm, rfl⟩, ?_⟩
      split <;> exact ⟨hu, ho⟩
    · obtain ⟨-, -, -, hdb⟩ := removeMemberTx_ok htx
      rw [hdb]
      exact hs.dropped h.tenants.accounts (dropped_deleteMembership userId ctx.orgId s.db) fun _ hsess => hsess
    · rw [hdb]
      exact hmore rfl rfl
  | createSession ctx raw now pass ok =>
    obtain ⟨-, huser, hdb⟩ := createSession_ok ok
    rw [hdb]
    intro sess hsess
    rcases List.mem_append.1 hsess with hsess | hsess
    · exact hs sess hsess
    · obtain rfl := List.mem_singleton.1 hsess
      exact (h.issued ctx (passes_iff.1 pass).1).2 huser
  | changePassword ctx current new salt keepTokenHash pass ok =>
    obtain ⟨-, hdb⟩ := changePassword_ok ok
    rw [hdb]
    exact hsame rfl fun _ hsess => (mem_deleteWhere.1 hsess).1
  | sessionsDeleted p cause eq =>
    rw [eq]
    exact hsame rfl fun _ hsess => (mem_deleteWhere.1 hsess).1
  | deleteOrg ctx ok =>
    rw [deleteOrg_ok ok]
    exact hs.dropped h.tenants.accounts (dropped_deleteOrg ctx.orgId s.db)
      fun _ hsess => (mem_deleteWhere.1 hsess).1
  | ask stream ctx question provider refused now ok =>
    obtain ⟨-, -, a, -, -, -, -, -, -, hdb⟩ := recordAnswerTx_ok ok
    rw [hdb]
    exact hsame rfl fun _ hsess => hsess
  | block stream asked ok =>
    rw [← (Prod.mk.inj (Except.ok.inj ok)).2]
    exact hsame rfl fun _ hsess => hsess
  | finalize stream usage estimated now asked ok =>
    rw [← (Prod.mk.inj (Except.ok.inj ok)).2]
    exact hsame rfl fun _ hsess => hsess

/-! ## Over the runs of the service -/

theorem tokensInv_step {s : Service} (h : ServiceInv env s) (ht : TokensInv s.nextId s.db) (l : Label) :
    TokensInv (Service.step env s l).nextId (Service.step env s l).db := by
  have hw := accountWrite_step h l
  have hle : s.nextId ≤ (Service.step env s l).nextId := service_nextId_le s l
  constructor
  · cases hw with
    | fewer _ _ sessions => exact ht.hashes.sublist (sessions.map _)
    | changePassword _ _ _ _ _ _ _ _ _ sessions => exact ht.hashes.sublist (sessions.map _)
    | signup _ _ _ _ _ _ _ _ _ _ _ _ _ _ sessions => exact sessions ▸ ht.hashes
    | addMember _ _ _ _ _ _ _ _ _ _ _ _ _ sessions => exact sessions ▸ ht.hashes
    | setMemberRole _ _ _ _ _ _ sessions => exact sessions ▸ ht.hashes
    | createSession _ _ _ _ new _ _ _ sessions =>
      rw [sessions, List.map_append, List.nodup_append]
      refine ⟨ht.hashes, List.nodup_singleton _, ?_⟩
      simp only [List.mem_map, List.map_cons, List.map_nil, List.mem_singleton]
      rintro _ ⟨sess, hsess, rfl⟩ _ rfl
      exact new sess hsess
  · intro sess hsess
    rcases hw.session hsess with hold | ⟨ctx, raw, now, -, hctx, -, huser⟩
    · exact Nat.lt_of_lt_of_le (ht.fresh sess hold) hle
    · rw [huser]
      exact Nat.lt_of_lt_of_le (h.issued ctx hctx).1 hle

/-- A dead token stays dead as long as no session is created for it. -/
theorem deadToken_step {s : Service} (h : ServiceInv env s) {raw : String} {now : Time}
    (hd : DeadToken env raw now s.nextId s.db) {l : Label}
    (hl : ∀ ctx raw' now', l = .createSession ctx raw' now' → env.sha256 raw' ≠ env.sha256 raw) :
    DeadToken env raw now (Service.step env s l).nextId (Service.step env s l).db := by
  intro sess hsess hhash
  have hw := accountWrite_step h l
  rcases hw.session hsess with hold | ⟨ctx, raw', now', rfl, -, hhash', -⟩
  · exact hw.deadSession (hd sess hold hhash)
  · exact absurd (hhash'.symm.trans hhash) (hl ctx raw' now' rfl)

/-- What is known of the accounts in every reachable state. -/
def SessionsSound (env : Env) (s : Service) : Prop := ServiceInv env s ∧ TokensInv s.nextId s.db

theorem sessionsSound_run (ls : List Label) : SessionsSound env (Runs.run (Service.step env) Service.init ls) :=
  Runs.run_inv (P := SessionsSound env) (fun _ l hs => ⟨serviceInv_step hs.1 l, tokensInv_step hs.1 hs.2 l⟩)
    ⟨serviceInv_init, List.nodup_nil, fun _ hs => by cases hs⟩ ls

theorem seated_run (ls : List Label) : Seated (Runs.run (Service.step env) Service.init ls).db :=
  (Runs.run_inv (P := fun s => ServiceInv env s ∧ Seated s.db)
    (fun _ l hs => ⟨serviceInv_step hs.1 l, seated_step hs.1 hs.2 l⟩)
    ⟨serviceInv_init, fun _ hs => by cases hs⟩ ls).2

theorem deadToken_run {s : Service} (h : SessionsSound env s) {raw : String} {now : Time}
    (hd : DeadToken env raw now s.nextId s.db) {ls : List Label}
    (hls : ∀ raw' ∈ tokens ls, env.sha256 raw' ≠ env.sha256 raw) :
    DeadToken env raw now (Runs.run (Service.step env) s ls).nextId (Runs.run (Service.step env) s ls).db := by
  induction ls generalizing s with
  | nil => exact hd
  | cons l ls ih =>
    refine ih ⟨serviceInv_step h.1 l, tokensInv_step h.1 h.2 l⟩ (deadToken_step h.1 hd ?_) fun raw' hraw => ?_
    · rintro ctx raw' now' rfl
      exact hls raw' List.mem_cons_self
    · refine hls raw' ?_
      cases l <;> first | exact hraw | exact List.mem_cons_of_mem _ hraw

/-- Revocation is final: in a run of the service in which no token is drawn twice and no two tokens
drawn share a hash, a token that has been issued and does not resolve does not resolve at any later time
either. While it resolves, it resolves to the role its user has in the session's org. -/
theorem revocation_is_final {ls₁ ls₂ : List Label} (hdrawn : (tokens (ls₁ ++ ls₂)).Nodup)
    (hhash : ∀ raw ∈ tokens (ls₁ ++ ls₂), ∀ raw' ∈ tokens (ls₁ ++ ls₂), env.sha256 raw = env.sha256 raw' → raw = raw')
    {raw : String} (hissued : raw ∈ tokens ls₁) {now now' : Time} (hnow : now ≤ now') :
    (resolveSession env raw now (Runs.run (Service.step env) Service.init ls₁).db = none →
      resolveSession env raw now' (Runs.run (Service.step env) Service.init (ls₁ ++ ls₂)).db = none) ∧
    ∀ ctx, resolveSession env raw now (Runs.run (Service.step env) Service.init ls₁).db = some ctx →
      ∃ sess ∈ (Runs.run (Service.step env) Service.init ls₁).db.sessions,
        sess.tokenHash = env.sha256 raw ∧ sess.userId = ctx.userId ∧ sess.orgId = ctx.orgId ∧
        memberRole? sess.userId sess.orgId (Runs.run (Service.step env) Service.init ls₁).db = some ctx.role := by
  have hsound : SessionsSound env (Runs.run (Service.step env) Service.init ls₁) := sessionsSound_run ls₁
  have happend : tokens (ls₁ ++ ls₂) = tokens ls₁ ++ tokens ls₂ := List.filterMap_append
  constructor
  · intro hnone
    have hdead := deadToken_of_none hsound.2 hsound.1.tenants.accounts.toMembersInv hnone
    rw [Runs.run_append]
    refine (deadToken_run hsound hdead fun raw' hraw' he => ?_).resolves hnow
    -- a session for the same hash would be for the same token
    rw [happend] at hdrawn hhash
    obtain rfl := hhash raw' (List.mem_append_right _ hraw') raw (List.mem_append_left _ hissued) he
    exact (List.nodup_append.1 hdrawn).2.2 raw' hissued raw' hraw' rfl
  · intro ctx hctx
    obtain ⟨sess, hsess, hh, huser, horg, -, hrole⟩ := resolveSession_eq_some hctx
    refine ⟨sess, hsess, hh, huser, horg, ?_⟩
    rw [huser, horg]
    exact hrole

/-- Ann signs up, logs in twice and logs the first session out. -/
def annLogsOut : List Label :=
  let ann : AuthContext := ⟨1, 0, .owner, "ann"⟩
  [.signup "acme" "Acme" "ann" "pw" "salt" 0, .createSession ann "first" 0, .createSession ann "second" 1,
    .logout "first"]

/-- The first session is over, for good; the second still is an owner's. -/
theorem revocation_is_final_for_ann :
    resolveSession (asciiEnv id) "first" 2
      (Runs.run (Service.step (asciiEnv id)) Service.init (annLogsOut ++ [.login "ann" "pw" none])).db = none ∧
    (resolveSession (asciiEnv id) "second" 2
      (Runs.run (Service.step (asciiEnv id)) Service.init annLogsOut).db).isSome = true :=
  ⟨(revocation_is_final (by decide) (fun _ _ _ _ he => he) (by decide) (by decide : (1 : Time) ≤ 2)).1
    (by decide +kernel), by decide +kernel⟩

end KnowledgeDesk.Proofs
