import KnowledgeDesk.Proofs.ServiceProofs

/-!
# What a step of the service writes

The inversion lemma of the machine: a step commits one of the transactions that write accounts or answers,
or it leaves those tables as they are. What a table needs is read off the transactions from here on.
-/

open Table

namespace KnowledgeDesk.Proofs

open Service

variable {env : Env}

/-- What a step may do to the database, as far as users, memberships, sessions and answers go. -/
inductive ServiceWrite (env : Env) (s : Service) : Label → Db → Prop
  /-- The step writes other tables, or none. -/
  | aside {l : Label} {db : Db} (users : db.users = s.db.users) (memberships : db.memberships = s.db.memberships)
      (sessions : db.sessions = s.db.sessions) (answers : db.answers = s.db.answers) : ServiceWrite env s l db
  | signup {db : Db} {ctx : AuthContext} (orgSlug orgName email password salt : String) (now : Time)
      (ok : createOrgWithOwner env orgSlug orgName email password salt s.nextId (s.nextId + 1) now s.db =
        .ok (ctx, db)) : ServiceWrite env s (.signup orgSlug orgName email password salt now) db
  | member {db : Db} (call : MemberCall) (pass : s.passes call.ctx call.gate = true)
      (ok : call.tx env s.nextId s.db = .ok ((), db)) : ServiceWrite env s (.member call) db
  | createSession {db : Db} {token : String} (ctx : AuthContext) (raw : String) (now : Time)
      (pass : s.passes ctx (.ok ()) = true) (ok : createSession env ctx raw now s.db = .ok (token, db)) :
      ServiceWrite env s (.createSession ctx raw now) db
  | changePassword {db : Db} {revoked : Nat} (ctx : AuthContext) (current new salt keepTokenHash : String)
      (pass : s.passes ctx (.ok ()) = true)
      (ok : changePassword env ctx.userId current new salt keepTokenHash s.db = .ok (revoked, db)) :
      ServiceWrite env s (.changePassword ctx current new salt keepTokenHash) db
  /-- `logout` and `purge_expired_sessions`. -/
  | sessionsDeleted {l : Label} {db : Db} (p : Session → Bool)
      (cause : (∃ raw, l = .logout raw ∧ p = fun s => s.tokenHash == env.sha256 raw) ∨
        ∃ now, l = .purgeExpiredSessions now)
      (eq : db = { s.db with sessions := deleteWhere p s.db.sessions }) : ServiceWrite env s l db
  | deleteOrg {db : Db} (ctx : AuthContext) (ok : deleteOrg ctx.orgId s.db = .ok ((), db)) :
      ServiceWrite env s (.deleteOrg ctx) db
  | ask {db : Db} {answerId : Uuid} (stream : Nat) (ctx : AuthContext) (question provider : String)
      (refused : Bool) (now : Time)
      (ok : recordAnswerTx ctx question provider refused s.nextId now s.db = .ok (answerId, db)) :
      ServiceWrite env s (.ask stream ctx question provider refused now) db
  | block {db : Db} {ctx : AuthContext} {answerId : Uuid} (stream : Nat) (asked : s.asks stream = some (ctx, answerId))
      (ok : markBlockedTx ctx answerId s.db = .ok ((), db)) : ServiceWrite env s (.block stream) db
  | finalize {db : Db} {ctx : AuthContext} {answerId : Uuid} (stream : Nat) (usage : Usage) (estimated : Bool)
      (now : Time) (asked : s.asks stream = some (ctx, answerId))
      (ok : finalizeAnswerTx env ctx answerId usage estimated now s.db = .ok ((), db)) :
      ServiceWrite env s (.finalize stream usage estimated now) db

theorem ServiceWrite.refl (s : Service) (l : Label) : ServiceWrite env s l s.db := .aside rfl rfl rfl rfl

theorem commit_write {s : Service} {l : Label} {tx : Tx Db Err Unit} (k : Nat)
    (htx : ∀ db', tx s.db = .ok ((), db') → ServiceWrite env s l db') :
    ServiceWrite env s l (s.commit tx k).db := by
  unfold Service.commit
  split
  · rename_i db' hok
    exact htx db' hok
  · exact .refl s l

/-- A transaction on other tables. -/
theorem commit_aside {s : Service} {l : Label} {tx : Tx Db Err Unit} (k : Nat)
    (htx : ∀ db', tx s.db = .ok ((), db') → db'.users = s.db.users ∧ db'.memberships = s.db.memberships ∧
      db'.sessions = s.db.sessions ∧ db'.answers = s.db.answers) :
    ServiceWrite env s l (s.commit tx k).db := by
  refine commit_write k fun db' hok => ?_
  obtain ⟨hu, hm, hs, ha⟩ := htx db' hok
  exact .aside hu hm hs ha

/-- The pipeline has tables of its own. -/
theorem ingest_aside {s : Service} (h : ServiceInv env s) (l : Label) (pl : Pipeline.Label) :
    ServiceWrite env s l (s.ingest env pl).db := by
  have hf := (pipeline_docsOnly h.pipeline pl).frame
  refine .aside ?_ ?_ ?_ ?_ <;> simp only [Service.ingest, Service.db] <;> rw [hf]

/-- A request that does not pass writes nothing. -/
theorem ServiceWrite.gated {s t : Service} {l : Label} {p : Prop} [Decidable p]
    (ht : p → ServiceWrite env s l t.db) : ServiceWrite env s l (if p then t else s).db := by
  split
  · exact ht ‹_›
  · exact .refl s l

/-- Every step is one of these. -/
theorem serviceWrite_step {s : Service} (h : ServiceInv env s) (l : Label) :
    ServiceWrite env s l (Service.step env s l).db := by
  cases l with
  | signup orgSlug orgName email password salt now =>
    simp only [Service.step]
    split
    · rename_i hok
      exact .signup orgSlug orgName email password salt now hok
    · exact .refl s _
  | login email password orgSlug =>
    simp only [Service.step]
    split <;> exact .refl s _
  | createSession ctx raw now =>
    refine .gated fun hpass => commit_write 0 fun db' hok => ?_
    obtain ⟨token, hok⟩ := map_snd_ok.1 hok
    exact .createSession ctx raw now hpass hok
  | resolveSession raw now =>
    simp only [Service.step]
    split <;> exact .refl s _
  | logout raw =>
    simp only [Service.step]
    exact .sessionsDeleted _ (.inl ⟨raw, rfl, rfl⟩) rfl
  | changePassword ctx current new salt keepTokenHash =>
    refine .gated fun hpass => commit_write 0 fun db' hok => ?_
    obtain ⟨revoked, hok⟩ := map_snd_ok.1 hok
    exact .changePassword ctx current new salt keepTokenHash hpass hok
  | purgeExpiredSessions now =>
    simp only [Service.step]
    exact .sessionsDeleted _ (.inr ⟨now, rfl⟩) rfl
  | deleteOrg ctx => exact .gated fun _ => commit_write 0 fun db' hok => .deleteOrg ctx hok
  | member call => exact .gated fun hpass => commit_write 1 fun db' hok => .member call hpass hok
  | createGroup ctx name now =>
    refine .gated fun _ => commit_aside 1 fun db' hok => ?_
    obtain ⟨g, hok⟩ := map_snd_ok.1 hok
    obtain ⟨-, rfl⟩ := createGroupTx_ok hok
    exact ⟨rfl, rfl, rfl, rfl⟩
  | getGroup ctx groupId => exact .gated fun _ => .refl s _
  | addGroupMember ctx groupId userId =>
    refine .gated fun _ => commit_aside 0 fun db' hok => ?_
    obtain ⟨-, rfl | ⟨-, rfl⟩⟩ := addGroupMemberTx_ok hok <;> exact ⟨rfl, rfl, rfl, rfl⟩
  | removeGroupMember ctx groupId userId =>
    refine .gated fun _ => commit_aside 0 fun db' hok => ?_
    obtain rfl := (Prod.mk.inj (Except.ok.inj hok)).2
    exact ⟨rfl, rfl, rfl, rfl⟩
  | deleteGroup ctx groupId =>
    refine .gated fun _ => commit_aside 0 fun db' hok => ?_
    obtain rfl := deleteGroupTx_ok hok
    exact ⟨rfl, rfl, rfl, rfl⟩
  | syncSource request ctx source items now => exact .gated fun _ => ingest_aside h _ _
  | updateDocumentAcl ctx documentId acl now => exact .gated fun _ => ingest_aside h _ _
  | deleteDocument ctx documentId => exact .gated fun _ => ingest_aside h _ _
  | background pl => exact .gated fun _ => ingest_aside h _ pl
  | ask stream ctx question provider refused now =>
    refine .gated fun _ => ?_
    split
    · rename_i hok
      exact .ask stream ctx question provider refused now hok
    · exact .refl s _
  | block stream =>
    simp only [Service.step]
    split
    · rename_i hasked
      exact commit_write 0 fun db' hok => .block stream hasked hok
    · exact .refl s _
  | finalize stream usage estimated now =>
    simp only [Service.step]
    split
    · rename_i hasked
      exact commit_write 0 fun db' hok => .finalize stream usage estimated now hasked hok
    · exact .refl s _
  | addFeedback ctx answerId rating note =>
    refine .gated fun _ => commit_aside 0 fun db' hok => ?_
    obtain ⟨-, -, rfl⟩ := addFeedbackTx_ok hok
    exact ⟨rfl, rfl, rfl, rfl⟩
  | audit ctx action detail now =>
    refine .gated fun _ => commit_aside 0 fun db' hok => ?_
    obtain ⟨-, rfl⟩ := auditTx_ok hok
    exact ⟨rfl, rfl, rfl, rfl⟩

end KnowledgeDesk.Proofs
