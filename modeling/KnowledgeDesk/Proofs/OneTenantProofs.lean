import KnowledgeDesk.Proofs.OrgFrameProofs
import KnowledgeDesk.Proofs.ProcessProofs
import KnowledgeDesk.Proofs.SessionsProofs

/-!
# A step is about one tenant

Whatever the service does next, be it a request's transaction, a worker's or a stream's, it changes the
rows of one org at most: that of the context, of the job or of the stream it acts for. So does the
process that serves the requests.
-/

open Table

namespace KnowledgeDesk.Proofs

open Service Runs

variable {env : Env} {deployment : Deployment} {org : Uuid} {n : Nat} {db db' : Db}

/-! ## Accounts -/

theorem orgRows_newMember (h : Tenants n db) {user : User} (hnew : n ≤ user.id) {orgId : Uuid} {role : Role}
    {now : Time} (orgs : List Org) (hne : org ≠ orgId) : orgRows org { db with
      orgs
      users := db.users ++ [user]
      memberships := db.memberships ++ [⟨user.id, orgId, role, now⟩] } = orgRows org db := by
  have hno : (orgId == org) = false := beq_false_of_ne (Ne.symm hne)
  have hmemberships : ((db.memberships ++ [(⟨user.id, orgId, role, now⟩ : Membership)]).filter
      fun m => m.orgId == org) = db.memberships.filter fun m => m.orgId == org := by
    rw [List.filter_append]
    simp [hno]
  have hunused : isMember user.id org db = false := by
    rw [Bool.eq_false_iff]
    intro hm
    obtain ⟨m, hm, hu, -⟩ := member_iff.1 hm
    exact absurd (h.accounts.fresh m hm) (by lia)
  have hsame : ∀ userId, isMember userId org { db with
      orgs
      users := db.users ++ [user]
      memberships := db.memberships ++ [⟨user.id, orgId, role, now⟩] } = isMember userId org db :=
    isMember_congr hmemberships
  unfold orgRows
  congr 1
  simp only [hsame]
  rw [List.filter_append]
  simp [hunused]

theorem orgRows_changePassword (h : Tenants n db) {ctx : AuthContext} (hissued : Issued n db ctx)
    {current new salt keepTokenHash : String} {revoked : Nat} (hne : org ≠ ctx.orgId)
    (htx : changePassword env ctx.userId current new salt keepTokenHash db = .ok (revoked, db')) :
    orgRows org db' = orgRows org db := by
  obtain ⟨⟨user, huser, hid, -⟩, rfl⟩ := changePassword_ok htx
  have hmember : Member db ctx.userId ctx.orgId :=
    hissued.2 (List.any_eq_true.2 ⟨user, huser, by simpa using hid⟩)
  have hother : isMember ctx.userId org db = false := by
    rw [Bool.eq_false_iff]
    intro hm
    obtain ⟨m, hm, hu, ho⟩ := member_iff.1 hm
    obtain ⟨m', hm', hu', ho'⟩ := member_iff.1 hmember
    obtain rfl := Table.eq_of_key h.accounts.single hm hm' (hu.trans hu'.symm)
    exact hne (ho.symm.trans ho')
  unfold orgRows
  congr 1
  refine filter_updateWhere_of_disjoint (fun u _ hu => ?_) fun u _ hu => ?_ <;>
    rw [beq_iff_eq] at hu <;> rw [← hother, ← hu] <;> rfl

/-! ## Deleting an org -/

/-- A purge, where whoever the rows of the org name is a member of it. -/
theorem orgRows_purge {Q : Uuid → Uuid → Prop} {userIds : List Uuid} (hgroups : GroupsInv Q n db)
    (hledger : LedgerInv Q n db) (haudit : AuditInv Q db) (hq : ∀ u, Q u org → Member db u org)
    (hids : (db.groups.map Group.id).Nodup) :
    orgRows org (purgeStrandedUsers userIds db) = orgRows org db := by
  have hgone : ∀ u, Member db u org →
      (db.users.any fun v => isStranded userIds db v && v.id == u) = false := by
    intro u hm
    refine gone_eq_false.2 fun hs => ?_
    obtain ⟨m, hm, hu, -⟩ := member_iff.1 hm
    exact hs.2.2 m hm hu
  have hnotGone : ∀ u o, (o == org) = true → Q u o →
      (db.users.any fun v => isStranded userIds db v && v.id == u) = false :=
    fun u o ho hu => hgone u (hq u (eq_of_beq ho ▸ hu))
  unfold orgRows
  congr 1
  · rw [purge_memberships]
  · have hsame : ∀ id, isMember id org (purgeStrandedUsers userIds db) = isMember id org db :=
      isMember_congr (by rw [purge_memberships])
    simp only [hsame]
    refine filter_deleteWhere_of_disjoint fun v hv hs => ?_
    rw [Bool.eq_false_iff]
    intro hm
    have hin := hgone v.id hm
    rw [List.any_eq_false] at hin
    exact hin v hv (by rw [hs, beq_self_eq_true]; rfl)
  · refine filter_deleteWhere_of_disjoint fun m hm hs => ?_
    rw [Bool.eq_false_iff]
    intro hany
    obtain ⟨g, hg, hp⟩ := List.any_eq_true.1 hany
    rw [Bool.and_eq_true, beq_iff_eq] at hp
    obtain ⟨g', hg', hid, hu⟩ := hgroups.members m hm
    obtain rfl := Table.eq_of_key hids hg' hg (hid.trans hp.1.symm)
    exact Bool.false_ne_true ((hnotGone m.userId _ hp.2 hu).symm.trans hs)
  · refine filter_deleteWhere_of_disjoint fun a ha hs => ?_
    rw [Bool.eq_false_iff]
    exact fun ho => Bool.false_ne_true ((hnotGone a.userId _ ho (hledger.askers a ha)).symm.trans hs)
  · have hanswered : ∀ f ∈ db.feedback, (f.orgId == org) = true → (db.answers.any fun a =>
        (db.users.any fun v => isStranded userIds db v && v.id == a.userId) && a.id == f.answerId) = false := by
      intro f hf ho
      rw [List.any_eq_false]
      intro a ha hs
      rw [Bool.and_eq_true, beq_iff_eq] at hs
      obtain ⟨a', ha', hid, horg⟩ := hledger.rated f hf
      obtain rfl := Table.eq_of_key hledger.ids ha' ha (hid.trans hs.2.symm)
      rw [← horg] at ho
      exact Bool.false_ne_true ((hnotGone _ _ ho (hledger.askers _ ha)).symm.trans hs.1)
    refine (filter_deleteWhere_of_disjoint fun f hf hs => ?_).trans
      (filter_deleteWhere_of_disjoint fun f hf hs => ?_)
    · rw [Bool.eq_false_iff]
      intro ho
      exact Bool.false_ne_true
        ((hnotGone f.userId _ ho (hledger.raters f (mem_deleteWhere.1 hf).1)).symm.trans hs)
    · rw [Bool.eq_false_iff]
      exact fun ho => Bool.false_ne_true ((hanswered f hf ho).symm.trans hs)
  · have hother : ∀ r ∈ db.auditLog, (r.actorUserId.any fun id =>
        db.users.any fun v => isStranded userIds db v && v.id == id) = true → (r.orgId == org) = false := by
      intro r hr hs
      rw [Bool.eq_false_iff]
      intro ho
      cases hact : r.actorUserId with
      | none => simp [hact] at hs
      | some id =>
        rw [hact, Option.any_some] at hs
        exact Bool.false_ne_true ((hnotGone id _ ho (haudit r hr id hact)).symm.trans hs)
    exact filter_updateWhere_of_disjoint hother hother

theorem orgRows_deletedOrg (h : Tenants n db) (hdocs : DocsInv n db) {orgId : Uuid} (hne : org ≠ orgId) :
    orgRows org (db.deleteOrg orgId) = orgRows org db := by
  have hno : ∀ {o : Uuid}, (o == orgId) = true → (o == org) = false := by
    intro o ho
    rw [eq_of_beq ho]
    exact beq_false_of_ne (Ne.symm hne)
  have hkept : ∀ id, ((db.deleteOrg orgId).groups.any fun g => g.id == id && g.orgId == org) =
      db.groups.any fun g => g.id == id && g.orgId == org := by
    intro id
    have hgroups : ((db.deleteOrg orgId).groups.filter fun g => g.orgId == org) =
        db.groups.filter fun g => g.orgId == org := filter_deleteWhere_of_disjoint fun g _ hp => hno hp
    exact any_eq hgroups (fun g _ hp => (Bool.and_eq_true_iff.1 hp).2) fun g _ hp =>
      (Bool.and_eq_true_iff.1 hp).2
  have hmemberships : ((db.deleteOrg orgId).memberships.filter fun m => m.orgId == org) =
      db.memberships.filter fun m => m.orgId == org := filter_deleteWhere_of_disjoint fun m _ hp => hno hp
  have hsame := isMember_congr hmemberships
  unfold orgRows
  congr 1
  · simp only [hsame]
    rfl
  · exact filter_deleteWhere_of_disjoint fun g _ hp => hno hp
  · simp only [hkept]
    refine filter_deleteWhere_of_disjoint fun m hm hp => ?_
    obtain ⟨g, hg, hp⟩ := List.any_eq_true.1 hp
    obtain ⟨hpo, hpid⟩ := Bool.and_eq_true_iff.1 hp
    rw [List.any_eq_false]
    intro g' hg' hq
    obtain ⟨hqid, hqo⟩ := Bool.and_eq_true_iff.1 hq
    obtain rfl := Table.eq_of_key h.groups.ids hg' hg ((eq_of_beq hqid).trans (eq_of_beq hpid).symm)
    exact Bool.false_ne_true ((hno hpo).symm.trans hqo)
  · exact filter_deleteWhere_of_disjoint fun d _ hp => hno hp
  · refine (filter_deleteWhere_of_disjoint fun c _ hp => hno hp).trans
      (filter_deleteWhere_of_disjoint fun c hc hp => ?_)
    obtain ⟨d, hd, hp⟩ := List.any_eq_true.1 hp
    obtain ⟨hpo, hpid⟩ := Bool.and_eq_true_iff.1 hp
    obtain ⟨d', hd', hid, horg⟩ := hdocs.owner c hc
    obtain rfl := hdocs.eq_of_id hd' hd (hid.trans (eq_of_beq hpid).symm)
    rw [← horg]
    exact hno hpo
  · exact filter_deleteWhere_of_disjoint fun j _ hp => hno hp
  · exact filter_deleteWhere_of_disjoint fun a _ hp => hno hp
  · refine (filter_deleteWhere_of_disjoint fun f _ hp => hno hp).trans
      (filter_deleteWhere_of_disjoint fun f hf hp => ?_)
    obtain ⟨a, ha, hp⟩ := List.any_eq_true.1 hp
    obtain ⟨hpo, hpid⟩ := Bool.and_eq_true_iff.1 hp
    obtain ⟨a', ha', hid, horg⟩ := h.ledger.rated f hf
    obtain rfl := Table.eq_of_key h.ledger.ids ha' ha (hid.trans (eq_of_beq hpid).symm)
    rw [← horg]
    exact hno hpo
  · exact filter_deleteWhere_of_disjoint fun a _ hp => hno hp

theorem orgRows_deleteOrg (h : Tenants n db) (hdocs : DocsInv n db) {orgId : Uuid} {u : Unit}
    (hne : org ≠ orgId) (htx : KnowledgeDesk.deleteOrg orgId db = .ok (u, db')) :
    orgRows org db' = orgRows org db := by
  obtain rfl := deleteOrg_ok htx
  refine (orgRows_purge (h.groups.deleteOrg orgId) (h.ledger.deleteOrg orgId) (h.audit.deleteOrg orgId)
    (fun u hu => ?_) (h.groups.ids.sublist (sublist_deleteWhere.map _))).trans (orgRows_deletedOrg h hdocs hne)
  obtain ⟨m, hm, hu, ho⟩ := member_iff.1 hu.1
  exact member_iff.2 ⟨m, mem_deleteWhere.2 ⟨hm, by simpa [ho] using hne⟩, hu, ho⟩

/-! ## Jobs -/

theorem job?_of_mem (hids : (db.jobs.map Job.id).Nodup) {j : Job} (hj : j ∈ db.jobs) :
    db.job? j.id = some j := by
  cases hfind : db.job? j.id with
  | none => exact absurd (beq_self_eq_true j.id) (List.find?_eq_none.1 hfind j hj)
  | some j' =>
    unfold Db.job? at hfind
    have hid := List.find?_some hfind
    rw [Table.eq_of_key hids (List.mem_of_find?_eq_some hfind) hj (eq_of_beq hid)]

/-- An update of the job with an id, of another org. -/
theorem orgRows_updateJob (hids : (db.jobs.map Job.id).Nodup) {id : Uuid} {f : Job → Job}
    (hf : ∀ j, (f j).orgId = j.orgId) (hne : (db.job? id).map (·.orgId) ≠ some org) :
    orgRows org { db with jobs := updateWhere (fun j => j.id == id) f db.jobs } = orgRows org db := by
  have hother : ∀ j ∈ db.jobs, (j.id == id) = true → (j.orgId == org) = false := by
    intro j hj hid
    rw [beq_eq_false_iff_ne]
    rintro rfl
    refine hne ?_
    rw [← eq_of_beq hid, job?_of_mem hids hj]
    rfl
  unfold orgRows
  congr 1
  refine filter_updateWhere_of_disjoint hother fun j hj hid => ?_
  rw [hf]
  exact hother j hj hid

/-- The rows a worker writes for a job of another org. -/
theorem orgRows_writeDocument {orgId : Uuid} {doc : Document} {rows : List Chunk} {now : Time} {u : Unit}
    (hrows : RowsOf env orgId doc rows) (hne : org ≠ orgId)
    (htx : writeDocument orgId doc.id rows now db = .ok (u, db')) : orgRows org db' = orgRows org db := by
  obtain ⟨-, rfl⟩ := writeDocument_ok htx
  have hno : (orgId == org) = false := beq_false_of_ne (Ne.symm hne)
  have hdocument : ∀ d ∈ db.documents, rls orgId Document.orgId (fun d => d.id == doc.id) d = true →
      (d.orgId == org) = false := by
    intro d _ hp
    simp only [rls, Bool.and_eq_true, beq_iff_eq] at hp
    rw [hp.1, hno]
  unfold orgRows
  congr 1
  · exact filter_updateWhere_of_disjoint hdocument hdocument
  · rw [List.filter_append]
    have hnew : (rows.filter fun c => c.orgId == org) = [] := by
      rw [List.filter_eq_nil_iff]
      intro c hc
      rw [(hrows.owner c hc).1, hno]
      exact Bool.false_ne_true
    rw [hnew, List.append_nil]
    refine filter_deleteWhere_of_disjoint fun c _ hp => ?_
    simp only [rls, Bool.and_eq_true, beq_iff_eq] at hp
    rw [hp.1, hno]

theorem orgRows_markDocumentFailed {orgId documentId : Uuid} {now : Time} {u : Unit} (hne : org ≠ orgId)
    (htx : markDocumentFailed orgId documentId now db = .ok (u, db')) : orgRows org db' = orgRows org db := by
  obtain rfl := (Prod.mk.inj (Except.ok.inj htx)).2
  have hdocument : ∀ d ∈ db.documents, rls orgId Document.orgId
      (fun d => d.id == documentId && d.orgId == orgId) d = true → (d.orgId == org) = false := by
    intro d _ hp
    simp only [rls, Bool.and_eq_true, beq_iff_eq] at hp
    rw [hp.1]
    exact beq_false_of_ne (Ne.symm hne)
  unfold orgRows
  congr 1
  exact filter_updateWhere_of_disjoint hdocument hdocument

theorem orgRows_audit {orgId userId : Uuid} {action : String} {detail : List (String × DetailValue)}
    {now : Time} {u : Unit} (hne : org ≠ orgId)
    (htx : auditTx env orgId (some userId) action detail now db = .ok (u, db')) :
    orgRows org db' = orgRows org db := by
  obtain ⟨-, rfl⟩ := auditTx_ok htx
  have hno : (orgId == org) = false := beq_false_of_ne (Ne.symm hne)
  unfold orgRows
  congr 1
  rw [List.filter_append]
  simp [hno]

/-! ## Every step -/

/-- The org whose rows a step may change. -/
def tenantOf (env : Env) (s : Service) : Service.Label → Option Uuid
  | .signup .. => some s.nextId
  | .logout raw => (s.db.sessions.find? fun sess => sess.tokenHash == env.sha256 raw).map (·.orgId)
  | .block stream | .finalize stream .. => (s.asks stream).map fun ask => ask.1.orgId
  | .background l => match l with
    | .enqueue request _ => (s.pipeline.requests request).head?.map (·.orgId)
    | .claim _ locked now => match claimOne env locked now s.db with
      | .ok (some job, _) => some job.orgId
      | _ => none
    | .write worker _ | .failDocument worker _ => (s.pipeline.workers worker).job?.map (·.orgId)
    | .succeed worker _ | .fail worker _ =>
      (s.pipeline.workers worker).job?.bind fun job => (s.db.job? job.id).map (·.orgId)
    | _ => none
  | l => l.actor.map (·.orgId)

/-- A transaction, when its commit is about one org. -/
theorem orgRows_commit {s : Service} {tx : Tx Db Err Unit} {drawn : Nat}
    (h : ∀ db', tx s.db = .ok ((), db') → orgRows org db' = orgRows org s.db) :
    orgRows org (s.commit tx drawn).db = orgRows org s.db := by
  unfold Service.commit
  split
  · exact h _ ‹_›
  · rfl

/-- A request that does not pass changes no row. -/
theorem orgRows_gated {s t : Service} {p : Prop} [Decidable p]
    (ht : p → orgRows org t.db = orgRows org s.db) : orgRows org (if p then t else s).db = orgRows org s.db := by
  split
  · exact ht ‹_›
  · rfl

theorem orgRows_commitMap {α : Type} {s : Service} {tx : Tx Db Err α} {drawn : Nat}
    (h : ∀ a db', tx s.db = .ok (a, db') → orgRows org db' = orgRows org s.db) :
    orgRows org (s.commit (fun db => (tx db).map fun r => ((), r.2)) drawn).db = orgRows org s.db :=
  orgRows_commit fun _ hok => (map_snd_ok.1 hok).elim fun a hok => h a _ hok

theorem orgRows_background {s : Service} (h : ServiceInv env s) {l : Pipeline.Label}
    (hl : Service.isBackground l = true) (hne : tenantOf env s (.background l) ≠ some org) :
    orgRows org (Pipeline.step env s.pipeline l).db = orgRows org s.db := by
  cases l with
  | sync | updateAcl | deleteDocument => cases hl
  | enqueue request now =>
    simp only [Pipeline.step]
    split
    · rfl
    · rename_i job rest hjobs
      split
      · rename_i htx
        refine orgRows_enqueuePending (fun he => hne ?_) rfl htx
        simp [tenantOf, hjobs, he]
      · rfl
  | claim worker locked now =>
    simp only [Pipeline.step]
    split
    · split
      · rename_i job db htx
        simp only [tenantOf, Service.db, htx] at hne
        obtain ⟨j, hj, -, rfl, rfl⟩ := claimOne_some htx
        refine orgRows_updateJob h.pipeline.jobIds (fun _ => rfl) ?_
        rw [job?_of_mem h.pipeline.jobIds hj]
        exact hne
      · rfl
    · rfl
  | write worker now =>
    simp only [Pipeline.step]
    split
    · rename_i job doc rows hphase
      split
      · rename_i htx
        refine orgRows_writeDocument ((h.pipeline.workers worker).rows job doc rows hphase) (fun he => hne ?_) htx
        simp [tenantOf, hphase, Phase.job?, he]
      · rfl
    · rfl
  | succeed worker now =>
    simp only [Pipeline.step]
    split
    · rename_i job seen hphase
      refine orgRows_updateJob h.pipeline.jobIds (fun _ => rfl) fun he => hne ?_
      simp only [tenantOf, hphase]
      exact he
    · rfl
  | fail worker now =>
    simp only [Pipeline.step]
    split
    · rename_i job seen error hphase
      have hjob : (s.db.job? job.id).map (·.orgId) ≠ some org := fun he => hne (by
        simp only [tenantOf, hphase]
        exact he)
      split
      · rename_i htx
        have hrows := h.pipeline.jobIds
        rcases markFailed_cases htx with ⟨-, -, rfl⟩ | ⟨j, -, -, -, rfl⟩ | ⟨j, delay, -, -, -, rfl⟩
        · split <;> rfl
        · split <;> exact orgRows_updateJob hrows (fun _ => rfl) hjob
        · split <;> exact orgRows_updateJob hrows (fun _ => rfl) hjob
      · rfl
    · rfl
  | failDocument worker now =>
    simp only [Pipeline.step]
    split
    · rename_i job seen hphase
      split
      · rfl
      · refine orgRows_markDocumentFailed (u := ()) (fun he => hne ?_) rfl
        simp [tenantOf, hphase, Phase.job?, he]
    · rfl
  | read worker | embed worker embedDocuments =>
    simp only [Pipeline.step]
    repeat' split
    all_goals rfl
  | abandon request | interrupt worker error | crash worker => rfl

/-- A call on the memberships of another org. -/
theorem orgRows_member {s : Service} (h : ServiceInv env s) (call : MemberCall) (hne : org ≠ call.ctx.orgId) :
    orgRows org (s.commit (call.tx env s.nextId) 1).db = orgRows org s.db := by
  refine orgRows_commit fun db' hok => ?_
  rcases MemberCall.tx_cases hok with ⟨ctx, userId, role, rfl, htx⟩ | ⟨ctx, userId, rfl, htx⟩ |
    ⟨ctx, email, password, role, salt, now, rfl, -, user, hid, -, rfl⟩
  · exact orgRows_setMemberRole hne htx
  · exact orgRows_removeMember h.tenants hne htx
  · rw [← hid]
    exact orgRows_newMember h.tenants (le_of_eq hid.symm) _ hne

/-- A signup, of an org that is new. -/
theorem orgRows_signup {s : Service} (h : ServiceInv env s) {orgSlug orgName email password salt : String}
    {now : Time} {ctx : AuthContext} {db' : Db} (hne : org ≠ s.nextId)
    (htx : createOrgWithOwner env orgSlug orgName email password salt s.nextId (s.nextId + 1) now s.db =
      .ok (ctx, db')) : orgRows org db' = orgRows org s.db := by
  obtain ⟨-, -, -, user, hid, -, rfl⟩ := createOrgWithOwner_ok htx
  show orgRows org { s.db with
    orgs := _
    users := _
    memberships := _ } = _
  rw [← hid]
  exact orgRows_newMember h.tenants (by lia) _ hne

/-- A document transaction of a request, when its commit is about another org. -/
theorem orgRows_ingestCommit {s : Service} {tx : Tx Db Err Unit}
    (h : ∀ db', tx s.db = .ok ((), db') → orgRows org db' = orgRows org s.db) :
    orgRows org (s.pipeline.commit tx).db = orgRows org s.db := by
  unfold Pipeline.commit
  split
  · exact h _ ‹_›
  · rfl

/-- No step changes a row of an org that is not the one it is about. -/
theorem step_one_tenant {s : Service} (h : ServiceInv env s) (l : Service.Label)
    (hne : tenantOf env s l ≠ some org) : orgRows org (Service.step env s l).db = orgRows org s.db := by
  have hactor : ∀ {ctx : AuthContext}, tenantOf env s l = some ctx.orgId → org ≠ ctx.orgId :=
    fun he ho => hne (he.trans (congrArg some ho.symm))
  cases l with
  | signup orgSlug orgName email password salt now =>
    simp only [Service.step]
    split
    · rename_i htx
      exact orgRows_signup h (fun he => hne (by rw [tenantOf, he])) htx
    · rfl
  | login | resolveSession =>
    simp only [Service.step]
    split <;> rfl
  | createSession ctx raw now =>
    refine orgRows_gated fun _ => orgRows_commitMap fun token db' hok => ?_
    obtain ⟨-, -, rfl⟩ := createSession_ok hok
    rfl
  | logout raw => rfl
  | purgeExpiredSessions now => rfl
  | changePassword ctx current new salt keepTokenHash =>
    exact orgRows_gated fun hp => orgRows_commitMap fun revoked db' hok =>
      orgRows_changePassword h.tenants (h.issued ctx (passes_iff.1 hp).1) (hactor rfl) hok
  | deleteOrg ctx =>
    exact orgRows_gated fun _ => orgRows_commit fun db' hok =>
      orgRows_deleteOrg h.tenants h.pipeline.docs (hactor rfl) hok
  | member call => exact orgRows_gated fun _ => orgRows_member h call (hactor rfl)
  | createGroup ctx name now =>
    exact orgRows_gated fun _ => orgRows_commitMap fun g db' hok => orgRows_createGroup (hactor rfl) hok
  | getGroup ctx groupId => exact orgRows_gated fun _ => rfl
  | addGroupMember ctx groupId userId =>
    exact orgRows_gated fun hp => orgRows_commit fun db' hok =>
      orgRows_addGroupMember (hactor rfl) (h.checked _ hp.2).2 hok
  | removeGroupMember ctx groupId userId =>
    exact orgRows_gated fun hp => orgRows_commit fun db' hok =>
      orgRows_removeGroupMember (hactor rfl) (h.checked _ hp.2).2 hok
  | deleteGroup ctx groupId =>
    exact orgRows_gated fun _ => orgRows_commit fun db' hok => orgRows_deleteGroup h.tenants (hactor rfl) hok
  | syncSource request ctx source items now =>
    refine orgRows_gated fun _ => ?_
    simp only [Service.ingest, Pipeline.step]
    split
    · split
      · rename_i htx
        exact orgRows_syncTx (hactor rfl) htx
      · rfl
    · rfl
  | updateDocumentAcl ctx documentId acl now =>
    exact orgRows_gated fun _ => orgRows_ingestCommit fun db' hok => orgRows_updateDocumentAcl (hactor rfl) hok
  | deleteDocument ctx documentId =>
    exact orgRows_gated fun _ => orgRows_ingestCommit fun db' hok =>
      orgRows_deleteDocument h.pipeline.docs (hactor rfl) hok
  | background l => exact orgRows_gated fun hl => orgRows_background h hl hne
  | ask stream ctx question provider refused now =>
    refine orgRows_gated fun _ => ?_
    split
    · rename_i htx
      exact orgRows_recordAnswer (hactor rfl) htx
    · rfl
  | block stream =>
    simp only [Service.step]
    split
    · rename_i ctx answerId hask
      have hother : org ≠ ctx.orgId := hactor (by rw [tenantOf, hask]; rfl)
      refine orgRows_commit (s := s) fun db' hok => ?_
      obtain rfl := (Prod.mk.inj (Except.ok.inj hok)).2
      exact orgRows_updateAnswer (f := fun a => { a with blocked := true }) (fun _ => rfl) hother
    · rfl
  | finalize stream usage estimated now =>
    simp only [Service.step]
    split
    · rename_i ctx answerId hask
      have hother : org ≠ ctx.orgId := hactor (by rw [tenantOf, hask]; rfl)
      refine orgRows_commit (s := s) fun db' hok => ?_
      obtain rfl := (Prod.mk.inj (Except.ok.inj hok)).2
      exact orgRows_updateAnswer (f := (·.finalize usage estimated)) (fun _ => rfl) hother
    · rfl
  | addFeedback ctx answerId rating note =>
    exact orgRows_gated fun _ => orgRows_commit fun db' hok => orgRows_addFeedback (hactor rfl) hok
  | audit ctx action detail now =>
    exact orgRows_gated fun _ => orgRows_commit fun db' hok => orgRows_audit (hactor rfl) hok

/-! ## Sessions -/

/-- The sessions of an org. -/
def orgSessions (org : Uuid) (db : Db) : List Session := db.sessions.filter fun sess => sess.orgId == org

/-- Members are not purged, nor are their sessions. -/
theorem orgSessions_purge {userIds : List Uuid}
    (h : ∀ sess ∈ db.sessions, sess.orgId = org → Member db sess.userId org) :
    orgSessions org (purgeStrandedUsers userIds db) = orgSessions org db := by
  refine filter_deleteWhere_of_disjoint fun sess hsess hs => ?_
  rw [beq_eq_false_iff_ne]
  intro ho
  obtain ⟨m, hm, hu, -⟩ := member_iff.1 (h sess hsess ho)
  exact (gone_iff.1 hs).2.2 m hm hu

theorem orgSessions_removeMember (hseated : Seated db) {ctx : AuthContext} {userId : Uuid} {u : Unit}
    (hne : org ≠ ctx.orgId) (htx : removeMemberTx ctx userId db = .ok (u, db')) :
    orgSessions org db' = orgSessions org db := by
  obtain ⟨-, -, -, rfl⟩ := removeMemberTx_ok htx
  refine (orgSessions_purge fun sess hsess ho => ?_).trans rfl
  obtain ⟨m, hm, hu, hmo⟩ := member_iff.1 (hseated sess hsess)
  exact member_iff.2 ⟨m, mem_deleteMembership.2 ⟨hm, fun hc => hne (ho ▸ hmo ▸ hc.2)⟩, hu, hmo.trans ho⟩

theorem orgSessions_deleteOrg (hseated : Seated db) {orgId : Uuid} {u : Unit} (hne : org ≠ orgId)
    (htx : KnowledgeDesk.deleteOrg orgId db = .ok (u, db')) : orgSessions org db' = orgSessions org db := by
  obtain rfl := deleteOrg_ok htx
  refine (orgSessions_purge fun sess hsess ho => ?_).trans ?_
  · obtain ⟨m, hm, hu, hmo⟩ := member_iff.1 (hseated sess (mem_deleteWhere.1 hsess).1)
    exact member_iff.2 ⟨m, mem_deleteWhere.2 ⟨hm, beq_false_of_ne fun he => hne (ho ▸ hmo ▸ he)⟩, hu, hmo.trans ho⟩
  · refine filter_deleteWhere_of_disjoint fun sess _ hs => ?_
    rw [eq_of_beq hs]
    exact beq_false_of_ne (Ne.symm hne)

/-- A user of one org has no session of another. -/
theorem orgSessions_changePassword (h : Tenants n db) (hseated : Seated db) {ctx : AuthContext}
    (hissued : Issued n db ctx) {current new salt keepTokenHash : String} {revoked : Nat} (hne : org ≠ ctx.orgId)
    (htx : changePassword env ctx.userId current new salt keepTokenHash db = .ok (revoked, db')) :
    orgSessions org db' = orgSessions org db := by
  obtain ⟨⟨user, huser, hid, -⟩, rfl⟩ := changePassword_ok htx
  obtain ⟨m, hm, hu, ho⟩ := member_iff.1 (hissued.2 (List.any_eq_true.2 ⟨user, huser, by simpa using hid⟩))
  refine filter_deleteWhere_of_disjoint fun sess hsess hs => beq_false_of_ne fun hso => hne ?_
  obtain ⟨m', hm', hu', ho'⟩ := member_iff.1 (hseated sess hsess)
  obtain rfl := Table.eq_of_key h.accounts.single hm hm'
    (hu.trans ((eq_of_beq (Bool.and_eq_true_iff.1 hs).1).symm.trans hu'.symm))
  exact (hso.symm.trans ho'.symm).trans ho

/-- No step but the purge of expired sessions changes a session of an org that is not the one it is about. -/
theorem step_one_tenant_sessions {s : Service} (h : ServiceInv env s) (hseated : Seated s.db)
    (htokens : TokensInv s.nextId s.db) {l : Service.Label} (hl : ∀ now, l ≠ .purgeExpiredSessions now)
    (hne : tenantOf env s l ≠ some org) : orgSessions org (Service.step env s l).db = orgSessions org s.db := by
  have hactor : ∀ {ctx : AuthContext}, tenantOf env s l = some ctx.orgId → org ≠ ctx.orgId :=
    fun he ho => hne (he.trans (congrArg some ho.symm))
  have hsame : ∀ {db : Db}, db.sessions = s.db.sessions → orgSessions org db = orgSessions org s.db := by
    intro db hs
    rw [orgSessions, hs, orgSessions]
  cases serviceWrite_step h l with
  | aside users memberships sessions => exact hsame sessions
  | signup orgSlug orgName email password salt now ok =>
    obtain ⟨-, -, -, user, -, -, hdb⟩ := createOrgWithOwner_ok ok
    exact hsame (by rw [hdb])
  | member call pass ok =>
    rcases MemberCall.tx_cases ok with ⟨ctx, userId, role, rfl, htx⟩ | ⟨ctx, userId, rfl, htx⟩ |
      ⟨ctx, email, password, role, salt, now, rfl, -, user, -, -, hdb⟩
    · obtain ⟨-, -, -, hdb⟩ := setMemberRoleTx_ok htx
      exact hsame (by rw [hdb]; rfl)
    · exact orgSessions_removeMember hseated (hactor rfl) htx
    · exact hsame (by rw [hdb])
  | createSession ctx raw now pass ok =>
    obtain ⟨-, -, hdb⟩ := createSession_ok ok
    have hother : (ctx.orgId == org) = false := beq_false_of_ne (Ne.symm (hactor rfl))
    rw [hdb, orgSessions, List.filter_append]
    simp [orgSessions, hother]
  | changePassword ctx current new salt keepTokenHash pass ok =>
    exact orgSessions_changePassword h.tenants hseated (h.issued ctx (passes_iff.1 pass).1) (hactor rfl) ok
  | sessionsDeleted p cause eq =>
    rcases cause with ⟨raw, rfl, rfl⟩ | ⟨now, rfl⟩
    · rw [eq]
      refine filter_deleteWhere_of_disjoint fun sess hsess hs => beq_false_of_ne fun ho => hne ?_
      -- no other session has the hash
      have hfind : (s.db.sessions.find? fun sess => sess.tokenHash == env.sha256 raw).isSome :=
        List.find?_isSome.2 ⟨sess, hsess, hs⟩
      obtain ⟨found, hfound⟩ := Option.isSome_iff_exists.1 hfind
      have hhash := List.find?_some hfound
      obtain rfl := Table.eq_of_key htokens.hashes (List.mem_of_find?_eq_some hfound) hsess
        ((eq_of_beq hhash).trans (eq_of_beq hs).symm)
      rw [tenantOf, hfound, ← ho]
      rfl
    · exact absurd rfl (hl now)
  | deleteOrg ctx ok => exact orgSessions_deleteOrg hseated (hactor rfl) ok
  | ask stream ctx question provider refused now ok =>
    obtain ⟨-, -, a, -, -, -, -, -, -, hdb⟩ := recordAnswerTx_ok ok
    exact hsame (by rw [hdb])
  | block stream asked ok => exact hsame (by rw [← (Prod.mk.inj (Except.ok.inj ok)).2])
  | finalize stream usage estimated now asked ok => exact hsame (by rw [← (Prod.mk.inj (Except.ok.inj ok)).2])

/-! ## The process -/

/-- Whatever has happened before, a step of the process changes the rows of one org at most, and, unless it
purges the expired sessions, so it does with the sessions. -/
theorem process_step_one_tenant {s : Process} (hs : Process.Reachable env deployment s) (l : Process.Label) :
    ∃ tenant, ∀ org, org ≠ tenant →
      orgRows org (Process.step env deployment s l).store.db = orgRows org s.store.db ∧
      ((∀ now, l ≠ .purgeExpiredSessions now) →
        orgSessions org (Process.step env deployment s l).store.db = orgSessions org s.store.db) := by
  obtain ⟨ls, rfl⟩ := hs
  obtain ⟨ls', -, h⟩ := serves_init.run deployment ls
  set t := run (Service.step env) Service.init ls'
  have hinv : ServiceInv env t := serviceInv_of_reachable ⟨ls', rfl⟩
  obtain ⟨next, hone, hnext⟩ := h.step deployment l
  rw [← h.store.1, ← hnext.store.1]
  have hlen := hone.length
  rcases next with _ | ⟨l', _ | ⟨l'', next⟩⟩
  · exact ⟨0, fun _ _ => ⟨rfl, fun _ => rfl⟩⟩
  · refine ⟨(tenantOf env t l').getD 0, fun org hne => ?_⟩
    have hother : tenantOf env t l' ≠ some org := fun he => hne (by rw [he]; rfl)
    refine ⟨step_one_tenant hinv l' hother, fun hl => ?_⟩
    refine step_one_tenant_sessions hinv (seated_run ls') (sessionsSound_run ls').2 (fun now he => ?_) hother
    obtain ⟨now', hpurge⟩ := hone.spans l' List.mem_cons_self (by rw [he]; rfl)
    exact hl now' hpurge
  · simp at hlen

/-- Ann signs up while Gus does. -/
theorem process_step_one_tenant_signup :
    let signup := fun slug email => (⟨.signup slug "Org" email "password", none, none, none⟩ : HttpRequest)
    let s := run (Process.step (asciiEnv id) alike) Process.init
      [.request 0 (signup "acme" "ann"), .request 1 (signup "globex" "gus"), .advance 0 ⟨0, 0, "a"⟩,
        .advance 1 ⟨0, 0, "b"⟩, .advance 1 ⟨0, 0, "c"⟩]
    let s' := Process.step (asciiEnv id) alike s (.advance 0 ⟨0, 0, "d"⟩)
    ∃ tenant, ∀ org, org ≠ tenant → orgRows org s'.store.db = orgRows org s.store.db ∧
      orgSessions org s'.store.db = orgSessions org s.store.db :=
  (process_step_one_tenant ⟨_, rfl⟩ _).imp fun _ h org hne => (h org hne).imp_right fun hs => hs (by simp)

end KnowledgeDesk.Proofs
