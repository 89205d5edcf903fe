import KnowledgeDesk.Proofs.RequestsProofs
import Mathlib.Data.List.Forall2

/-!
# The trail of a request in the audit log

Nine calls of `audit.log` in `main.py` come after what they tell of and before the response. So a request of
such a route that returns has made one entry, under the context it acts under and about what one of its turns
has done before; one that raises has made none, and neither does the handler of another route. The stream that
`ask` answers with is no part of its handler. The entry is missing only where the org or the user was gone by
the time it was to be made.
-/

namespace KnowledgeDesk.Proofs

open Resume Runs Table

variable {env : Env} {deployment : Deployment} {ctx : AuthContext}

/-! ## Steps that make no entry -/

/-- What remains of an entry: its actor may be gone. -/
def Remains (a' a : AuditRow) : Prop := a' = a ∨ a' = { a with actorUserId := none }

/-- No entry has been made: those there are were there before. -/
def Silent (db db' : Db) : Prop := List.SublistForall₂ Remains db'.auditLog db.auditLog

theorem silent_of_eq {db db' : Db} (h : db'.auditLog = db.auditLog) : Silent db db' :=
  List.sublistForall₂_iff.2 ⟨db.auditLog, h ▸ List.forall₂_same.2 fun _ _ => .inl rfl, .refl _⟩

/-- Users who are gone leave their entries behind, without their name. -/
theorem silent_purge (userIds : List Uuid) {db db' : Db} (h : db'.auditLog.Sublist db.auditLog) :
    Silent db (purgeStrandedUsers userIds db') := by
  refine List.sublistForall₂_iff.2 ⟨db'.auditLog, ?_, h⟩
  refine List.forall₂_map_left_iff.2 (List.forall₂_same.2 fun a _ => ?_)
  split
  · exact .inr rfl
  · exact .inl rfl

/-- A handler none of whose steps makes an entry. -/
abbrev Silences {α : Type} (h : Handler α) : Prop := h.Each fun _ x x' => Silent x.db x'.db

theorem silences_of_same {α : Type} {h : Handler α} (hh : h.Each fun _ => SameDb) : Silences h :=
  hh.mono fun _ _ _ hx => silent_of_eq (congrArg Db.auditLog hx)

section Calls

variable {α : Type} {drawn : Nat}

theorem silences_gated {g : Except Err Unit} {tx : Input → Uuid → Tx Db Err α}
    (h : ∀ input fresh db a db', tx input fresh db = .ok (a, db') → Silent db db') :
    Silences (Api.call drawn fun input fresh => gate g >>= fun _ => Proc.transact (tx input fresh)) :=
  each_gated (fun _ => silent_of_eq rfl) fun _ => h

theorem silences_transact {tx : Input → Uuid → Tx Db Err α}
    (h : ∀ input fresh db a db', tx input fresh db = .ok (a, db') → Silent db db') :
    Silences (Api.call drawn fun input fresh => Proc.transact (tx input fresh)) :=
  silences_gated (g := .ok ()) h

theorem silences_readOnly {method : Input → Uuid → Scope α} (h : ∀ input fresh, Proc.ReadOnly (method input fresh)) :
    Silences (Api.call drawn method) := silences_of_same (each_readOnly h)

theorem silences_createSession : Silences (Api.createSession env ctx) := by
  refine silences_transact fun input fresh db a db' h => ?_
  obtain ⟨-, -, rfl⟩ := createSession_ok h
  exact silent_of_eq rfl

theorem silences_enqueueAll (jobs : List PendingJob) : Silences (Api.enqueueAll env jobs) := by
  induction jobs with
  | nil => trivial
  | cons job jobs ih =>
    refine Each.bind (silences_transact fun input fresh db created db' h => ?_) fun _ => ih
    rcases enqueuePending_cases h with ⟨-, rfl⟩ | ⟨-, j, -, -, -, -, -, -, rfl⟩
    · exact silent_of_eq rfl
    · exact silent_of_eq rfl

theorem silent_addMember {orgId : Uuid} {email password salt : String} {role : Role} {fresh id : Uuid} {now : Time}
    {db db' : Db} (h : addMember env orgId email password role salt fresh now db = .ok (id, db')) :
    Silent db db' := by
  obtain ⟨-, -, -, rfl⟩ := addMember_inserted h
  exact silent_of_eq rfl

theorem silent_removeMember {userId : Uuid} {db db' : Db} {u : Unit}
    (h : removeMemberTx ctx userId db = .ok (u, db')) : Silent db db' := by
  obtain ⟨-, -, -, rfl⟩ := removeMemberTx_ok h
  exact silent_purge [userId] (.refl _)

theorem silent_syncTx {precheck : Db → Except Err Unit} {orgId : Uuid} {source : String} {items : List Item}
    {fresh : Uuid} {now : Time} {db db' : Db} {r : SyncResult × List PendingJob}
    (h : syncTx env precheck orgId source items fresh now db = .ok (r, db')) : Silent db db' := by
  refine silent_of_eq (syncTx_keeps (P := fun d => d.auditLog = db.auditLog) rfl ?_ (fun _ _ h => h) h)
  rintro item - id d d' ⟨i, revision⟩ hd hup
  rcases upsertDocument_cases hup with ⟨-, -, -, -, -, rfl⟩ | ⟨-, -, -, -, rfl⟩
  · exact hd
  · exact hd

end Calls

/-! ## The entry -/

/-- The turn makes the entry, unless the org or its user is gone. -/
def Enters (env : Env) (ctx : AuthContext) (action : String) (detail : List (String × DetailValue))
    (t : Taken Input Store) : Prop :=
  if t.before.db.hasOrg ctx.orgId && t.before.db.hasUser ctx.userId then
    t.after.db = { t.before.db with auditLog := t.before.db.auditLog ++
      [⟨ctx.orgId, some ctx.userId, action, Pii.redactDetail env detail, t.input.now⟩] }
  else t.after.db = t.before.db

/-- The first of the turns has found the session of the request. -/
def Found (env : Env) (req : HttpRequest) (ts : List (Taken Input Store)) (token : String) (ctx : AuthContext) :
    Prop :=
  Api.bearerToken env req = .ok token ∧ ∃ t, ts.head? = some t ∧
    resolveSession env token t.input.now t.before.db = some ctx

/-- The turn has done what a route under a session is for, and the log has this to say of it. -/
inductive Worked (env : Env) (token : String) (ctx : AuthContext) (t : Taken Input Store) :
    Endpoint → String → List (String × DetailValue) → Prop
  | changePassword {current new : String} {revoked : Nat}
      (h : Proc.transact (changePassword env ctx.userId current new t.input.secret (env.sha256 token)) t.before.db =
        (.ok revoked, t.after.db)) :
      Worked env token ctx t (.changePassword current new) "user.password_changed" [("sessions_revoked", .num revoked)]
  | addMember {email password : String} {role : Role} {userId : Uuid}
      (h : addMemberRoute env ctx email password role t.input.secret t.before.nextId t.input.now t.before.db =
        (.ok userId, t.after.db)) :
      Worked env token ctx t (.addMember email password role) "member.added"
        [("user_id", .str (toString userId)), ("role", .str (Api.roleText role))]
  | setMemberRole {userId : Uuid} {role : Role}
      (h : setMemberRole ctx userId role t.before.db = (.ok (), t.after.db)) :
      Worked env token ctx t (.setMemberRole userId role) "member.role_changed"
        [("user_id", .str (toString userId)), ("role", .str (Api.roleText role))]
  | removeMember {userId : Uuid} (h : removeMember ctx userId t.before.db = (.ok (), t.after.db)) :
      Worked env token ctx t (.removeMember userId) "member.removed" [("user_id", .str (toString userId))]
  | uploadFolder {documents : List Item} {result : SyncResult} {toEnqueue : List PendingJob}
      (hrole : requireRole ctx .admin = .ok ())
      (h : Proc.transact (syncTx env (checkCaps env ctx.orgId documents) ctx.orgId Api.LOCAL_FOLDER_SOURCE documents
        t.before.nextId t.input.now) t.before.db = (.ok (result, toEnqueue), t.after.db)) :
      Worked env token ctx t (.uploadFolder documents) "source.synced"
        [("enqueued", .num result.enqueued), ("unchanged", .num result.unchanged), ("deleted", .num result.deleted)]
  | deleteDocument {documentId : Uuid} (h : deleteDocument ctx documentId t.before.db = (.ok (), t.after.db)) :
      Worked env token ctx t (.deleteDocument documentId) "document.deleted"
        [("document_id", .str (toString documentId))]
  | updateDocumentAcl {documentId : Uuid} {acl : List String}
      (h : updateDocumentAcl ctx documentId acl t.input.now t.before.db = (.ok (), t.after.db)) :
      Worked env token ctx t (.updateDocumentAcl documentId acl) "document.acl_changed"
        [("document_id", .str (toString documentId))]

/-- One of the turns has done what the request is for, under the context. -/
inductive Did (env : Env) (req : HttpRequest) (ts : List (Taken Input Store)) (ctx : AuthContext) :
    String → List (String × DetailValue) → Prop
  | signup {orgSlug orgName email password : String} {t : Taken Input Store}
      (hreq : req.endpoint = .signup orgSlug orgName email password) (ht : t ∈ ts)
      (h : Proc.transact (createOrgWithOwner env orgSlug orgName email password t.input.secret t.before.nextId
        (t.before.nextId + 1) t.input.now) t.before.db = (.ok ctx, t.after.db)) :
      Did env req ts ctx "org.created" [("slug", .str orgSlug)]
  | login {email password : String} {orgSlug : Option String} {t : Taken Input Store}
      (hreq : req.endpoint = .login email password orgSlug) (ht : t ∈ ts)
      (h : authenticate env email password orgSlug t.before.db = .ok ctx) :
      Did env req ts ctx "user.login" []
  | underSession {token action : String} {detail : List (String × DetailValue)} {t : Taken Input Store}
      (hfound : Found env req ts token ctx) (ht : t ∈ ts) (h : Worked env token ctx t req.endpoint action detail) :
      Did env req ts ctx action detail

/-- The turn enters what one of the turns before it has done. -/
def Entry (env : Env) (req : HttpRequest) (ts : List (Taken Input Store)) (t : Taken Input Store) : Prop :=
  ∃ ctx action detail, Did env req ts ctx action detail ∧ Enters env ctx action detail t

theorem Found.append {req : HttpRequest} {ts : List (Taken Input Store)} {token : String}
    (h : Found env req ts token ctx) (ts' : List (Taken Input Store)) : Found env req (ts ++ ts') token ctx := by
  obtain ⟨hbearer, t, ht, hsession⟩ := h
  exact ⟨hbearer, t, by rw [List.head?_append, ht, Option.some_or], hsession⟩

theorem Did.append {req : HttpRequest} {ts : List (Taken Input Store)} {action : String}
    {detail : List (String × DetailValue)} (h : Did env req ts ctx action detail)
    (ts' : List (Taken Input Store)) : Did env req (ts ++ ts') ctx action detail := by
  cases h with
  | signup hreq ht h => exact .signup hreq (List.mem_append_left ts' ht) h
  | login hreq ht h => exact .login hreq (List.mem_append_left ts' ht) h
  | underSession hfound ht h => exact .underSession (hfound.append ts') (List.mem_append_left ts' ht) h

/-- A handler that makes an entry, after these turns. -/
abbrev Trails (env : Env) (req : HttpRequest) (ts : List (Taken Input Store)) (h : Handler HttpResponse) : Prop :=
  h.Marks (fun x x' => Silent x.db x'.db) fun ts' => Entry env req (ts ++ ts')

section Routes

variable {req : HttpRequest} {ts : List (Taken Input Store)}

/-- What a call has returned, it has returned in its one turn. -/
theorem path_call {α : Type} {drawn : Nat} {method : Input → Uuid → Scope α} {ts : List (Taken Input Store)} {a : α}
    (h : Path (Api.call drawn method) ts (.done (.ok a))) :
    ∃ t, ts = [t] ∧ method t.input t.before.nextId t.before.db = (.ok a, t.after.db) := by
  obtain ⟨input, x, rfl, ha⟩ := path_act h
  refine ⟨_, rfl, ?_⟩
  rcases hm : method input x.nextId x.db with ⟨e | a', db⟩ <;> simp only [hm] at ha ⊢
  · cases ha
  · rw [Except.ok.inj ha]

/-- What is done before makes no entry. -/
theorem trails_bind {α : Type} {h : Handler α} {g : α → Handler HttpResponse} (hh : Silences h)
    (hg : ∀ a ts', Path h ts' (.done (.ok a)) → Trails env req (ts ++ ts') (g a)) : Trails env req ts (h >>= g) := by
  refine hh.marks_bind fun a ts' hpath => ?_
  have hrest := hg a ts' hpath
  simp only [Trails, List.append_assoc] at hrest
  exact hrest

/-- `audit.log` returns, whatever has become of the entry. -/
theorem enters_audit (env : Env) (ctx : AuthContext) (action : String) (detail : List (String × DetailValue))
    (input : Input) (x : Store) :
    ∃ db, auditLog env ctx.orgId (some ctx.userId) action detail input.now x.db = (.ok (), db) ∧
      ∀ x' : Store, x'.db = db → Enters env ctx action detail ⟨input, x, x'⟩ := by
  by_cases hthere : (x.db.hasOrg ctx.orgId && x.db.hasUser ctx.userId) = true
  · have htx : auditTx env ctx.orgId (some ctx.userId) action detail input.now x.db = .ok ((), { x.db with
        auditLog := x.db.auditLog ++
          [⟨ctx.orgId, some ctx.userId, action, Pii.redactDetail env detail, input.now⟩] }) := by
      simp only [auditTx, Option.all_some, Db.references, if_pos hthere]
      rfl
    refine ⟨_, by simp only [auditLog, Proc.tryExcept, Proc.transact_of_ok htx]; rfl, fun x' hx' => ?_⟩
    rw [Enters, if_pos hthere, hx']
  · obtain ⟨e, htx⟩ : ∃ e, auditTx env ctx.orgId (some ctx.userId) action detail input.now x.db = .error e := by
      simp only [auditTx, Option.all_some, Db.references, if_neg hthere]
      exact ⟨_, rfl⟩
    refine ⟨x.db, by simp only [auditLog, Proc.tryExcept, Proc.transact_of_error htx]; rfl, fun x' hx' => ?_⟩
    rw [Enters, if_neg hthere, hx']

/-- The entry itself. -/
theorem trails_audit {action : String} {detail : List (String × DetailValue)} (h : Did env req ts ctx action detail) :
    (Api.audit env ctx action detail).Marks (fun x x' => Silent x.db x'.db) fun ts' => Entry env req (ts ++ ts') := by
  refine marks_act fun input x => ?_
  obtain ⟨db, hdb, henters⟩ := enters_audit env ctx action detail input x
  simp only [hdb]
  refine ⟨by simp, ctx, action, detail, ?_, henters _ rfl⟩
  rwa [List.append_nil]

/-- The entry, and the response after it. -/
theorem trails_audited {action : String} {detail : List (String × DetailValue)} {response : HttpResponse}
    (h : Did env req ts ctx action detail) :
    Trails env req ts (do
      Api.audit env ctx action detail
      return response) :=
  (trails_audit h).bind (fun _ => each_lift (.ok response)) fun _ => avoids_pure response

/-- A call that does what the route is for, its entry, and the response. -/
theorem trails_worked {α : Type} {drawn : Nat} {method : Input → Uuid → Scope α} {token action : String}
    {detail : α → List (String × DetailValue)} {response : α → HttpResponse} (hfound : Found env req ts token ctx)
    (hm : Silences (Api.call drawn method))
    (h : ∀ t a, method t.input t.before.nextId t.before.db = (.ok a, t.after.db) →
      Worked env token ctx t req.endpoint action (detail a)) :
    Trails env req ts (do
      let a ← Api.call drawn method
      Api.audit env ctx action (detail a)
      return response a) := by
  refine trails_bind hm fun a ts' hpath => ?_
  obtain ⟨t, rfl, ha⟩ := path_call hpath
  exact trails_audited (.underSession (hfound.append [t]) (List.mem_append_right ts List.mem_cons_self) (h t a ha))

theorem trails_signup {orgSlug orgName email password : String}
    (hreq : req.endpoint = .signup orgSlug orgName email password) :
    Trails env req ts (Api.signup env deployment req orgSlug orgName email password) := by
  refine trails_bind (silences_of_same (each_authRateLimit req)) fun _ ts₁ _ => ?_
  refine trails_bind (each_validated _) fun _ ts₂ _ => ?_
  refine trails_bind (silences_transact fun input fresh db ctx db' h => ?_) fun ctx ts₃ hpath => ?_
  · obtain ⟨-, -, -, -, rfl⟩ := createOrgWithOwner_inserted h
    exact silent_of_eq rfl
  · obtain ⟨t, rfl, hctx⟩ := path_call hpath
    refine trails_bind silences_createSession fun token ts₄ _ => ?_
    exact trails_audited ((Did.signup hreq (List.mem_append_right _ List.mem_cons_self) hctx).append ts₄)

theorem trails_login {email password : String} {orgSlug : Option String}
    (hreq : req.endpoint = .login email password orgSlug) :
    Trails env req ts (Api.login env deployment req email password orgSlug) := by
  refine trails_bind (silences_of_same (each_authRateLimit req)) fun _ ts₁ _ => ?_
  refine trails_bind (each_validated _) fun _ ts₂ _ => ?_
  refine trails_bind (silences_readOnly fun _ _ _ => rfl) fun ctx ts₃ hpath => ?_
  obtain ⟨t, rfl, hctx⟩ := path_call hpath
  refine trails_bind silences_createSession fun token ts₄ _ => ?_
  have hctx := congrArg Prod.fst hctx
  exact trails_audited ((Did.login hreq (List.mem_append_right _ List.mem_cons_self) hctx).append ts₄)

variable {token : String}

theorem trails_changePassword {current new : String} (hfound : Found env req ts token ctx)
    (hreq : req.endpoint = .changePassword current new) :
    Trails env req ts (Api.changePassword env deployment req ctx token current new) := by
  refine trails_bind (silences_of_same (each_authRateLimit req)) fun _ ts₁ _ => ?_
  refine trails_bind (each_validated _) fun _ ts₂ _ => ?_
  split
  · exact marks_error _
  · refine trails_worked ((hfound.append ts₁).append ts₂) (silences_transact fun input fresh db n db' h => ?_)
      fun t revoked h => hreq ▸ .changePassword h
    obtain ⟨-, rfl⟩ := changePassword_ok h
    exact silent_of_eq rfl

theorem trails_uploadFolder {documents : List Item} (hfound : Found env req ts token ctx)
    (hreq : req.endpoint = .uploadFolder documents) :
    Trails env req ts (Api.uploadFolder env ctx documents) := by
  cases hrole : requireRole ctx .admin with
  | error e =>
    simp only [Api.uploadFolder, hrole]
    exact marks_error _
  | ok u =>
    simp only [Api.uploadFolder, hrole]
    refine trails_bind (silences_of_same (each_require _)) fun _ ts₀ _ => ?_
    refine trails_bind (silences_transact fun input fresh db r db' h => silent_syncTx h) fun r ts₁ hpath => ?_
    obtain ⟨result, toEnqueue⟩ := r
    obtain ⟨t, rfl, hsync⟩ := path_call hpath
    have hworked := @Worked.uploadFolder env token ctx t _ _ _ hrole hsync
    rw [← hreq] at hworked
    have hdid := Did.underSession ((hfound.append ts₀).append [t]) (List.mem_append_right _ List.mem_cons_self) hworked
    refine trails_bind (silences_enqueueAll toEnqueue) fun _ ts₂ _ => ?_
    refine (trails_audit (hdid.append ts₂)).bind (fun _ => ?_) fun _ => ?_
    · split
      · exact Each.bind (each_act fun _ _ => silent_of_eq rfl) fun _ => trivial
      · trivial
    · split
      · exact Avoids.bind (avoids_act (by simp)) fun _ => avoids_pure _
      · exact avoids_pure _

/-- The request is one of those that `main.py` enters in the audit log. -/
def audited : Endpoint → Bool
  | .signup .. | .login .. | .changePassword .. | .addMember .. | .setMemberRole .. | .removeMember _
  | .uploadFolder _ | .deleteDocument _ | .updateDocumentAcl .. => true
  | .healthz | .logout | .me | .listMembers .. | .createGroup _ | .listGroups | .getGroup _ | .deleteGroup _
  | .listGroupMembers _ | .addGroupMember .. | .removeGroupMember .. | .listDocuments .. | .getDocument _
  | .exportOrg | .deleteOrg | .search .. | .ask .. | .auditLog .. | .usage | .feedback .. => false

theorem trails_route (hfound : Found env req ts token ctx) (haudited : audited req.endpoint = true)
    (hsignup : ∀ orgSlug orgName email password, req.endpoint ≠ .signup orgSlug orgName email password)
    (hlogin : ∀ email password orgSlug, req.endpoint ≠ .login email password orgSlug) :
    Trails env req ts (Api.route env deployment req ctx token) := by
  have hbounded : ∀ {endpoint : Endpoint} {handler : Handler HttpResponse},
      (∀ ts, Found env req ts token ctx → Trails env req ts handler) →
        Trails env req ts (Api.validated endpoint >>= fun _ => handler) := fun {endpoint _} h =>
    trails_bind (each_validated endpoint) fun _ ts' _ => h _ (hfound.append ts')
  cases hreq : req.endpoint <;> simp only [Api.route, hreq]
  case changePassword current new => exact trails_changePassword hfound hreq
  all_goals refine hbounded fun ts hfound => ?_
  case addMember email password role =>
    exact trails_worked hfound (silences_gated fun _ _ _ _ _ h => silent_addMember h) fun t _ h => hreq ▸ .addMember h
  case setMemberRole userId role =>
    refine trails_worked hfound (silences_gated fun _ _ _ _ _ h => ?_) fun t _ h => hreq ▸ .setMemberRole h
    obtain ⟨-, -, -, rfl⟩ := setMemberRoleTx_ok h
    exact silent_of_eq rfl
  case removeMember userId =>
    exact trails_worked hfound (silences_gated fun _ _ _ _ _ h => silent_removeMember h) fun t _ h =>
      hreq ▸ .removeMember h
  case uploadFolder documents => exact trails_uploadFolder hfound hreq
  case deleteDocument documentId =>
    refine trails_worked hfound (silences_gated fun _ _ _ _ _ h => ?_) fun t _ h => hreq ▸ .deleteDocument h
    obtain rfl := deleteDocumentTx_ok h
    exact silent_of_eq rfl
  case updateDocumentAcl documentId acl =>
    refine trails_worked hfound (silences_gated fun _ _ _ _ _ h => ?_) fun t _ h => hreq ▸ .updateDocumentAcl h
    obtain rfl := updateDocumentAclTx_ok h
    exact silent_of_eq rfl
  case signup orgSlug orgName email password => exact absurd hreq (hsignup orgSlug orgName email password)
  case login email password orgSlug => exact absurd hreq (hlogin email password orgSlug)
  all_goals simp [audited, hreq] at haudited

theorem silences_addGroupMember (groupId : Uuid) (email : String) :
    Silences (Api.addGroupMember env ctx groupId email) := by
  refine (silences_of_same (each_require _)).bind fun _ => ?_
  refine (silences_readOnly fun _ _ => Proc.ReadOnly.read _).bind fun user => ?_
  cases user with
  | none => trivial
  | some userId =>
    refine (silences_of_same (each_require _)).bind fun _ => ?_
    refine (silences_readOnly fun _ _ => readOnly_getGroup groupId).bind fun _ => ?_
    refine (silences_transact fun _ _ _ _ _ h => ?_).bind fun _ => each_lift _
    rcases (addGroupMemberTx_ok h).2 with rfl | ⟨-, rfl⟩
    · exact silent_of_eq rfl
    · exact silent_of_eq rfl

theorem silences_removeGroupMember (groupId userId : Uuid) :
    Silences (Api.removeGroupMember ctx groupId userId) := by
  refine (silences_of_same (each_require _)).bind fun _ => ?_
  refine (silences_readOnly fun _ _ => readOnly_getGroup groupId).bind fun _ => ?_
  refine (silences_transact fun _ _ _ _ _ h => ?_).bind fun _ => each_lift _
  obtain ⟨-, rfl⟩ := Prod.mk.inj (Except.ok.inj h)
  exact silent_of_eq rfl

theorem silent_deleteOrg {orgId : Uuid} {db db' : Db} {u : Unit} (h : deleteOrg orgId db = .ok (u, db')) :
    Silent db db' := by
  rw [deleteOrg_ok h]
  exact silent_purge _ sublist_deleteWhere

/-- The other routes make no entry. -/
theorem silences_route (req : HttpRequest) (token : String) (hunaudited : audited req.endpoint = false) :
    Silences (Api.route env deployment req ctx token) := by
  by_cases hasks : asksOnly req.endpoint = true
  · exact silences_of_same (each_asksOnly req token hasks)
  · cases hreq : req.endpoint <;> simp only [Api.route, hreq]
    case changePassword => simp [audited, hreq] at hunaudited
    all_goals apply each_bounded
    case createGroup name =>
      refine (silences_gated fun _ _ _ _ _ h => ?_).bind fun _ => each_lift _
      obtain ⟨-, rfl⟩ := createGroupTx_ok h
      exact silent_of_eq rfl
    case deleteGroup groupId =>
      refine (silences_gated fun _ _ _ _ _ h => ?_).bind fun _ => each_lift _
      obtain rfl := deleteGroupTx_ok h
      exact silent_of_eq rfl
    case addGroupMember groupId email => exact silences_addGroupMember groupId email
    case removeGroupMember groupId userId => exact silences_removeGroupMember groupId userId
    case deleteOrg =>
      refine (silences_of_same (each_require _)).bind fun _ => ?_
      exact (silences_transact fun _ _ _ _ _ h => silent_deleteOrg h).bind fun _ => each_lift _
    case ask => exact Each.bind (each_act fun _ _ => silent_of_eq rfl) fun _ => trivial
    case feedback answerId rating note =>
      refine (silences_transact fun _ _ _ _ _ h => ?_).bind fun _ => each_lift _
      obtain ⟨-, -, rfl⟩ := addFeedbackTx_ok h
      exact silent_of_eq rfl
    case signup | login | logout => trivial
    all_goals simp [audited, asksOnly, hreq] at hunaudited hasks

/-! ## The request as a whole -/

theorem path_currentCtx {ts : List (Taken Input Store)} (h : Path (Api.currentCtx env token) ts (.done (.ok ctx))) :
    ∃ t, ts = [t] ∧ resolveSession env token t.input.now t.before.db = some ctx := by
  rw [currentCtx_eq] at h
  cases h with
  | @step _ _ input x ts _ rest =>
    dsimp only at rest
    cases hsession : resolveSession env token input.now x.db with
    | none =>
      rw [hsession] at rest
      cases Resume.done.inj (path_done rest).2
    | some ctx' =>
      rw [hsession] at rest
      obtain ⟨rfl, hctx⟩ := path_done rest
      obtain rfl := Except.ok.inj (Resume.done.inj hctx)
      exact ⟨_, rfl, hsession⟩

theorem trails_handle (haudited : audited req.endpoint = true) :
    Trails env req [] (Api.handle env deployment req) := by
  have hsession : (∀ orgSlug orgName email password, req.endpoint ≠ .signup orgSlug orgName email password) →
      (∀ email password orgSlug, req.endpoint ≠ .login email password orgSlug) → Trails env req [] (do
        let token ← Resume.lift (Api.bearerToken env req)
        let ctx ← Api.currentCtx env token
        Api.route env deployment req ctx token) := by
    intro hsignup hlogin
    cases hbearer : Api.bearerToken env req with
    | error e => exact marks_error e
    | ok token =>
      show Trails env req [] (Api.currentCtx env token >>= fun ctx => Api.route env deployment req ctx token)
      refine trails_bind (silences_of_same (each_currentCtx token)) fun ctx ts₁ hpath => ?_
      obtain ⟨t, rfl, hctx⟩ := path_currentCtx hpath
      exact trails_route ⟨hbearer, t, rfl, hctx⟩ haudited hsignup hlogin
  cases hreq : req.endpoint <;> simp only [Api.handle, hreq]
  case signup orgSlug orgName email password => exact trails_signup hreq
  case login email password orgSlug => exact trails_login hreq
  case healthz | logout => simp [audited, hreq] at haudited
  all_goals exact hsession (by simp [hreq]) (by simp [hreq])

theorem silences_handle (req : HttpRequest) (hunaudited : audited req.endpoint = false) :
    Silences (Api.handle env deployment req) := by
  have hsession : Silences (do
      let token ← Resume.lift (Api.bearerToken env req)
      let ctx ← Api.currentCtx env token
      Api.route env deployment req ctx token) :=
    (each_lift _).bind fun token => (silences_of_same (each_currentCtx token)).bind fun ctx =>
      silences_route req token hunaudited
  cases hreq : req.endpoint <;> simp only [Api.handle, hreq]
  case healthz => trivial
  case signup | login => simp [audited, hreq] at hunaudited
  case logout =>
    refine (each_lift _).bind fun token => (silences_transact fun _ _ _ _ _ h => ?_).bind fun _ => each_lift _
    obtain ⟨-, rfl⟩ := Prod.mk.inj (Except.ok.inj h)
    exact silent_of_eq rfl
  all_goals exact hsession

end Routes

/-- What a request has left in the audit log by now. -/
inductive Trail (env : Env) (req : HttpRequest) (ts : List (Taken Input Store)) (c : Conn) : Prop
  | none (hts : ∀ t ∈ ts, Silent t.before.db t.after.db)
      (hc : audited req.endpoint = true → ∀ response, c ≠ .handling (.done (.ok response)))
  | one {ts₁ : List (Taken Input Store)} {t : Taken Input Store} {ts₂ : List (Taken Input Store)}
      (hts : ts = ts₁ ++ t :: ts₂) (hothers : ∀ u ∈ ts₁ ++ ts₂, Silent u.before.db u.after.db)
      (hentry : Entry env req ts₁ t) (hc : ∀ e, c ≠ .handling (.done (.error e)))

/-- At every moment of a run, whatever others do meanwhile: a request has made no entry in the audit log, and
is not answered if its route makes one; or it has made one, about what one of its turns has done before, and
does not raise. -/
theorem audit_trail {s : Process} {conn : Nat} {req : HttpRequest} (hidle : s.conns conn = .idle)
    (ls : List Process.Label) :
    Trail env req (Process.turns env deployment conn s (.request conn req :: ls))
      ((run (Process.step env deployment) s (.request conn req :: ls)).conns conn) := by
  obtain ⟨h', hpath, hleft⟩ := path_request env deployment hidle req ls
  cases haudited : audited req.endpoint with
  | false =>
    refine .none ((silences_handle req haudited).path hpath) fun h => ?_
    rw [haudited] at h
    cases h
  | true =>
    cases trails_handle haudited _ _ hpath with
    | before hts hh' => exact .none hts fun _ response hc => hh' response (hleft _ hc)
    | after hts hothers hentry hh' => exact .one hts hothers hentry fun e hc => hh' e (hleft _ hc)

/-- The owner uploads a document. -/
theorem audit_trail_upload :
    let req := bearing "token" (.uploadFolder [⟨"a.md", "text", none⟩])
    let ls := [.request 0 req, .advance 0 atStart, .advance 0 atStart, .advance 0 atStart, .advance 0 atStart]
    let s := run (Process.step plainEnv alike) signedIn ls
    s.store.db.auditLog.map (·.action) = ["source.synced"] ∧
      Trail plainEnv req (Process.turns plainEnv alike 0 signedIn ls) (s.conns 0) :=
  ⟨by decide, audit_trail rfl _⟩

end KnowledgeDesk.Proofs
