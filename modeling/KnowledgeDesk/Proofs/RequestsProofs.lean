import KnowledgeDesk.Proofs.OwnershipProofs
import KnowledgeDesk.Proofs.ProcessProofs

/-!
# What a request can do

A request runs between the steps of others, so what is said of it is said of each of its steps, from
whatever store it finds. A request that the server refuses for the caller's fault has changed nothing,
whenever it is refused; one that only asks never changes anything; and what it changes for the org as a
whole, it changes under a session of an admin or an owner.
-/

namespace KnowledgeDesk.Proofs

open Resume Runs

variable {env : Env} {deployment : Deployment} {ctx : AuthContext}

/-! ## Refusals -/

/-- The caller's fault. -/
def ClientError (e : HttpError) : Prop := e.status < 500

/-- The database is as it was. -/
def SameDb (x x' : Store) : Prop := x'.db = x.db

/-- A refused request has changed nothing. -/
abbrev Refuses {α : Type} (h : Handler α) : Prop := h.Undoes ClientError SameDb

/-- What is left of a request that is not refused any more. -/
abbrev Completes {α : Type} (h : Handler α) : Prop := h.Avoids ClientError

section Calls

variable {α : Type} {drawn : Nat} {method : Input → Uuid → Scope α}

/-- A call does to the database what its method does. -/
theorem each_call {P : Db → Db → Prop} (h : ∀ input fresh db, P db (method input fresh db).2) :
    (Api.call drawn method).Each fun _ x x' => P x.db x'.db := by
  refine each_act fun input x => ?_
  have hx := h input x.nextId x.db
  rcases hm : method input x.nextId x.db with ⟨e | a, db⟩ <;> rw [hm] at hx <;> exact hx

/-- A call whose transaction commits under a gate it has passed, or changes nothing. -/
theorem each_gated {P : Db → Db → Prop} {g : Except Err Unit} {tx : Input → Uuid → Tx Db Err α}
    (hrefl : ∀ db, P db db)
    (h : g = .ok () → ∀ input fresh db a db', tx input fresh db = .ok (a, db') → P db db') :
    (Api.call drawn fun input fresh => gate g >>= fun _ => Proc.transact (tx input fresh)).Each
      fun _ x x' => P x.db x'.db := by
  refine each_call fun input fresh db => ?_
  rcases hcall : (gate g >>= fun _ => Proc.transact (tx input fresh)) db with ⟨e | a, db'⟩
  · rw [gated_error hcall]
    exact hrefl db
  · obtain ⟨hg, htx⟩ := gated_ok hcall
    exact h hg input fresh db a db' htx

theorem each_readOnly (h : ∀ input fresh, Proc.ReadOnly (method input fresh)) :
    (Api.call drawn method).Each fun _ => SameDb :=
  each_call (P := fun db db' => db' = db) fun input fresh db => h input fresh db

/-- A method that leaves the database as it was where it raises. -/
theorem refuses_call (h : ∀ input fresh db e db', method input fresh db = (.error e, db') → db' = db) :
    Refuses (Api.call drawn method) := by
  refine undoes_act fun input x e he _ => ?_
  rcases hm : method input x.nextId x.db with ⟨e' | a, db⟩ <;> simp only [hm] at he ⊢
  · exact h _ _ _ _ _ hm
  · cases he

theorem refuses_gated {g : Except Err Unit} {tx : Input → Uuid → Tx Db Err α} :
    Refuses (Api.call drawn fun input fresh => gate g >>= fun _ => Proc.transact (tx input fresh)) :=
  refuses_call fun _ _ _ _ _ h => gated_error h

theorem refuses_transact {tx : Input → Uuid → Tx Db Err α} :
    Refuses (Api.call drawn fun input fresh => Proc.transact (tx input fresh)) :=
  refuses_gated (g := .ok ())

/-- A method that raises nothing but what the database raises. -/
theorem completes_call (h : ∀ input fresh db e, (method input fresh db).1 = .error e → ∃ d, e = .db d) :
    Completes (Api.call drawn method) := by
  refine avoids_act fun input x e he => ?_
  rcases hm : method input x.nextId x.db with ⟨e' | a, db⟩ <;> simp only [hm] at he
  · obtain ⟨d, rfl⟩ := h input x.nextId x.db e' (by rw [hm])
    obtain rfl := Except.error.inj he
    exact Nat.lt_irrefl 500
  · cases he

end Calls

theorem completes_audit (action : String) (detail : List (String × DetailValue)) :
    Completes (Api.audit env ctx action detail) := by
  refine completes_call fun input fresh db e he => ?_
  rcases htx : auditTx env ctx.orgId (some ctx.userId) action detail input.now db with e' | ⟨⟨⟩, db₁⟩
  · simp only [auditLog, Proc.tryExcept, Proc.transact_of_error htx] at he
    cases he
  · simp only [auditLog, Proc.tryExcept, Proc.transact_of_ok htx] at he
    cases he

theorem completes_audited (action : String) (detail : List (String × DetailValue)) (response : HttpResponse) :
    Completes (do
      Api.audit env ctx action detail
      return response) := (completes_audit action detail).bind fun _ => avoids_pure response

theorem transact_error {α : Type} {tx : Tx Db Err α} {db : Db} {e : Err}
    (h : (Proc.transact tx db).1 = .error e) : tx db = .error e := by
  rcases htx : tx db with e' | ⟨a, db'⟩
  · rw [Proc.transact_of_error htx] at h
    exact congrArg _ (Except.error.inj h)
  · rw [Proc.transact_of_ok htx] at h
    cases h

theorem references_error {p : Bool} {e : Err} (h : Db.references p = .error e) : ∃ d, e = .db d := by
  unfold Db.references at h
  split at h
  · cases h
  · exact ⟨_, (Except.error.inj h).symm⟩

theorem completes_createSession : Completes (Api.createSession env ctx) := by
  refine completes_call fun input fresh db e he => ?_
  have he := transact_error he
  simp only [createSession] at he
  split at he
  · exact ⟨_, (Except.error.inj he).symm⟩
  · rcases href : Db.references (db.hasUser ctx.userId && db.hasOrg ctx.orgId) with e' | u <;> rw [href] at he
    · obtain rfl := Except.error.inj he
      exact references_error href
    · cases he

theorem completes_enqueueAll (jobs : List PendingJob) : Completes (Api.enqueueAll env jobs) := by
  induction jobs with
  | nil => exact avoids_pure ()
  | cons job jobs ih =>
    refine (completes_call fun input fresh db e he => ?_).bind fun _ => ih
    have he := transact_error he
    simp only [enqueuePending, enqueue] at he
    split at he
    · cases he
    · rcases href : Db.references (db.hasOrg job.orgId) with e' | u <;> rw [href] at he
      · obtain rfl := Except.error.inj he
        exact references_error href
      · cases he

theorem each_authRateLimit (req : HttpRequest) : (Api.authRateLimit deployment req).Each fun _ => SameDb :=
  each_act fun _ _ => rfl

theorem each_validated {P : Input → Store → Store → Prop} (endpoint : Endpoint) : (Api.validated endpoint).Each P := by
  unfold Api.validated
  split <;> trivial

/-- Whatever holds of what comes after the check of the bounds. -/
theorem each_bounded {P : Input → Store → Store → Prop} {endpoint : Endpoint} {handler : Handler HttpResponse}
    (h : handler.Each P) : (Api.validated endpoint >>= fun _ => handler).Each P :=
  (each_validated endpoint).bind fun _ => h

theorem each_require (g : Except Err Unit) : (Api.require g).Each fun _ => SameDb := each_lift _

theorem each_currentCtx (token : String) : (Api.currentCtx env token).Each fun _ => SameDb := by
  refine (each_readOnly fun _ _ => Proc.ReadOnly.read _).bind fun r => ?_
  cases r <;> trivial

/-! ## Requests that only ask -/

/-- The request is one of those that change nothing: a `GET`, or `/search`. -/
def asksOnly : Endpoint → Bool
  | .healthz | .me | .listMembers .. | .listGroups | .getGroup _ | .listGroupMembers _ | .listDocuments ..
  | .getDocument _ | .exportOrg | .search .. | .auditLog .. | .usage => true
  | .signup .. | .login .. | .logout | .changePassword .. | .addMember .. | .setMemberRole .. | .removeMember _
  | .createGroup _ | .deleteGroup _ | .addGroupMember .. | .removeGroupMember .. | .uploadFolder _
  | .deleteDocument _ | .updateDocumentAcl .. | .deleteOrg | .ask .. | .feedback .. => false

/-- A method that reads, and a response. -/
theorem each_response {α : Type} {method : Scope α} (hm : Proc.ReadOnly method) (response : α → HttpResponse) :
    (do return response (← Api.read method) : Handler HttpResponse).Each fun _ => SameDb :=
  (each_readOnly fun _ _ => hm).bind fun a => each_lift (.ok (response a))

theorem each_asksOnly (req : HttpRequest) (token : String) (h : asksOnly req.endpoint = true) :
    (Api.route env deployment req ctx token).Each fun _ => SameDb := by
  have hread : ∀ {α : Type} {f : Db → α}, Proc.ReadOnly (Proc.read f : Scope α) := fun {_ f} => .read f
  have hgated : ∀ {α : Type} {g : Except Err Unit} {f : Db → α},
      Proc.ReadOnly (gate g >>= fun _ => Proc.read f : Scope α) := fun {_ g f} =>
    (readOnly_gate g).bind fun _ => .read f
  cases hreq : req.endpoint <;> simp only [Api.route, hreq]
  case changePassword => simp [asksOnly, hreq] at h
  all_goals apply each_bounded
  case listMembers => exact (each_readOnly fun _ _ => hread).bind fun total => each_response hread _
  case listGroups => exact each_response hread _
  case getGroup groupId => exact each_response (readOnly_getGroup groupId) _
  case listGroupMembers groupId => exact each_response ((readOnly_getGroup groupId).bind fun _ => hread) _
  case listDocuments => exact (each_readOnly fun _ _ => hread).bind fun total => each_response hread _
  case getDocument documentId => exact each_response (readOnly_getDocument documentId) _
  case exportOrg => exact each_response readOnly_exportOrg _
  case search query k => exact (each_lift _).bind fun embedding => each_response (hread.bind fun _ => hread) _
  case auditLog => exact (each_readOnly fun _ _ => hgated).bind fun total => each_response hgated _
  case usage => exact (each_readOnly fun _ _ => readOnly_usageSummary _).bind fun _ => each_lift _
  case healthz | me => trivial
  all_goals simp [asksOnly, hreq] at h

/-! ## Requests that change something -/

section Refusals

/-- A method whose call is all the request does. -/
theorem refuses_response {α : Type} {h : Handler α} (hr : Refuses h) (response : α → HttpResponse) :
    Refuses (do return response (← h)) := hr.bind fun a => avoids_pure (response a)

/-- A method, and the entry in the audit log after it. -/
theorem refuses_audited {α : Type} {h : Handler α} (hr : Refuses h) (action : String)
    (detail : α → List (String × DetailValue)) (response : α → HttpResponse) :
    Refuses (do
      let a ← h
      Api.audit env ctx action (detail a)
      return response a) := hr.bind fun a => completes_audited action (detail a) (response a)

theorem refuses_signup (req : HttpRequest) (orgSlug orgName email password : String) :
    Refuses (Api.signup env deployment req orgSlug orgName email password) := by
  refine (each_authRateLimit req).undoes_bind fun _ => (each_validated _).undoes_bind fun _ =>
    refuses_transact.bind fun ctx => ?_
  exact completes_createSession.bind fun token => completes_audited _ _ _

theorem refuses_login (req : HttpRequest) (email password : String) (orgSlug : Option String) :
    Refuses (Api.login env deployment req email password orgSlug) := by
  refine (each_authRateLimit req).undoes_bind fun _ => (each_validated _).undoes_bind fun _ => ?_
  refine (refuses_call fun _ _ _ _ _ h => (Prod.mk.inj h).2.symm).bind fun ctx => ?_
  exact completes_createSession.bind fun token => completes_audited _ _ _

theorem refuses_changePassword (req : HttpRequest) (token current new : String) :
    Refuses (Api.changePassword env deployment req ctx token current new) := by
  refine (each_authRateLimit req).undoes_bind fun _ => (each_validated _).undoes_bind fun _ => ?_
  split
  · trivial
  · exact refuses_audited refuses_transact _ _ _

theorem refuses_addGroupMember (groupId : Uuid) (email : String) :
    Refuses (Api.addGroupMember env ctx groupId email) := by
  refine (each_require _).undoes_bind fun _ =>
    (each_readOnly fun _ _ => Proc.ReadOnly.read _).undoes_bind fun user => ?_
  cases user with
  | none => trivial
  | some userId =>
    refine (each_require _).undoes_bind fun _ =>
      (each_readOnly fun _ _ => readOnly_getGroup groupId).undoes_bind fun _ => ?_
    exact refuses_response refuses_transact _

theorem refuses_removeGroupMember (groupId userId : Uuid) :
    Refuses (Api.removeGroupMember ctx groupId userId) := by
  refine (each_require _).undoes_bind fun _ =>
    (each_readOnly fun _ _ => readOnly_getGroup groupId).undoes_bind fun _ => ?_
  exact refuses_response refuses_transact _

theorem refuses_uploadFolder (documents : List Item) : Refuses (Api.uploadFolder env ctx documents) := by
  refine (each_require _).undoes_bind fun _ => refuses_transact.bind fun r => ?_
  refine (completes_enqueueAll r.2).bind fun _ => (completes_audit _ _).bind fun _ => ?_
  split
  · exact (avoids_act (by simp)).bind fun _ => avoids_pure _
  · exact avoids_pure _

theorem refuses_route (req : HttpRequest) (token : String) :
    Refuses (Api.route env deployment req ctx token) := by
  by_cases hasks : asksOnly req.endpoint = true
  · exact (each_asksOnly req token hasks).undoes
  · have hbounded : ∀ {endpoint : Endpoint} {handler : Handler HttpResponse}, Refuses handler →
        Refuses (Api.validated endpoint >>= fun _ => handler) :=
      fun {endpoint _} h => (each_validated endpoint).undoes_bind fun _ => h
    cases hreq : req.endpoint <;> simp only [Api.route, hreq]
    case changePassword current new => exact refuses_changePassword req token current new
    all_goals apply hbounded
    case addMember => exact refuses_audited refuses_gated _ _ _
    case setMemberRole => exact refuses_audited refuses_gated _ _ _
    case removeMember => exact refuses_audited refuses_gated _ _ _
    case createGroup => exact refuses_response refuses_gated _
    case deleteGroup => exact refuses_response refuses_gated _
    case addGroupMember groupId email => exact refuses_addGroupMember groupId email
    case removeGroupMember groupId userId => exact refuses_removeGroupMember groupId userId
    case uploadFolder documents => exact refuses_uploadFolder documents
    case deleteDocument => exact refuses_audited refuses_gated _ _ _
    case updateDocumentAcl => exact refuses_audited refuses_gated _ _ _
    case deleteOrg => exact (each_require _).undoes_bind fun _ => refuses_response refuses_transact _
    case ask => exact Each.undoes_bind (each_act (P := fun _ => SameDb) fun _ _ => rfl) fun _ => trivial
    case feedback => exact refuses_response refuses_transact _
    case signup | login | logout => trivial
    all_goals simp [asksOnly, hreq] at hasks

theorem refuses_handle (req : HttpRequest) : Refuses (Api.handle env deployment req) := by
  have hroute : Refuses (do
      let token ← Resume.lift (Api.bearerToken env req)
      let ctx ← Api.currentCtx env token
      Api.route env deployment req ctx token) :=
    (each_lift _).undoes_bind fun token => (each_currentCtx token).undoes_bind fun ctx => refuses_route req token
  cases hreq : req.endpoint <;> simp only [Api.handle, hreq]
  case healthz => trivial
  case signup orgSlug orgName email password => exact refuses_signup req orgSlug orgName email password
  case login email password orgSlug => exact refuses_login req email password orgSlug
  case logout => exact (each_lift _).undoes_bind fun token => refuses_response refuses_transact _
  all_goals exact hroute

end Refusals

/-! ## Requests under a session of a member -/

/-- What a request may do to the database without a session of an admin: change sessions and passwords,
and add feedback and entries of the audit log. -/
structure Unprivileged (db db' : Db) : Prop where
  frame : db' = { db with
    users := db'.users, sessions := db'.sessions, feedback := db'.feedback, auditLog := db'.auditLog }
  users : db'.users.map (fun u => (u.id, u.email)) = db.users.map fun u => (u.id, u.email)
  feedback : db.feedback <+: db'.feedback
  auditLog : db.auditLog <+: db'.auditLog

theorem Unprivileged.refl (db : Db) : Unprivileged db db := ⟨rfl, rfl, List.prefix_rfl, List.prefix_rfl⟩

theorem Unprivileged.sessions (db : Db) (sessions : List Session) : Unprivileged db { db with sessions } :=
  ⟨rfl, rfl, List.prefix_rfl, List.prefix_rfl⟩

/-- A handler each of whose steps an unprivileged request may take. -/
abbrev Unprivileges {α : Type} (h : Handler α) : Prop := h.Each fun _ x x' => Unprivileged x.db x'.db

theorem SameDb.unprivileged {x x' : Store} (h : SameDb x x') : Unprivileged x.db x'.db :=
  h.symm ▸ .refl x.db

theorem unprivileges_of_same {α : Type} {h : Handler α} (hh : h.Each fun _ => SameDb) : Unprivileges h :=
  hh.mono fun _ _ _ => SameDb.unprivileged

section Members

theorem unprivileges_transact {α : Type} {drawn : Nat} {tx : Input → Uuid → Tx Db Err α}
    (h : ∀ input fresh db a db', tx input fresh db = .ok (a, db') → Unprivileged db db') :
    Unprivileges (Api.call drawn fun input fresh => Proc.transact (tx input fresh)) :=
  each_gated (g := .ok ()) .refl fun _ => h

/-- A call that does not pass its gate. -/
theorem unprivileges_gated {α : Type} {drawn : Nat} {g : Except Err Unit} {tx : Input → Uuid → Tx Db Err α}
    (hg : g ≠ .ok ()) :
    Unprivileges (Api.call drawn fun input fresh => gate g >>= fun _ => Proc.transact (tx input fresh)) :=
  each_gated .refl fun hok => absurd hok hg

theorem unprivileges_require {g : Except Err Unit} (hg : g ≠ .ok ()) {α : Type} {k : Unit → Handler α} :
    Unprivileges (Api.require g >>= k) := by
  rcases g with e | ⟨⟩
  · trivial
  · exact (hg rfl).elim

theorem unprivileges_audit (action : String) (detail : List (String × DetailValue)) :
    Unprivileges (Api.audit env ctx action detail) := by
  refine each_call (P := Unprivileged) fun input fresh db => ?_
  rcases htx : auditTx env ctx.orgId (some ctx.userId) action detail input.now db with e | ⟨⟨⟩, db'⟩
  · simp only [auditLog, Proc.tryExcept, Proc.transact_of_error htx]
    exact .refl db
  · simp only [auditLog, Proc.tryExcept, Proc.transact_of_ok htx]
    obtain ⟨-, rfl⟩ := auditTx_ok htx
    exact ⟨rfl, rfl, List.prefix_rfl, List.prefix_append _ _⟩

theorem unprivileges_audited {α : Type} {h : Handler α} (hh : Unprivileges h) (action : String)
    (detail : α → List (String × DetailValue)) (response : α → HttpResponse) :
    Unprivileges (do
      let a ← h
      Api.audit env ctx action (detail a)
      return response a) :=
  hh.bind fun a => (unprivileges_audit action (detail a)).bind fun _ => each_lift (.ok (response a))

theorem unprivileges_createSession : Unprivileges (Api.createSession env ctx) := by
  refine unprivileges_transact fun input fresh db a db' h => ?_
  obtain ⟨-, -, rfl⟩ := createSession_ok h
  exact .sessions db _

theorem unprivileges_changePassword (req : HttpRequest) (token current new : String) :
    Unprivileges (Api.changePassword env deployment req ctx token current new) := by
  refine (unprivileges_of_same (each_authRateLimit req)).bind fun _ => ?_
  refine (each_validated _).bind fun _ => ?_
  split
  · trivial
  · refine unprivileges_audited (unprivileges_transact fun input fresh db a db' h => ?_) _ _ _
    obtain ⟨-, rfl⟩ := changePassword_ok h
    refine ⟨rfl, ?_, List.prefix_rfl, List.prefix_rfl⟩
    simp only [Table.updateWhere, List.map_map]
    refine List.map_congr_left fun u _ => ?_
    simp only [Function.comp_apply]
    split <;> rfl

theorem unprivileges_login (req : HttpRequest) (email password : String) (orgSlug : Option String) :
    Unprivileges (Api.login env deployment req email password orgSlug) := by
  refine (unprivileges_of_same (each_authRateLimit req)).bind fun _ => ?_
  refine (each_validated _).bind fun _ => ?_
  refine (each_call (P := Unprivileged) fun _ _ db => .refl db).bind fun ctx => ?_
  exact unprivileges_createSession.bind fun token => (unprivileges_audit _ _).bind fun _ => each_lift _

/-- Under a session of a member, no route does more than that. -/
theorem unprivileges_route (req : HttpRequest) (token : String) (hrole : ctx.role.rank < Role.rank .admin) :
    Unprivileges (Api.route env deployment req ctx token) := by
  have hrequire : ∀ {minimum : Role}, Role.rank .admin ≤ minimum.rank → requireRole ctx minimum ≠ .ok () := by
    intro minimum hmin hok
    exact absurd (le_trans hmin (requireRole_ok.1 hok)) (Nat.not_le_of_lt hrole)
  have hadmin : requireRole ctx .admin ≠ .ok () := hrequire (le_refl _)
  have hthen : ∀ {g : Except Err Unit} {k : Unit → Except Err Unit}, g ≠ .ok () → (g >>= k) ≠ .ok () := by
    intro g k hg hok
    rcases g with e | ⟨⟩
    · cases hok
    · exact hg rfl
  have hgrant : ∀ role : Role, requireCanGrant ctx role ≠ .ok () := fun role => hthen hadmin
  by_cases hasks : asksOnly req.endpoint = true
  · exact unprivileges_of_same (each_asksOnly req token hasks)
  · cases hreq : req.endpoint <;> simp only [Api.route, hreq]
    case changePassword current new => exact unprivileges_changePassword req token current new
    all_goals apply each_bounded
    case addMember => exact unprivileges_audited (unprivileges_gated (hgrant _)) _ _ _
    case setMemberRole => exact unprivileges_audited (unprivileges_gated (hthen (hgrant _))) _ _ _
    case removeMember => exact unprivileges_audited (unprivileges_gated (hthen hadmin)) _ _ _
    case createGroup => exact (unprivileges_gated hadmin).bind fun _ => each_lift _
    case deleteGroup => exact (unprivileges_gated hadmin).bind fun _ => each_lift _
    case addGroupMember => exact unprivileges_require hadmin
    case removeGroupMember => exact unprivileges_require hadmin
    case uploadFolder => exact unprivileges_require hadmin
    case deleteDocument => exact unprivileges_audited (unprivileges_gated hadmin) _ _ _
    case updateDocumentAcl => exact unprivileges_audited (unprivileges_gated hadmin) _ _ _
    case deleteOrg => exact unprivileges_require (hrequire (by decide))
    case ask =>
      exact unprivileges_of_same (Each.bind (each_act (P := fun _ => SameDb) fun _ _ => rfl) fun _ => trivial)
    case feedback =>
      refine (unprivileges_transact fun input fresh db a db' h => ?_).bind fun _ => each_lift _
      obtain ⟨-, -, rfl⟩ := addFeedbackTx_ok h
      exact ⟨rfl, rfl, List.prefix_append _ _, List.prefix_rfl⟩
    case signup | login | logout => trivial
    all_goals simp [asksOnly, hreq] at hasks

end Members

/-! ## A connection in a run -/

section Connections

variable {s : Process} {conn : Nat}

/-- The handler of a connection has come to its end. -/
def Spent : Conn → Prop
  | .idle | .handling _ => False
  | .streaming _ | .closed => True

/-- What one step does to a connection whose handler is under way. -/
inductive ConnStep (env : Env) (deployment : Deployment) (conn : Nat) (s : Process) (l : Process.Label)
    (h : Handler HttpResponse) : Prop where
  | stays (hturn : Process.turn env deployment conn s l = none)
      (hc : (Process.step env deployment s l).conns conn = .handling h)
  | goesOn {input : Input} {f : Input → Store → Store} {k : Input → Store → Handler HttpResponse}
      (hh : h = .step f k) (hturn : Process.turn env deployment conn s l = some ⟨input, s.store, f input s.store⟩)
      (hc : (Process.step env deployment s l).conns conn = .handling (k input s.store))
  | ends (hturn : Process.turn env deployment conn s l = none)
      (hc : Spent ((Process.step env deployment s l).conns conn))

theorem conns_goto (s : Process) (i : Nat) (c : Conn) :
    (s.goto i c).conns conn = if conn = i then c else s.conns conn := by
  by_cases hi : conn = i <;> simp [Process.goto, hi]

/-- What the streams do is nothing to a handler that is under way. -/
theorem handling_withStreams {h : Handler HttpResponse} (hc : s.conns conn = .handling h) {l : AskStreams.Label}
    (hl : ∀ ctx req, l ≠ .ask conn ctx req) :
    (s.withStreams (AskStreams.step env s.streams l)).conns conn = .handling h := by
  have hnone : s.streams.streams conn = none := by
    show (s.conns conn).stream? = none
    rw [hc]
    rfl
  rw [withStreams_conns]
  cases hi : (AskStreams.step env s.streams l).streams conn with
  | none => exact hc
  | some stream =>
    obtain ⟨req, he, -⟩ := askStep_new s.streams l hnone hi
    exact absurd he (hl _ _)

theorem spent_withStreams (h : Spent (s.conns conn)) (a : AskStreams) : Spent ((s.withStreams a).conns conn) := by
  rw [withStreams_conns]
  cases a.streams conn with
  | none => exact h
  | some stream => trivial

/-- A response that has left is the end of its handler. -/
theorem spent_respond {r : Except HttpError HttpResponse} (hc : s.conns conn = .handling (.done r)) :
    Spent ((s.respond env deployment conn r).conns conn) := by
  have hclosed : Spent ((s.goto conn .closed).conns conn) := by
    rw [conns_goto, if_pos rfl]
    trivial
  cases r with
  | error e => exact hclosed
  | ok response =>
    obtain ⟨status, body⟩ := response
    cases body
    case stream ctx question k =>
      have hasked : (AskStreams.step env s.streams (.ask conn ctx (deployment.ask env conn question k))).streams
          conn ≠ none := by
        simp [AskStreams.step, Process.streams, AskStreams.setStream, hc, Conn.stream?]
      show Spent ((s.withStreams _).conns conn)
      rw [withStreams_conns]
      obtain ⟨stream, hstream⟩ := Option.ne_none_iff_exists'.1 hasked
      rw [hstream]
      trivial
    all_goals exact hclosed

/-- The response of another connection is nothing to a handler that is under way. -/
theorem handling_respond {h : Handler HttpResponse} (hc : s.conns conn = .handling h) {i : Nat} (hi : conn ≠ i)
    (r : Except HttpError HttpResponse) : (s.respond env deployment i r).conns conn = .handling h := by
  have hclosed : (s.goto i .closed).conns conn = .handling h := by rw [conns_goto, if_neg hi, hc]
  unfold Process.respond
  split
  · split
    · refine handling_withStreams hc fun ctx req he => hi ?_
      exact (AskStreams.Label.ask.inj he).1.symm
    · exact hclosed
  · exact hclosed

theorem spent_respond_other (h : Spent (s.conns conn)) (i : Nat) (r : Except HttpError HttpResponse) :
    Spent ((s.respond env deployment i r).conns conn) := by
  have hclosed : Spent ((s.goto i .closed).conns conn) := by
    rw [conns_goto]
    split
    · trivial
    · exact h
  unfold Process.respond
  split
  · split
    · exact spent_withStreams h _
    · exact hclosed
  · exact hclosed

theorem conns_commit (s : Process) (tx : Tx Db Err Unit) : (s.commit tx).conns = s.conns := by
  unfold Process.commit
  split <;> rfl

/-- No turn but that of the connection itself. -/
theorem turn_eq_none {l : Process.Label} (hl : ∀ input, l ≠ .advance conn input) :
    Process.turn env deployment conn s l = none := by
  unfold Process.turn
  split
  · rename_i i input f k hi
    exact if_neg fun he => hl input (by rw [he])
  · rfl

theorem turn_handling {h : Handler HttpResponse} (hc : s.conns conn = .handling h) (input : Input) :
    (∀ r, h = .done r → Process.turn env deployment conn s (.advance conn input) = none) ∧
    ∀ f k, h = .step f k → Process.turn env deployment conn s (.advance conn input) =
      some ⟨input, s.store, f input s.store⟩ := by
  refine ⟨?_, ?_⟩
  · rintro r rfl
    simp only [Process.turn, hc]
  · rintro f k rfl
    simp only [Process.turn, Process.step, hc, if_pos, Process.goto]

theorem conn_step (env : Env) (deployment : Deployment) {h : Handler HttpResponse}
    (hc : s.conns conn = .handling h) (l : Process.Label) : ConnStep env deployment conn s l h := by
  have haside : ∀ {i : Nat} {c c' : Conn} {s' : Process}, s.conns i = c → (∀ h, c ≠ .handling h) →
      s'.conns = s.conns → (s'.goto i c').conns conn = .handling h := by
    intro i c c' s' hi hne hs'
    have hii : conn ≠ i := by
      rintro rfl
      exact hne h (hi.symm.trans hc)
    rw [conns_goto, if_neg hii, hs', hc]
  cases l with
  | request i req =>
    refine .stays (turn_eq_none (by simp)) ?_
    simp only [Process.step]
    split
    · rename_i hi
      exact haside hi (by simp) rfl
    · exact hc
  | advance i input =>
    by_cases hi : conn = i
    · subst hi
      cases h with
      | done r =>
        refine .ends ((turn_handling hc input).1 r rfl) ?_
        simp only [Process.step, hc]
        exact spent_respond hc
      | step f k =>
        refine .goesOn rfl ((turn_handling hc input).2 f k rfl) ?_
        simp only [Process.step, hc]
        rw [conns_goto, if_pos rfl]
    · refine .stays (turn_eq_none fun _ hl => hi (Process.Label.advance.inj hl).1.symm) ?_
      simp only [Process.step]
      split
      · rw [conns_goto, if_neg hi, ← hc]
      · exact handling_respond hc hi _
      · exact hc
  | hangUp i =>
    by_cases hi : conn = i
    · subst hi
      refine .ends (turn_eq_none (by simp)) ?_
      simp only [Process.step, hc]
      rw [conns_goto, if_pos rfl]
      trivial
    · refine .stays (turn_eq_none (by simp)) ?_
      simp only [Process.step]
      split
      · exact hc
      · rw [conns_goto, if_neg hi, hc]
  | stream l =>
    refine .stays (turn_eq_none (by simp)) ?_
    simp only [Process.step]
    split
    · rename_i hl
      refine handling_withStreams hc fun ctx req he => ?_
      rw [he] at hl
      cases hl
    · exact hc
  | work l =>
    refine .stays (turn_eq_none (by simp)) ?_
    simp only [Process.step]
    split
    · exact hc
    · exact hc
  | purgeExpiredSessions now =>
    refine .stays (turn_eq_none (by simp)) ?_
    rw [Process.step, conns_commit, hc]

/-- A handler that has come to its end does not come back. -/
theorem spent_step (env : Env) (deployment : Deployment) (h : Spent (s.conns conn)) (l : Process.Label) :
    Process.turn env deployment conn s l = none ∧ Spent ((Process.step env deployment s l).conns conn) := by
  have hgoto : ∀ {s' : Process} {i : Nat} {c : Conn}, s'.conns = s.conns → (conn = i → Spent c) →
      Spent ((s'.goto i c).conns conn) := by
    intro s' i c hs' hc
    rw [conns_goto]
    split
    · exact hc ‹_›
    · rw [hs']
      exact h
  cases l with
  | request i req =>
    refine ⟨turn_eq_none (by simp), ?_⟩
    simp only [Process.step]
    split
    · rename_i hi
      refine hgoto rfl fun he => ?_
      subst he
      rw [hi] at h
      exact h.elim
    · exact h
  | advance i input =>
    constructor
    · unfold Process.turn
      split
      · rename_i hi
        rw [hi] at h
        exact h.elim
      · rfl
    · simp only [Process.step]
      split
      · rename_i hi
        refine hgoto rfl fun he => ?_
        rw [he, hi] at h
        exact h.elim
      · exact spent_respond_other h _ _
      · exact h
  | hangUp i =>
    refine ⟨turn_eq_none (by simp), ?_⟩
    simp only [Process.step]
    split
    · exact h
    · exact hgoto rfl fun _ => trivial
  | stream l =>
    refine ⟨turn_eq_none (by simp), ?_⟩
    simp only [Process.step]
    split
    · exact spent_withStreams h _
    · exact h
  | work l =>
    refine ⟨turn_eq_none (by simp), ?_⟩
    simp only [Process.step]
    split
    · exact h
    · exact h
  | purgeExpiredSessions now =>
    refine ⟨turn_eq_none (by simp), ?_⟩
    rw [Process.step, conns_commit]
    exact h

theorem spent_run (env : Env) (deployment : Deployment) (h : Spent (s.conns conn)) (ls : List Process.Label) :
    Process.turns env deployment conn s ls = [] ∧
      Spent ((run (Process.step env deployment) s ls).conns conn) := by
  induction ls generalizing s with
  | nil => exact ⟨rfl, h⟩
  | cons l ls ih =>
    obtain ⟨hturn, hstep⟩ := spent_step env deployment h l
    rw [Process.turns, hturn, run_cons]
    exact ih hstep

/-- In a run a handler takes a path, whatever the others do meanwhile: what is left of it at the end is what
its connection has, unless that is done with it. -/
theorem path_run (env : Env) (deployment : Deployment) {h : Handler HttpResponse} (hc : s.conns conn = .handling h)
    (ls : List Process.Label) :
    ∃ h', Path h (Process.turns env deployment conn s ls) h' ∧
      ((run (Process.step env deployment) s ls).conns conn = .handling h' ∨
        Spent ((run (Process.step env deployment) s ls).conns conn)) := by
  induction ls generalizing s h with
  | nil => exact ⟨h, .nil h, .inl hc⟩
  | cons l ls ih =>
    rw [Process.turns, run_cons]
    cases conn_step env deployment hc l with
    | stays hturn hc' =>
      rw [hturn]
      exact ih hc'
    | goesOn hh hturn hc' =>
      obtain ⟨h', hpath, hend⟩ := ih hc'
      rw [hturn, hh]
      exact ⟨h', .step hpath, hend⟩
    | ends hturn hspent =>
      obtain ⟨hturns, hspent'⟩ := spent_run env deployment hspent ls
      rw [hturn, hturns]
      exact ⟨h, .nil h, .inr hspent'⟩

theorem requested_step (env : Env) (deployment : Deployment) (hidle : s.conns conn = .idle) (req : HttpRequest) :
    (Process.step env deployment s (.request conn req)).conns conn =
      .handling (Api.handle env deployment req) := by
  simp only [Process.step, hidle, conns_goto, if_pos]

/-- The turns of a request from its arrival on. -/
theorem path_request (env : Env) (deployment : Deployment) (hidle : s.conns conn = .idle) (req : HttpRequest)
    (ls : List Process.Label) :
    ∃ h', Path (Api.handle env deployment req) (Process.turns env deployment conn s (.request conn req :: ls)) h' ∧
      ∀ r, (run (Process.step env deployment) s (.request conn req :: ls)).conns conn = .handling r → h' = r := by
  rw [Process.turns, turn_eq_none (by simp), run_cons]
  obtain ⟨h', hpath, hend⟩ := path_run env deployment (requested_step env deployment hidle req) ls
  refine ⟨h', hpath, fun r hr => ?_⟩
  rcases hend with hc | hspent
  · exact Conn.handling.inj (hc.symm.trans hr)
  · rw [hr] at hspent
    exact hspent.elim

end Connections

/-- A process with one org, whose owner is signed in. -/
def signedIn : Process := { Process.init with store := {
  db := {
    orgs := [⟨1, "acme", "Acme"⟩], users := [⟨2, "ada@acme.test", "ada-password"⟩]
    memberships := [⟨2, 1, .owner, 0⟩], sessions := [⟨"token", 2, 1, seconds 10⟩] }
  nextId := 10, limiter := .empty, authLimiter := .empty, kicks := 0 } }

/-- A request with a bearer token. -/
def bearing (token : String) (endpoint : Endpoint) : HttpRequest := ⟨endpoint, some ("Bearer " ++ token), none, none⟩

/-- The first instant, with no secret drawn. -/
def atStart : Input := ⟨0, 0, ""⟩

def plainEnv : Env := { asciiEnv id with lower := fun s => .ofList (s.toList.map Char.toLower) }

/-- Whatever others do meanwhile, a request that ends in an error of the caller's has not changed the
database in any of its turns. -/
theorem refused_changes_nothing {s : Process} {conn : Nat} {req : HttpRequest} {ls : List Process.Label}
    {e : HttpError} (hidle : s.conns conn = .idle)
    (hend : (run (Process.step env deployment) s (.request conn req :: ls)).conns conn =
      .handling (.done (.error e))) (he : e.status < 500) :
    ∀ t ∈ Process.turns env deployment conn s (.request conn req :: ls), t.after.db = t.before.db := by
  obtain ⟨h', hpath, hleft⟩ := path_request env deployment hidle req ls
  rw [hleft _ hend] at hpath
  exact (refuses_handle req).path hpath he

/-- A request without a session, in its one turn. -/
theorem refused_changes_nothing_unknown :
    let ts := Process.turns plainEnv alike 0 signedIn [.request 0 (bearing "other" .deleteOrg), .advance 0 atStart]
    ts.length = 1 ∧ ∀ t ∈ ts, t.after.db = t.before.db :=
  ⟨rfl, refused_changes_nothing (e := .http 401 "invalid or expired session" none) rfl rfl (by decide)⟩

/-- Whatever others do meanwhile, and however it ends, a request that only asks changes nothing. -/
theorem asking_changes_nothing {s : Process} {conn : Nat} {req : HttpRequest} (hidle : s.conns conn = .idle)
    (hasks : asksOnly req.endpoint = true) (ls : List Process.Label) :
    ∀ t ∈ Process.turns env deployment conn s (.request conn req :: ls), t.after.db = t.before.db := by
  obtain ⟨h', hpath, -⟩ := path_request env deployment hidle req ls
  have hroute : (do
      let token ← Resume.lift (Api.bearerToken env req)
      let ctx ← Api.currentCtx env token
      Api.route env deployment req ctx token : Handler HttpResponse).Each fun _ => SameDb :=
    (each_lift _).bind fun token => (each_currentCtx token).bind fun ctx => each_asksOnly req token hasks
  have heach : (Api.handle env deployment req).Each fun _ => SameDb := by
    cases hreq : req.endpoint <;> simp only [Api.handle, hreq]
    case healthz => trivial
    case signup | login | logout => simp [asksOnly, hreq] at hasks
    all_goals exact hroute
  exact heach.path hpath

/-- The owner exports the org, in two turns. -/
theorem asking_changes_nothing_export :
    let ts := Process.turns plainEnv alike 0 signedIn
      [.request 0 (bearing "token" .exportOrg), .advance 0 atStart, .advance 0 atStart]
    ts.length = 2 ∧ ∀ t ∈ ts, t.after.db = t.before.db :=
  ⟨rfl, asking_changes_nothing rfl rfl _⟩

/-- What becomes of the session that `current_ctx` has found, if any. -/
def resolved : Option AuthContext → Handler AuthContext
  | none => Resume.raise (.http 401 "invalid or expired session" none)
  | some ctx => pure ctx

theorem currentCtx_eq (token : String) : Api.currentCtx env token =
    Resume.step (fun _ x => { x with nextId := x.nextId + 0 })
      fun input x => resolved (resolveSession env token input.now x.db) := rfl

/-- The first turn of a request has found the session of an admin or an owner. -/
def AdminFirst (env : Env) (req : HttpRequest) (ts : List (Taken Input Store)) : Prop :=
  ∃ token t ctx, Api.bearerToken env req = .ok token ∧ ts.head? = some t ∧
    resolveSession env token t.input.now t.before.db = some ctx ∧ Role.rank .admin ≤ ctx.role.rank

/-- Where a request under a session does more than that, its first turn has found the session of an admin. -/
theorem admin_resolved {req : HttpRequest} {token : String} {ts : List (Taken Input Store)}
    {h' : Handler HttpResponse} (hpath : Path (do
      let ctx ← Api.currentCtx env token
      Api.route env deployment req ctx token) ts h')
    (hpriv : ∃ t ∈ ts, ¬ Unprivileged t.before.db t.after.db) :
    ∃ t ctx, ts.head? = some t ∧ resolveSession env token t.input.now t.before.db = some ctx ∧
      Role.rank .admin ≤ ctx.role.rank := by
  obtain ⟨t, ht, hpriv⟩ := hpriv
  rw [currentCtx_eq, step_bind] at hpath
  cases hpath with
  | nil => cases ht
  | @step _ _ input x ts _ rest =>
    by_cases hadmin : ∃ ctx, resolveSession env token input.now x.db = some ctx ∧ Role.rank .admin ≤ ctx.role.rank
    · obtain ⟨ctx, hctx, hrole⟩ := hadmin
      exact ⟨_, ctx, rfl, hctx, hrole⟩
    · have hrest : Unprivileges (do
          let ctx ← resolved (resolveSession env token input.now x.db)
          Api.route env deployment req ctx token) := by
        cases hctx : resolveSession env token input.now x.db with
        | none => trivial
        | some ctx =>
          refine unprivileges_route req token (Nat.lt_of_not_le fun hrole => ?_)
          exact hadmin ⟨ctx, hctx, hrole⟩
      rcases List.mem_cons.1 ht with rfl | ht
      · exact absurd (Unprivileged.refl _) hpriv
      · exact absurd (hrest.path rest t ht) hpriv

/-- Whatever others do meanwhile: where a turn of a request does more than change sessions and passwords
and add feedback and entries of the audit log, the request signs an org up, or its first turn has found the
session of an admin or an owner. -/
theorem privileged_needs_admin {s : Process} {conn : Nat} {req : HttpRequest} {ls : List Process.Label}
    (hidle : s.conns conn = .idle)
    (hpriv : ∃ t ∈ Process.turns env deployment conn s (.request conn req :: ls),
      ¬ Unprivileged t.before.db t.after.db) :
    (∃ orgSlug orgName email password, req.endpoint = .signup orgSlug orgName email password) ∨
    AdminFirst env req (Process.turns env deployment conn s (.request conn req :: ls)) := by
  obtain ⟨h', hpath, -⟩ := path_request env deployment hidle req ls
  have hmodest : ¬ Unprivileges (Api.handle env deployment req) := fun h => by
    obtain ⟨t, ht, hpriv⟩ := hpriv
    exact hpriv (h.path hpath t ht)
  have hroute : Api.handle env deployment req = (do
      let token ← Resume.lift (Api.bearerToken env req)
      let ctx ← Api.currentCtx env token
      Api.route env deployment req ctx token) →
      AdminFirst env req (Process.turns env deployment conn s (.request conn req :: ls)) := fun hreq => by
    cases htoken : Api.bearerToken env req with
    | error e =>
      refine absurd ?_ hmodest
      rw [hreq, htoken]
      trivial
    | ok token =>
      rw [hreq, htoken] at hpath
      obtain ⟨t, ctx, hhead, hctx, hrole⟩ := admin_resolved hpath hpriv
      exact ⟨token, t, ctx, htoken, hhead, hctx, hrole⟩
  cases hreq : req.endpoint
  case signup orgSlug orgName email password => exact .inl ⟨orgSlug, orgName, email, password, rfl⟩
  case healthz =>
    refine absurd ?_ hmodest
    simp only [Api.handle, hreq]
    trivial
  case login email password orgSlug =>
    refine absurd ?_ hmodest
    simp only [Api.handle, hreq]
    exact unprivileges_login req email password orgSlug
  case logout =>
    refine absurd ?_ hmodest
    simp only [Api.handle, hreq]
    refine (each_lift _).bind fun token => (unprivileges_transact fun input fresh db a db' h => ?_).bind fun _ =>
      each_lift _
    obtain ⟨-, rfl⟩ := Prod.mk.inj (Except.ok.inj h)
    exact .sessions db _
  all_goals exact .inr (hroute (by simp only [Api.handle, hreq]))

/-- The owner creates a group. -/
theorem privileged_needs_admin_group :
    (∃ orgSlug orgName email password,
      (bearing "token" (.createGroup "crew")).endpoint = .signup orgSlug orgName email password) ∨
    AdminFirst plainEnv (bearing "token" (.createGroup "crew"))
      (Process.turns plainEnv alike 0 signedIn
        [.request 0 (bearing "token" (.createGroup "crew")), .advance 0 atStart, .advance 0 atStart]) :=
  privileged_needs_admin rfl ⟨_, List.mem_cons_of_mem _ List.mem_cons_self, fun h =>
    Nat.one_ne_zero (congrArg (fun db => db.groups.length) h.frame)⟩

end KnowledgeDesk.Proofs
