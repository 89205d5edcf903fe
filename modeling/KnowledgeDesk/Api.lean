import KnowledgeDesk.Lib.Resume
import KnowledgeDesk.Pipeline
import KnowledgeDesk.Providers
import KnowledgeDesk.RateLimit

/-!
# The HTTP surface

The routes of `main.py` with their dependencies of `deps.py` and the bounds of `schemas.py`, and the
server that runs any number of them at once. A handler is a computation in steps: one step is one
transaction, or one look at a limiter, and anything may happen between two of them. A method that only
reads is one step. The stream that `ask` answers with goes on after it, by its transactions.
-/

namespace KnowledgeDesk

/-! ## Requests and responses -/

/-- The settings the surface reads. -/
structure ApiSettings where
  rate : RateSettings := {}
  authRateBurst : Int := 10
  authRatePerMin : Int := 10
  clientIpHeader : Option String := none

/-- The deployment: its settings, the embedder's answer to a query, whether the tracer is active, and the
provider as it answers on each connection, where it draws nonces of its own. -/
structure Deployment where
  settings : ApiSettings
  embedQuery : String → Except Err Embedding
  tracing : Bool
  provider : Nat → Providers.AnswerProvider
  repository : ∀ conn, Providers.RepositoryProvider (provider conn)

/-- A route and its validated types, with what the request gives it. -/
inductive Endpoint where
  | healthz
  | signup (orgSlug orgName email password : String)
  | login (email password : String) (orgSlug : Option String)
  | logout
  | me
  | changePassword (currentPassword newPassword : String)
  | addMember (email password : String) (role : Role)
  | listMembers (limit offset : Nat)
  | setMemberRole (userId : Uuid) (role : Role)
  | removeMember (userId : Uuid)
  | createGroup (name : String)
  | listGroups
  | getGroup (groupId : Uuid)
  | deleteGroup (groupId : Uuid)
  | listGroupMembers (groupId : Uuid)
  | addGroupMember (groupId : Uuid) (email : String)
  | removeGroupMember (groupId userId : Uuid)
  | uploadFolder (documents : List Item)
  | listDocuments (limit offset : Nat)
  | getDocument (documentId : Uuid)
  | deleteDocument (documentId : Uuid)
  | updateDocumentAcl (documentId : Uuid) (acl : List String)
  | exportOrg
  | deleteOrg
  | search (query : String) (k : Nat)
  | ask (question : String) (k : Option Nat)
  | auditLog (limit offset : Nat)
  | usage
  | feedback (answerId : Uuid) (rating : Rating) (note : Option String)

/-- A request: its route, its `Authorization` header, the header the deployment takes for the caller's
address, and the address of the socket. -/
structure HttpRequest where
  endpoint : Endpoint
  authorization : Option String
  clientIp : Option String
  clientHost : Option String

/-- What a response carries. -/
inductive Body where
  | empty
  | health
  | token (token : String) (orgId : Uuid) (role : Role)
  | me (ctx : AuthContext)
  | member (userId : Uuid)
  | memberRole (userId : Uuid) (role : Role)
  | members (rows : List MemberRow) (total : Nat)
  | group (g : Group)
  | groups (gs : List Group)
  | groupMembers (rows : List GroupMemberRow)
  | groupMember (groupId userId : Uuid)
  | synced (result : SyncResult)
  | documents (rows : List DocumentRow) (total : Nat)
  | document (d : DocumentText)
  | acl (documentId : Uuid) (acl : List String)
  | dump (data : Export)
  | contexts (cs : List Context)
  | audit (rows : List AuditView) (total : Nat)
  | usage (summary : UsageSummary)
  | feedback (answerId : Uuid) (rating : Rating)
  /-- The stream of `answer_stream(scope, question, k)`. -/
  | stream (ctx : AuthContext) (question : String) (k : Nat)

/-- A response. -/
structure HttpResponse where
  status : Nat
  body : Body

/-- What a handler raises. -/
inductive HttpError where
  /-- A domain error, or one that nothing handles. -/
  | domain (e : Err)
  /-- `HTTPException`, and the `Retry-After` it carries. -/
  | http (status : Nat) (detail : String) (retryAfter : Option Int)

/-- `_STATUS` for the domain errors; 500 for what is none. -/
def HttpError.status : HttpError → Nat
  | .domain (.authError _) => 401
  | .domain (.forbidden _) => 403
  | .domain (.notFound _) => 404
  | .domain (.conflict _) => 409
  | .domain (.quotaExceeded _) => 413
  | .domain (.valueError _) | .domain (.db _) => 500
  | .http status _ _ => status

/-! ## `schemas.py` -/

namespace Schemas

/-- `Field(min_length=lo, max_length=hi)`. -/
def sized (lo hi : Nat) (s : String) : Bool := lo ≤ s.length && s.length ≤ hi

/-- A letter of a slug. -/
def isSlugLetter (c : Char) : Bool := ('a' ≤ c && c ≤ 'z') || ('0' ≤ c && c ≤ '9')

/-- `Slug`. -/
def slug (s : String) : Bool :=
  sized 3 40 s && s.toList.all (fun c => isSlugLetter c || c == '-')
    && s.toList.head?.any isSlugLetter && s.toList.getLast?.any isSlugLetter

/-- `Password` and `Email`. -/
def password (s : String) : Bool := sized 8 200 s
def email (s : String) : Bool := sized 3 200 s

/-- `DocumentPath`. -/
def documentPath (s : String) : Bool :=
  sized 1 1024 s && !s.toList.any fun c => c < ' ' || c == '\x7f' || Normalize.isInvisible c

/-- `UploadedDocument`. -/
def uploadedDocument (i : Item) : Bool := documentPath i.path && sized 0 1000000 i.content

/-- `Query(ge=1, le=500)` of a listing's `limit`. -/
def pageLimit (limit : Nat) : Bool := 1 ≤ limit && limit ≤ 500

/-- The bounds on what a request gives its route. -/
def valid : Endpoint → Bool
  | .signup orgSlug orgName e p => slug orgSlug && sized 1 100 orgName && email e && password p
  | .login e p _ => email e && password p
  | .changePassword current new => password current && password new
  | .addMember e p _ => email e && password p
  | .createGroup name => sized 1 100 name
  | .addGroupMember _ e => email e
  | .uploadFolder documents => documents.length ≤ 1000 && documents.all uploadedDocument
  | .updateDocumentAcl _ acl => acl.length ≤ 200
  | .search query k => sized 1 500 query && 1 ≤ k && k ≤ 50
  | .ask question k => sized 1 500 question && k.all fun k => 1 ≤ k && k ≤ 50
  | .feedback _ _ note => note.all (sized 0 2000)
  | .listMembers limit _ | .listDocuments limit _ | .auditLog limit _ => pageLimit limit
  | .healthz | .logout | .me | .setMemberRole .. | .removeMember _ | .listGroups | .getGroup _ | .deleteGroup _
  | .listGroupMembers _ | .removeGroupMember .. | .getDocument _ | .deleteDocument _ | .exportOrg | .deleteOrg
  | .usage => true

end Schemas

/-! ## Handlers -/

/-- What the process holds: the database, the counter ids are drawn from, the two limiters, and how often
`worker.kick` was called. -/
structure Store where
  db : Db
  nextId : Uuid
  limiter : Buckets
  authLimiter : Buckets
  kicks : Nat

/-- What comes in at a step: the time, the reading of the monotonic clock, and a fresh secret. -/
structure Input where
  now : Time
  monotonic : ℚ
  secret : String

/-- A handler. -/
abbrev Handler (α : Type) := Resume Input Store HttpError α

namespace Api

variable (env : Env) (deployment : Deployment)

/-- A method on the database in one step, which draws so many ids unless it raises. The ids of the calls
about members are drawn alike. -/
def call {α : Type} (drawn : Nat) (method : Input → Uuid → Scope α) : Handler α :=
  Resume.act fun tick s => match method tick s.nextId s.db with
    | (.ok a, db) => (.ok a, { s with db, nextId := s.nextId + drawn })
    | (.error e, db) => (.error (.domain e), { s with db })

/-- A method that draws no ids and does not ask for the time. -/
def read {α : Type} (method : Scope α) : Handler α := call 0 fun _ _ => method

/-- A check of the scope. -/
def require (g : Except Err Unit) : Handler Unit := Resume.lift (g.mapError .domain)

/-- `Retry-After`. -/
def tooMany (detail : String) (retry : ℚ) : HttpError := .http 429 detail (some (retry.num.tdiv retry.den + 1))

/-! ### `deps.py` -/

/-- `client_key`. -/
def clientKey (req : HttpRequest) : String :=
  match deployment.settings.clientIpHeader, req.clientIp with
  | some header, some value =>
    if header ≠ "" ∧ value ≠ "" then .ofList (PyText.strip (value.toList.takeWhile (· ≠ ',')))
    else req.clientHost.getD "unknown"
  | _, _ => req.clientHost.getD "unknown"

/-- `auth_rate_limit`. -/
def authRateLimit (req : HttpRequest) : Handler Unit := Resume.act fun tick s =>
  let settings := deployment.settings
  let r := check settings.rate (clientKey deployment req) (some settings.authRateBurst)
    (some settings.authRatePerMin) tick.monotonic s.authLimiter
  (if r.1.1 then .ok () else .error (tooMany "too many attempts" r.1.2), { s with authLimiter := r.2 })

/-- `bearer_token`. -/
def bearerToken (req : HttpRequest) : Except HttpError String :=
  let missing : HttpError := .http 401 "missing bearer token" none
  match req.authorization with
  | none => .error missing
  | some authorization =>
    if "bearer ".toList.isPrefixOf (env.lower authorization).toList then
      .ok (.ofList (PyText.strip ((authorization.toList.dropWhile (· ≠ ' ')).drop 1)))
    else .error missing

/-- `current_ctx`. -/
def currentCtx (token : String) : Handler AuthContext := do
  match ← call 0 fun tick _ => Proc.read (resolveSession env token tick.now) with
  | none => Resume.raise (.http 401 "invalid or expired session" none)
  | some ctx => return ctx

/-- The bounds of `schemas.py`. -/
def validated (endpoint : Endpoint) : Handler Unit :=
  if Schemas.valid endpoint then return () else Resume.raise (.http 422 "validation error" none)

/-! ### `main.py` -/

/-- `audit.log`, of the context a request acts under. -/
def audit (ctx : AuthContext) (action : String) (detail : List (String × DetailValue)) : Handler Unit :=
  call 0 fun tick _ => KnowledgeDesk.auditLog env ctx.orgId (some ctx.userId) action detail tick.now

/-- `worker.kick`. -/
def kick : Handler Unit := Resume.act fun _ s => (.ok (), { s with kicks := s.kicks + 1 })

/-- `accounts.create_session`. -/
def createSession (ctx : AuthContext) : Handler String :=
  call 0 fun tick _ => Proc.transact (KnowledgeDesk.createSession env ctx tick.secret tick.now)

/-- `signup`. -/
def signup (req : HttpRequest) (orgSlug orgName email password : String) : Handler HttpResponse := do
  authRateLimit deployment req
  validated req.endpoint
  let ctx ← call 2 fun tick fresh => Proc.transact
    (createOrgWithOwner env orgSlug orgName email password tick.secret fresh (fresh + 1) tick.now)
  let token ← createSession env ctx
  audit env ctx "org.created" [("slug", .str orgSlug)]
  return ⟨201, .token token ctx.orgId ctx.role⟩

/-- `login`. -/
def login (req : HttpRequest) (email password : String) (orgSlug : Option String) : Handler HttpResponse := do
  authRateLimit deployment req
  validated req.endpoint
  let ctx ← read fun db => (authenticate env email password orgSlug db, db)
  let token ← createSession env ctx
  audit env ctx "user.login" []
  return ⟨200, .token token ctx.orgId ctx.role⟩

/-- `logout`. -/
def logout (token : String) : Handler HttpResponse := do
  read (Proc.transact (deleteSession env token))
  return ⟨204, .empty⟩

/-- `change_password`. -/
def changePassword (req : HttpRequest) (ctx : AuthContext) (token current new : String) : Handler HttpResponse := do
  authRateLimit deployment req
  validated req.endpoint
  if new = current then Resume.raise (.http 400 "new password must differ" none)
  else
    let revoked ← call 0 fun tick _ => Proc.transact
      (KnowledgeDesk.changePassword env ctx.userId current new tick.secret (env.sha256 token))
    audit env ctx "user.password_changed" [("sessions_revoked", .num revoked)]
    return ⟨204, .empty⟩

/-- The text of a role. -/
def roleText : Role → String
  | .owner => "owner"
  | .admin => "admin"
  | .member => "member"

/-- `add_member`. -/
def addMember (ctx : AuthContext) (email password : String) (role : Role) : Handler HttpResponse := do
  let userId ← call 1 fun tick fresh => addMemberRoute env ctx email password role tick.secret fresh tick.now
  audit env ctx "member.added" [("user_id", .str (toString userId)), ("role", .str (roleText role))]
  return ⟨201, .member userId⟩

/-- `list_members`. -/
def listMembers (ctx : AuthContext) (limit offset : Nat) : Handler HttpResponse := do
  let total ← read (countMembers ctx)
  let rows ← read (KnowledgeDesk.listMembers env ctx limit offset)
  return ⟨200, .members rows total⟩

/-- `set_member_role`. -/
def setMemberRole (ctx : AuthContext) (userId : Uuid) (role : Role) : Handler HttpResponse := do
  call 1 fun _ _ => KnowledgeDesk.setMemberRole ctx userId role
  audit env ctx "member.role_changed" [("user_id", .str (toString userId)), ("role", .str (roleText role))]
  return ⟨200, .memberRole userId role⟩

/-- `remove_member`. -/
def removeMember (ctx : AuthContext) (userId : Uuid) : Handler HttpResponse := do
  call 1 fun _ _ => KnowledgeDesk.removeMember ctx userId
  audit env ctx "member.removed" [("user_id", .str (toString userId))]
  return ⟨204, .empty⟩

/-- `create_group`. -/
def createGroup (ctx : AuthContext) (name : String) : Handler HttpResponse := do
  let g ← call 1 fun tick fresh => KnowledgeDesk.createGroup ctx name fresh tick.now
  return ⟨201, .group g⟩

/-- `add_group_member_by_email`, transaction by transaction. -/
def addGroupMember (ctx : AuthContext) (groupId : Uuid) (email : String) : Handler HttpResponse := do
  require (requireRole ctx .admin)
  match ← read (Proc.read (memberByEmail ctx (normalizeEmail env email))) with
  | none =>
    Resume.raise (.domain (.notFound s!"no member of this org with email: {normalizeEmail env email}"))
  | some userId =>
    require (requireRole ctx .admin)
    let _ ← read (getGroup ctx groupId)
    read (Proc.transact (addGroupMemberTx ctx groupId userId))
    return ⟨201, .groupMember groupId userId⟩

/-- `remove_group_member`, transaction by transaction. -/
def removeGroupMember (ctx : AuthContext) (groupId userId : Uuid) : Handler HttpResponse := do
  require (requireRole ctx .admin)
  let _ ← read (getGroup ctx groupId)
  read (Proc.transact (removeGroupMemberTx groupId userId))
  return ⟨204, .empty⟩

/-- `LOCAL_FOLDER_SOURCE`. -/
def LOCAL_FOLDER_SOURCE : String := "local-folder"

/-- The enqueueing of `sync_documents`. -/
def enqueueAll : List PendingJob → Handler Unit
  | [] => return ()
  | job :: jobs => do
    let _ ← call 1 fun tick fresh => Proc.transact (enqueuePending env job fresh tick.now)
    enqueueAll jobs

/-- `upload_folder`, transaction by transaction. -/
def uploadFolder (ctx : AuthContext) (documents : List Item) : Handler HttpResponse := do
  require (requireRole ctx .admin)
  let (result, toEnqueue) ← call documents.length fun tick fresh => Proc.transact
    (syncTx env (checkCaps env ctx.orgId documents) ctx.orgId LOCAL_FOLDER_SOURCE documents fresh tick.now)
  enqueueAll env toEnqueue
  audit env ctx "source.synced"
    [("enqueued", .num result.enqueued), ("unchanged", .num result.unchanged), ("deleted", .num result.deleted)]
  if 0 < result.enqueued then kick
  return ⟨202, .synced result⟩

/-- `list_documents`. -/
def listDocuments (ctx : AuthContext) (limit offset : Nat) : Handler HttpResponse := do
  let total ← read (countDocuments ctx)
  let rows ← read (KnowledgeDesk.listDocuments env ctx limit offset)
  return ⟨200, .documents rows total⟩

/-- `delete_document`. -/
def deleteDocument (ctx : AuthContext) (documentId : Uuid) : Handler HttpResponse := do
  read (KnowledgeDesk.deleteDocument ctx documentId)
  audit env ctx "document.deleted" [("document_id", .str (toString documentId))]
  return ⟨204, .empty⟩

/-- `update_document_acl`. -/
def updateDocumentAcl (ctx : AuthContext) (documentId : Uuid) (acl : List String) : Handler HttpResponse := do
  call 0 fun tick _ => KnowledgeDesk.updateDocumentAcl ctx documentId acl tick.now
  audit env ctx "document.acl_changed" [("document_id", .str (toString documentId))]
  return ⟨200, .acl documentId acl⟩

/-- `delete_org`. -/
def deleteOrg (ctx : AuthContext) : Handler HttpResponse := do
  require (requireRole ctx .owner)
  read (Proc.transact (KnowledgeDesk.deleteOrg ctx.orgId))
  return ⟨204, .empty⟩

/-- `search`. -/
def search (ctx : AuthContext) (query : String) (k : Nat) : Handler HttpResponse := do
  let embedding ← Resume.lift ((deployment.embedQuery query).mapError .domain)
  let contexts ← read (KnowledgeDesk.search env ctx embedding k)
  return ⟨200, .contexts contexts⟩

/-- `ask`, up to its stream. -/
def ask (ctx : AuthContext) (question : String) (k : Option Nat) : Handler HttpResponse := do
  Resume.act fun tick s =>
    let r := check deployment.settings.rate (toString ctx.userId) none none tick.monotonic s.limiter
    (if r.1.1 then .ok () else .error (tooMany "rate limit exceeded" r.1.2), { s with limiter := r.2 })
  return ⟨200, .stream ctx question (k.getD env.settings.retrievalK)⟩

/-- `audit_log`. -/
def auditLog (ctx : AuthContext) (limit offset : Nat) : Handler HttpResponse := do
  let total ← read (countAudit ctx)
  let rows ← read (listAudit ctx limit offset)
  return ⟨200, .audit rows total⟩

/-- `feedback`. -/
def feedback (ctx : AuthContext) (answerId : Uuid) (rating : Rating) (note : Option String) : Handler HttpResponse := do
  read (addFeedback ctx answerId rating note)
  return ⟨201, .feedback answerId rating⟩

/-- The routes that act under a context. -/
def route (req : HttpRequest) (ctx : AuthContext) (token : String) : Handler HttpResponse :=
  match req.endpoint with
  | .changePassword current new => changePassword env deployment req ctx token current new
  | endpoint => do
    validated endpoint
    match endpoint with
    | .me => return ⟨200, .me ctx⟩
    | .addMember email password role => addMember env ctx email password role
    | .listMembers limit offset => listMembers env ctx limit offset
    | .setMemberRole userId role => setMemberRole env ctx userId role
    | .removeMember userId => removeMember env ctx userId
    | .createGroup name => createGroup ctx name
    | .listGroups => return ⟨200, .groups (← read (KnowledgeDesk.listGroups env ctx))⟩
    | .getGroup groupId => return ⟨200, .group (← read (getGroup ctx groupId))⟩
    | .deleteGroup groupId =>
      read (deleteGroup ctx groupId)
      return ⟨204, .empty⟩
    | .listGroupMembers groupId => return ⟨200, .groupMembers (← read (listGroupMembers env ctx groupId))⟩
    | .addGroupMember groupId email => addGroupMember env ctx groupId email
    | .removeGroupMember groupId userId => removeGroupMember ctx groupId userId
    | .uploadFolder documents => uploadFolder env ctx documents
    | .listDocuments limit offset => listDocuments env ctx limit offset
    | .getDocument documentId => return ⟨200, .document (← read (getDocument ctx documentId))⟩
    | .deleteDocument documentId => deleteDocument env ctx documentId
    | .updateDocumentAcl documentId acl => updateDocumentAcl env ctx documentId acl
    | .exportOrg => return ⟨200, .dump (← read (KnowledgeDesk.exportOrg env ctx))⟩
    | .deleteOrg => deleteOrg ctx
    | .search query k => search env deployment ctx query k
    | .ask question k => ask env deployment ctx question k
    | .auditLog limit offset => auditLog ctx limit offset
    | .usage => return ⟨200, .usage (← call 0 fun tick _ => usageSummary env ctx tick.now)⟩
    | .feedback answerId rating note => feedback ctx answerId rating note
    | _ => return ⟨404, .empty⟩

/-- The handling of a request. -/
def handle (req : HttpRequest) : Handler HttpResponse :=
  match req.endpoint with
  | .healthz => return ⟨200, .health⟩
  | .signup orgSlug orgName email password => signup env deployment req orgSlug orgName email password
  | .login email password orgSlug => login env deployment req email password orgSlug
  | .logout => do
    let token ← Resume.lift (bearerToken env req)
    logout env token
  | _ => do
    let token ← Resume.lift (bearerToken env req)
    let ctx ← currentCtx env token
    route env deployment req ctx token

end Api

end KnowledgeDesk
