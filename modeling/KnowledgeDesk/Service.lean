import KnowledgeDesk.MemberCalls
import KnowledgeDesk.Pipeline

/-!
# The service as a machine

Everything the API does to the database, transaction by transaction, over the ingestion pipeline. A
request acts under a context that signing up, logging in or resolving a session has issued; contexts
stay in use by requests under way, whatever has become of their user since. A method of several
transactions is several labels, and what an earlier one has checked (a group that was there, an answer
that was recorded) is part of the state. Ids are drawn from the pipeline's counter.
-/

namespace KnowledgeDesk

/-- The pipeline, the contexts issued so far, the groups `get_group` has returned to a request, and the
answers that open ask streams have recorded and not finalized yet. -/
structure Service where
  pipeline : Pipeline
  issued : List AuthContext
  checked : List (AuthContext × Uuid)
  asks : Nat → Option (AuthContext × Uuid)

namespace Service

/-- What can happen. -/
inductive Label where
  | signup (orgSlug orgName email password salt : String) (now : Time)
  | login (email password : String) (orgSlug : Option String)
  | createSession (ctx : AuthContext) (raw : String) (now : Time)
  | resolveSession (raw : String) (now : Time)
  | logout (raw : String)
  | changePassword (ctx : AuthContext) (current new salt keepTokenHash : String)
  | purgeExpiredSessions (now : Time)
  | deleteOrg (ctx : AuthContext)
  /-- `add_member`, `set_member_role` or `remove_member`. -/
  | member (call : MemberCall)
  | createGroup (ctx : AuthContext) (name : String) (now : Time)
  | getGroup (ctx : AuthContext) (groupId : Uuid)
  | addGroupMember (ctx : AuthContext) (groupId userId : Uuid)
  | removeGroupMember (ctx : AuthContext) (groupId userId : Uuid)
  | deleteGroup (ctx : AuthContext) (groupId : Uuid)
  /-- The document transaction of `sync_source`. -/
  | syncSource (request : Nat) (ctx : AuthContext) (source : String) (items : List Item) (now : Time)
  | updateDocumentAcl (ctx : AuthContext) (documentId : Uuid) (acl : List String) (now : Time)
  | deleteDocument (ctx : AuthContext) (documentId : Uuid)
  /-- A step of an upload after its document transaction, or of a worker. -/
  | background (l : Pipeline.Label)
  /-- `record_answer` of an ask stream. -/
  | ask (stream : Nat) (ctx : AuthContext) (question provider : String) (refused : Bool) (now : Time)
  /-- `mark_blocked` of an ask stream, which ends there. -/
  | block (stream : Nat)
  /-- `finalize_answer` of an ask stream, which no stream does twice. -/
  | finalize (stream : Nat) (usage : Usage) (estimated : Bool) (now : Time)
  | addFeedback (ctx : AuthContext) (answerId : Uuid) (rating : Rating) (note : Option String)
  | audit (ctx : AuthContext) (action : String) (detail : List (String × DetailValue)) (now : Time)

/-- The request a label is a transaction of acts under this context. -/
def Label.actor : Label → Option AuthContext
  | .createSession ctx .. | .changePassword ctx .. | .deleteOrg ctx | .createGroup ctx ..
  | .getGroup ctx .. | .addGroupMember ctx .. | .removeGroupMember ctx .. | .deleteGroup ctx ..
  | .syncSource _ ctx .. | .updateDocumentAcl ctx .. | .deleteDocument ctx .. | .ask _ ctx ..
  | .addFeedback ctx .. | .audit ctx .. => some ctx
  | .member call => some call.ctx
  | .signup .. | .login .. | .resolveSession .. | .logout .. | .purgeExpiredSessions .. | .background ..
  | .block .. | .finalize .. => none

/-- The pipeline's steps that no request takes. -/
def isBackground : Pipeline.Label → Bool
  | .sync .. | .updateAcl .. | .deleteDocument .. => false
  | _ => true

variable (env : Env)

def db (s : Service) : Db := s.pipeline.db

def nextId (s : Service) : Uuid := s.pipeline.nextId

/-- The database after a transaction that drew `drawn` ids. -/
def store (s : Service) (db : Db) (drawn : Nat := 0) : Service :=
  { s with pipeline := { s.pipeline with db, nextId := s.pipeline.nextId + drawn } }

/-- A transaction that returns nothing: the state after its commit, or after its abort. -/
def commit (s : Service) (tx : Tx Db Err Unit) (drawn : Nat := 0) : Service :=
  match tx s.db with
  | .ok ((), db) => s.store db drawn
  | .error _ => s

/-- A step of the pipeline. -/
def ingest (s : Service) (l : Pipeline.Label) : Service :=
  { s with pipeline := Pipeline.step env s.pipeline l }

/-- A context is handed to a request. -/
def issue (s : Service) (ctx : AuthContext) : Service := { s with issued := ctx :: s.issued }

/-- The request under `ctx` passes the gate. -/
def passes (s : Service) (ctx : AuthContext) (gate : Except Err Unit) : Bool :=
  s.issued.contains ctx && gate.isOk

/-- One step of the machine. -/
def step (s : Service) : Label → Service
  | .signup orgSlug orgName email password salt now =>
    match createOrgWithOwner env orgSlug orgName email password salt s.nextId (s.nextId + 1) now s.db with
    | .ok (ctx, db) => (s.store db 2).issue ctx
    | .error _ => s
  | .login email password orgSlug =>
    match authenticate env email password orgSlug s.db with
    | .ok ctx => s.issue ctx
    | .error _ => s
  | .createSession ctx raw now =>
    if s.passes ctx (.ok ()) then
      s.commit fun db => (createSession env ctx raw now db).map fun r => ((), r.2)
    else s
  | .resolveSession raw now =>
    match resolveSession env raw now s.db with
    | some ctx => s.issue ctx
    | none => s
  | .logout raw => s.commit (deleteSession env raw)
  | .changePassword ctx current new salt keepTokenHash =>
    if s.passes ctx (.ok ()) then
      s.commit fun db =>
        (changePassword env ctx.userId current new salt keepTokenHash db).map fun r => ((), r.2)
    else s
  | .purgeExpiredSessions now => s.commit fun db => (purgeExpiredSessions now db).map fun r => ((), r.2)
  | .deleteOrg ctx => if s.passes ctx (requireRole ctx .owner) then s.commit (deleteOrg ctx.orgId) else s
  | .member call => if s.passes call.ctx call.gate then s.commit (call.tx env s.nextId) 1 else s
  | .createGroup ctx name now =>
    if s.passes ctx (requireRole ctx .admin) then
      s.commit (fun db => (createGroupTx ctx name s.nextId now db).map fun r => ((), r.2)) 1
    else s
  | .getGroup ctx groupId =>
    if s.passes ctx (.ok ()) ∧ (group? ctx groupId s.db).isSome then
      { s with checked := (ctx, groupId) :: s.checked }
    else s
  | .addGroupMember ctx groupId userId =>
    if s.passes ctx (requireRole ctx .admin) ∧ (ctx, groupId) ∈ s.checked then
      s.commit (addGroupMemberTx ctx groupId userId)
    else s
  | .removeGroupMember ctx groupId userId =>
    if s.passes ctx (requireRole ctx .admin) ∧ (ctx, groupId) ∈ s.checked then
      s.commit (removeGroupMemberTx groupId userId)
    else s
  | .deleteGroup ctx groupId =>
    if s.passes ctx (requireRole ctx .admin) then s.commit (deleteGroupTx ctx groupId) else s
  | .syncSource request ctx source items now =>
    if s.passes ctx (requireRole ctx .admin) then
      s.ingest env (.sync request (checkCaps env ctx.orgId items) ctx.orgId source items now)
    else s
  | .updateDocumentAcl ctx documentId acl now =>
    if s.passes ctx (requireRole ctx .admin) then
      s.ingest env (.updateAcl ctx documentId acl now)
    else s
  | .deleteDocument ctx documentId =>
    if s.passes ctx (requireRole ctx .admin) then
      s.ingest env (.deleteDocument ctx documentId)
    else s
  | .background l => if isBackground l then s.ingest env l else s
  | .ask stream ctx question provider refused now =>
    if s.passes ctx (.ok ()) ∧ s.asks stream = none then
      match recordAnswerTx ctx question provider refused s.nextId now s.db with
      | .ok (answerId, db) =>
        { s.store db 1 with asks := Function.update s.asks stream (some (ctx, answerId)) }
      | .error _ => s
    else s
  | .block stream =>
    match s.asks stream with
    | some (ctx, answerId) =>
      { s.commit (markBlockedTx ctx answerId) with asks := Function.update s.asks stream none }
    | none => s
  | .finalize stream usage estimated now =>
    match s.asks stream with
    | some (ctx, answerId) =>
      { s.commit (finalizeAnswerTx env ctx answerId usage estimated now) with
        asks := Function.update s.asks stream none }
    | none => s
  | .addFeedback ctx answerId rating note =>
    if s.passes ctx (.ok ()) then s.commit (addFeedbackTx ctx answerId rating note) else s
  | .audit ctx action detail now =>
    if s.passes ctx (.ok ()) then s.commit (auditTx env ctx.orgId (some ctx.userId) action detail now)
    else s

/-- The service before the first signup. -/
def init : Service := ⟨Pipeline.atRest {} 0, [], [], fun _ => none⟩

/-- A state some run leads to. -/
def Reachable (s : Service) : Prop := ∃ ls, s = Runs.run (step env) init ls

end Service

end KnowledgeDesk
