import KnowledgeDesk.Lib.ReadCommitted
import KnowledgeDesk.Tenancy

/-!
# The calls on memberships, statement by statement

`set_member_role`, `remove_member` and `add_member` with the statements of their transactions told
apart, for runs in which other transactions commit between two of them. The rows a statement writes are
locked by their keys until the transaction ends.
-/

namespace KnowledgeDesk

open Table ReadCommitted

/-- The row keys the calls lock: a membership, a user, and an entry of the unique index on emails. -/
inductive RowKey where
  | membership (userId orgId : Uuid)
  | user (userId : Uuid)
  | email (email : String)
  deriving DecidableEq

/-- A call on the memberships of an org, with its arguments. -/
inductive MemberCall where
  | setMemberRole (ctx : AuthContext) (userId : Uuid) (role : Role)
  | removeMember (ctx : AuthContext) (userId : Uuid)
  | addMember (ctx : AuthContext) (email password : String) (role : Role) (salt : String) (now : Time)
  deriving DecidableEq

abbrev MemberProg := Prog Db RowKey Err Unit

variable (env : Env)

/-- The `update` of `set_member_role`. -/
def updateRoleStmt (userId orgId : Uuid) (role : Role) : MemberProg :=
  .write (fun db => if isMember userId orgId db then [.membership userId orgId] else [])
    (fun db => if isMember userId orgId db then updateRole userId orgId role else id)
    fun _ => .done ()

/-- The transaction of `set_member_role`. -/
def setMemberRoleProg (ctx : AuthContext) (userId : Uuid) (role : Role) : MemberProg :=
  .select fun db => match memberRole? userId ctx.orgId db with
    | none => .abort (.notFound s!"member not found: {userId}")
    | some target =>
      if target = .owner ∧ role ≠ .owner then
        .select fun db =>
          if ownerCount ctx.orgId db = 1 then .abort (.forbidden "the org must keep at least one owner")
          else updateRoleStmt userId ctx.orgId role
      else updateRoleStmt userId ctx.orgId role

/-- The `delete` of `purge_stranded_users` for one user. -/
def purgeStmt (userId : Uuid) : MemberProg :=
  .write (fun db => if db.users.any (isStranded [userId] db) then [.user userId] else [])
    (fun db => if db.users.any (isStranded [userId] db) then (·.deleteUsers fun u => u.id == userId)
      else id)
    fun _ => .done ()

/-- The two `delete`s of `remove_member`. -/
def deleteMemberStmts (userId orgId : Uuid) : MemberProg :=
  .write (fun db => if isMember userId orgId db then [.membership userId orgId] else [])
    (fun db => if isMember userId orgId db then deleteMembership userId orgId else id)
    fun _ => purgeStmt userId

/-- The transaction of `remove_member`. -/
def removeMemberProg (ctx : AuthContext) (userId : Uuid) : MemberProg :=
  .select fun db => match memberRole? userId ctx.orgId db with
    | none => .abort (.notFound s!"member not found: {userId}")
    | some target =>
      if target = .owner then
        .select fun db =>
          if ownerCount ctx.orgId db = 1 then .abort (.forbidden "cannot remove the last owner")
          else deleteMemberStmts userId ctx.orgId
      else deleteMemberStmts userId ctx.orgId

/-- The `insert` of the membership in `add_member`. -/
def insertMembershipStmt (userId orgId : Uuid) (role : Role) (now : Time) : MemberProg :=
  .write (fun _ => [.membership userId orgId])
    (fun db => match insertMembership userId orgId role now db with
      | .ok _ => fun db => { db with memberships := db.memberships ++ [⟨userId, orgId, role, now⟩] }
      | .error _ => id)
    fun db => match insertMembership userId orgId role now db with
      | .ok _ => .done ()
      | .error .uniqueViolation => .abort (.conflict memberExists)
      | .error e => .abort (.db e)

/-- The transaction of `add_member`. -/
def addMemberProg (orgId : Uuid) (email password : String) (role : Role) (salt : String) (now : Time)
    (fresh : Uuid) : MemberProg :=
  .write (fun _ => [.email (normalizeEmail env email), .user fresh])
    (fun db => match insertUser (normalizeEmail env email) (env.hashPassword password salt) fresh db with
      | .ok _ => fun db => { db with
          users := db.users ++ [⟨fresh, normalizeEmail env email, env.hashPassword password salt⟩] }
      | .error _ => id)
    fun db =>
      match insertUser (normalizeEmail env email) (env.hashPassword password salt) fresh db with
      | .ok _ => insertMembershipStmt fresh orgId role now
      | .error .uniqueViolation => .abort (.conflict memberExists)
      | .error e => .abort (.db e)

/-- What a call checks before its transaction. -/
def MemberCall.gate : MemberCall → Except Err Unit
  | .setMemberRole ctx userId role => setMemberRoleGate ctx userId role
  | .removeMember ctx userId => removeMemberGate ctx userId
  | .addMember ctx _ _ role _ _ => requireCanGrant ctx role

/-- Who makes a call. -/
def MemberCall.ctx : MemberCall → AuthContext
  | .setMemberRole ctx .. | .removeMember ctx .. | .addMember ctx .. => ctx

/-- The org whose memberships a call is about. -/
def MemberCall.orgId (call : MemberCall) : Uuid := call.ctx.orgId

/-- Whom a call takes the role of an owner from, if they have it. -/
def MemberCall.demotes : MemberCall → Option Uuid
  | .setMemberRole _ userId role => if role = .owner then none else some userId
  | .removeMember _ userId => some userId
  | .addMember .. => none

/-- The transaction of a call, run alone. -/
def MemberCall.tx (call : MemberCall) (fresh : Uuid) : Tx Db Err Unit :=
  match call with
  | .setMemberRole ctx userId role => setMemberRoleTx ctx userId role
  | .removeMember ctx userId => removeMemberTx ctx userId
  | .addMember ctx email password role salt now => fun db =>
    (KnowledgeDesk.addMember env ctx.orgId email password role salt fresh now db).map fun r => ((), r.2)

/-- A call as a transaction, `fresh` being the id drawn for it. -/
def MemberCall.program (call : MemberCall) (fresh : Nat) : MemberProg :=
  match call.gate with
  | .error e => .abort e
  | .ok () => match call with
    | .setMemberRole ctx userId role => setMemberRoleProg ctx userId role
    | .removeMember ctx userId => removeMemberProg ctx userId
    | .addMember ctx email password role salt now =>
      addMemberProg env ctx.orgId email password role salt now fresh

/-- Sessions that run these calls. -/
abbrev MemberSystem := State Db RowKey Err Unit MemberCall

/-- One step of such sessions. -/
def memberStep : MemberSystem → Label MemberCall → MemberSystem := step (MemberCall.program env)

end KnowledgeDesk
