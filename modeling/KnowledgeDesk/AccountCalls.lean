import KnowledgeDesk.MemberCalls

/-!
# Tenants and members, statement by statement

`create_org_with_owner`, `add_member`, `remove_member` and `delete_org` with the statements of their
transactions told apart, for runs in which other transactions commit between two of them. A membership's
foreign key locks the row of its org for `key share`: such locks go together, and exclude only the lock of
a delete.
-/

namespace KnowledgeDesk

open Table ReadCommitted

/-- A lock: on a row of the members' tables, on an entry of the unique index on slugs, or on the row of an
org, for its delete or for `key share`. -/
inductive AccountLock where
  | row (key : RowKey)
  | slug (slug : String)
  | org (orgId : Uuid)
  | orgShare (orgId : Uuid)
  deriving DecidableEq

/-- Whether two sessions cannot hold the two locks at once. -/
def AccountLock.conflicts : AccountLock → AccountLock → Bool
  | .orgShare _, .orgShare _ => false
  | .org o, .orgShare p | .orgShare o, .org p => o == p
  | a, b => decide (a = b)

/-- Sessions compare locks for whether they conflict. -/
instance : BEq AccountLock := ⟨AccountLock.conflicts⟩

/-- A call on tenants and members, with its arguments. -/
inductive AccountCall where
  | createOrgWithOwner (orgSlug orgName email password salt : String) (now : Time)
  | addMember (orgId : Uuid) (email password : String) (role : Role) (salt : String) (now : Time)
  | removeMember (ctx : AuthContext) (userId : Uuid)
  | deleteOrg (orgId : Uuid)
  deriving DecidableEq

abbrev AccountProg := Prog Db AccountLock Err Unit

variable (env : Env)

/-- `insert into orgs ...`; `taken` is the exception of a unique violation. -/
def insertOrgStmt (org : Org) (taken : Err) (k : AccountProg) : AccountProg :=
  .write (fun _ => [.slug org.slug, .org org.id])
    (fun view => if view.orgs.any fun o => o.slug == org.slug then id
      else fun db => { db with orgs := db.orgs ++ [org] })
    fun view => if view.orgs.any fun o => o.slug == org.slug then .abort taken else k

/-- `insert into users ...`. -/
def insertUserStmt (user : User) (taken : Err) (k : AccountProg) : AccountProg :=
  .write (fun _ => [.row (.email user.email), .row (.user user.id)])
    (fun view => if view.users.any fun u => u.email == user.email then id
      else fun db => { db with users := db.users ++ [user] })
    fun view => if view.users.any fun u => u.email == user.email then .abort taken else k

/-- `insert into memberships ...`, with the lock of its foreign key on the org. -/
def insertMemberStmt (m : Membership) (taken : Err) : AccountProg :=
  .write (fun view => .row (.membership m.userId m.orgId) ::
      if view.hasOrg m.orgId then [.orgShare m.orgId] else [])
    (fun view => match insertMembership m.userId m.orgId m.role m.createdAt view with
      | .ok _ => fun db => { db with memberships := db.memberships ++ [m] }
      | .error _ => id)
    fun view => match insertMembership m.userId m.orgId m.role m.createdAt view with
      | .ok _ => .done ()
      | .error .uniqueViolation => .abort taken
      | .error e => .abort (.db e)

/-- `purge_stranded_users`: the users it finds stranded are deleted, and their emails are free again. -/
def purgeStrandedStmt (userIds : List Uuid) : AccountProg :=
  .write
    (fun view => (view.users.filter (isStranded userIds view)).flatMap fun u =>
      [.row (.user u.id), .row (.email u.email)])
    (fun view =>
      let ids := (view.users.filter (isStranded userIds view)).map (·.id)
      (·.deleteUsers fun u => ids.contains u.id))
    fun _ => .done ()

/-- The row of the org, and the rows that its delete cascades to among those other calls lock. -/
def deleteOrgLocks (orgId : Uuid) (view : Db) : List AccountLock :=
  if view.hasOrg orgId then
    .org orgId :: (view.memberships.filter fun m => m.orgId == orgId).map fun m =>
      .row (.membership m.userId m.orgId)
  else []

/-- The two `delete`s of `delete_org`, for the members it has read. -/
def deleteOrgStmts (orgId : Uuid) (members : List Uuid) : AccountProg :=
  .write (deleteOrgLocks orgId) (fun view => if view.hasOrg orgId then Db.deleteOrg orgId else id)
    fun _ => purgeStrandedStmt members

/-- The transaction of `create_org_with_owner`. -/
def createOrgWithOwnerProg (orgSlug orgName email password salt : String) (now : Time) (fresh : Uuid) :
    AccountProg :=
  let taken := Err.conflict "org slug or email already taken"
  insertOrgStmt ⟨fresh, orgSlug, orgName⟩ taken
    (insertUserStmt ⟨fresh, normalizeEmail env email, env.hashPassword password salt⟩ taken
      (insertMemberStmt ⟨fresh, fresh, .owner, now⟩ taken))

/-- The transaction of `add_member`. -/
def addMemberStmts (orgId : Uuid) (email password : String) (role : Role) (salt : String) (now : Time)
    (fresh : Uuid) : AccountProg :=
  insertUserStmt ⟨fresh, normalizeEmail env email, env.hashPassword password salt⟩ (.conflict memberExists)
    (insertMemberStmt ⟨fresh, orgId, role, now⟩ (.conflict memberExists))

/-- The transaction of `delete_org`. -/
def deleteOrgProg (orgId : Uuid) : AccountProg :=
  .select fun view =>
    deleteOrgStmts orgId ((view.memberships.filter fun m => m.orgId == orgId).map (·.userId))

/-- A call as a transaction, `fresh` being the id drawn for the user, and for the org if there is one. -/
def AccountCall.program (call : AccountCall) (fresh : Nat) : AccountProg :=
  match call with
  | .createOrgWithOwner orgSlug orgName email password salt now =>
    createOrgWithOwnerProg env orgSlug orgName email password salt now fresh
  | .addMember orgId email password role salt now => addMemberStmts env orgId email password role salt now fresh
  | .removeMember ctx userId => (MemberCall.program env (.removeMember ctx userId) fresh).relock .row
  | .deleteOrg orgId => deleteOrgProg orgId

/-- Sessions that run these calls. -/
abbrev AccountSystem := State Db AccountLock Err Unit AccountCall

/-- One step of such sessions. -/
def accountStep : AccountSystem → Label AccountCall → AccountSystem := step (AccountCall.program env)

/-- The step is the delete of a `delete_org` whose list of members misses a user who is one by now. -/
def OverlooksMember (s : AccountSystem) : Label AccountCall → Prop
  | .advance i => ∃ t orgId members, s.sessions i = some t ∧ t.call = .deleteOrg orgId ∧
      t.prog = deleteOrgStmts orgId members ∧ s.free i (deleteOrgLocks orgId (t.pending s.store)) = true ∧
      ∃ m ∈ s.store.memberships, m.orgId = orgId ∧ m.userId ∉ members
  | _ => False

end KnowledgeDesk
