import KnowledgeDesk.Auth

/-!
# Accounts

`accounts.py`: identities, org grants and sessions. Each function is one transaction; what it draws at
random (ids, salts, tokens) is an argument.
-/

namespace KnowledgeDesk

open Table

variable (env : Env)

/-- `email.strip().lower()`. -/
def normalizeEmail (email : String) : String := env.lower (PyText.stripStr email)

/-- `insert into users ...`: the unique email, then the row. -/
def insertUser (email passwordHash : String) (fresh : Uuid) (db : Db) : Except DbError Db :=
  if db.users.any fun u => u.email == email then .error .uniqueViolation
  else .ok { db with users := db.users ++ [⟨fresh, email, passwordHash⟩] }

/-- `insert into memberships ...`: the foreign keys, the unique pair, then the row. -/
def insertMembership (userId orgId : Uuid) (role : Role) (now : Time) (db : Db) : Except DbError Db :=
  if db.memberships.any fun m => m.userId == userId && m.orgId == orgId then .error .uniqueViolation
  else if db.hasUser userId && db.hasOrg orgId then
    .ok { db with memberships := db.memberships ++ [⟨userId, orgId, role, now⟩] }
  else .error .foreignKeyViolation

/-- `except psycopg.errors.UniqueViolation as exc: raise e from exc`. -/
def onUniqueViolation {α : Type} (e : Err) : Except DbError α → Except Err α
  | .ok a => .ok a
  | .error .uniqueViolation => .error e
  | .error d => .error (.db d)

/-- `create_org_with_owner`. -/
def createOrgWithOwner (orgSlug orgName email password salt : String) (freshOrg freshUser : Uuid)
    (now : Time) : Tx Db Err AuthContext := fun db =>
  let email := normalizeEmail env email
  onUniqueViolation (.conflict "org slug or email already taken") do
    if db.orgs.any fun o => o.slug == orgSlug then throw .uniqueViolation
    let db := { db with orgs := db.orgs ++ [⟨freshOrg, orgSlug, orgName⟩] }
    let db ← insertUser email (env.hashPassword password salt) freshUser db
    let db ← insertMembership freshUser freshOrg .owner now db
    return (⟨freshUser, freshOrg, .owner, email⟩, db)

/-- What `add_member` says when the email is taken. -/
def memberExists : String :=
  "that email already has an account; an existing account can only join another org by invitation"

/-- `add_member`. -/
def addMember (orgId : Uuid) (email password : String) (role : Role) (salt : String) (fresh : Uuid)
    (now : Time) : Tx Db Err Uuid := fun db =>
  let email := normalizeEmail env email
  onUniqueViolation (.conflict memberExists) do
    let db ← insertUser email (env.hashPassword password salt) fresh db
    let db ← insertMembership fresh orgId role now db
    return (fresh, db)

/-- `authenticate`. -/
def authenticate (email password : String) (orgSlug : Option String) (db : Db) :
    Except Err AuthContext :=
  let email := normalizeEmail env email
  match db.users.find? fun u => u.email == email with
  | none => .error (.authError "invalid email or password")
  | some user =>
    if !env.verifyPassword password user.passwordHash then
      .error (.authError "invalid email or password")
    else
      let memberships := (db.memberships.filter fun m => m.userId == user.id).filterMap fun m =>
        (db.orgs.find? fun o => o.id == m.orgId).map fun o => (m, o.slug)
      if memberships.isEmpty then .error (.authError "user has no org memberships")
      else match orgSlug, memberships with
        | some slug, _ => match memberships.find? fun m => m.2 == slug with
          | none => .error (.authError s!"not a member of org: {slug}")
          | some m => .ok ⟨user.id, m.1.orgId, m.1.role, email⟩
        | none, [m] => .ok ⟨user.id, m.1.orgId, m.1.role, email⟩
        | none, _ => .error (.authError "multiple orgs; specify org_slug")

/-- `create_session`, of the token `raw` that `secrets.token_urlsafe` drew. -/
def createSession (ctx : AuthContext) (raw : String) (now : Time) : Tx Db Err String := fun db => do
  if db.sessions.any fun s => s.tokenHash == env.sha256 raw then throw (.db .uniqueViolation)
  Db.references (db.hasUser ctx.userId && db.hasOrg ctx.orgId)
  let expiresAt := now + seconds (env.settings.sessionTtlHours * 3600)
  .ok (raw, { db with
    sessions := db.sessions ++ [⟨env.sha256 raw, ctx.userId, ctx.orgId, expiresAt⟩] })

/-- The row of the `select` of `resolve_session`. -/
def sessionRow (tokenHash : String) (db : Db) : Option (Session × AuthContext) :=
  (db.sessions.filter fun s => s.tokenHash == tokenHash).findSome? fun s =>
    (db.memberships.find? fun m => m.userId == s.userId && m.orgId == s.orgId).bind fun m =>
      (db.users.find? fun u => u.id == s.userId).map fun u =>
        (s, ⟨s.userId, s.orgId, m.role, u.email⟩)

/-- `resolve_session`. -/
def resolveSession (raw : String) (now : Time) (db : Db) : Option AuthContext :=
  match sessionRow (env.sha256 raw) db with
  | none => none
  | some (s, ctx) => if s.expiresAt ≤ now then none else some ctx

/-- `delete_session`. -/
def deleteSession (raw : String) : Tx Db Err Unit := fun db =>
  .ok ((), { db with sessions := deleteWhere (fun s => s.tokenHash == env.sha256 raw) db.sessions })

/-- `change_password`: the number of other sessions revoked. -/
def changePassword (userId : Uuid) (current new salt keepTokenHash : String) : Tx Db Err Nat := fun db =>
  match db.users.find? fun u => u.id == userId with
  | none => .error (.authError "current password is incorrect")
  | some user =>
    if !env.verifyPassword current user.passwordHash then
      .error (.authError "current password is incorrect")
    else
      let revoked := fun s : Session => s.userId == userId && s.tokenHash != keepTokenHash
      .ok ((db.sessions.filter revoked).length, { db with
        users := updateWhere (fun u => u.id == userId)
          (fun u => { u with passwordHash := env.hashPassword new salt }) db.users
        sessions := deleteWhere revoked db.sessions })

/-- `purge_expired_sessions`. -/
def purgeExpiredSessions (now : Time) : Tx Db Err Nat := fun db =>
  let expired := fun s : Session => decide (s.expiresAt ≤ now)
  .ok ((db.sessions.filter expired).length, { db with sessions := deleteWhere expired db.sessions })

/-- The `where` of `purge_stranded_users`. -/
def isStranded (userIds : List Uuid) (db : Db) (u : User) : Bool :=
  userIds.contains u.id && !(db.memberships.any fun m => m.userId == u.id)

/-- `purge_stranded_users`. -/
def purgeStrandedUsers (userIds : List Uuid) (db : Db) : Db := db.deleteUsers (isStranded userIds db)

/-- `delete_org`. -/
def deleteOrg (orgId : Uuid) : Tx Db Err Unit := fun db =>
  let members := (db.memberships.filter fun m => m.orgId == orgId).map (·.userId)
  .ok ((), purgeStrandedUsers members (db.deleteOrg orgId))

end KnowledgeDesk
