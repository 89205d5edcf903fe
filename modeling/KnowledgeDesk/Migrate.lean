import KnowledgeDesk.Config
import KnowledgeDesk.Lib.Connection
import KnowledgeDesk.Lib.Dict
import KnowledgeDesk.Lib.Table

/-!
# Migrations

`migrate.py`: the app role, then every file that is not recorded. What the SQL of a file does to the schema
is the file's own; it controls no transaction. What the source prints is left out.
-/

namespace KnowledgeDesk

open Connection Table

variable {σ : Type}

/-- What the runner reads off the two database URLs: user and password of the app, unquoted, and the owner's
user, each empty where the URL has none. -/
structure MigrateSettings where
  appUsername : String
  appPassword : String
  ownerUsername : String

/-- The database server: its roles with their passwords, the table `schema_migrations`, if there is one, and
everything else in the database. -/
structure Server (σ : Type) where
  roles : Dict String String := .empty
  schemaMigrations : Option (List String) := none
  schema : σ

/-- The versions recorded. -/
def Server.recorded (s : Server σ) : List String := s.schemaMigrations.getD []

/-- What a statement of the runner raises. -/
inductive SqlError
  | failed (message : String)
  | undefinedTable | uniqueViolation | duplicateObject | undefinedObject | inFailedSqlTransaction
  deriving DecidableEq

/-- A statement of the runner. -/
abbrev SqlStmt (σ α : Type) := Tx (Server σ) SqlError α

/-- `conn.execute`. -/
def executeSql {α : Type} (stmt : SqlStmt σ α) : Client (Server σ) SqlError α :=
  execute .inFailedSqlTransaction stmt

/-! ## The app role -/

/-- `select 1 from pg_roles where rolname = %s`. -/
def roleExists (role : String) : SqlStmt σ Bool := fun s => .ok ((s.roles.get? role).isSome, s)

/-- `alter role {} login password {}`. -/
def alterRole (role password : String) : SqlStmt σ Unit := fun s =>
  if (s.roles.get? role).isSome then .ok ((), { s with roles := s.roles.set role password })
  else .error .undefinedObject

/-- `create role {} login password {}`. -/
def createRole (role password : String) : SqlStmt σ Unit := fun s =>
  if (s.roles.get? role).isSome then .error .duplicateObject
  else .ok ((), { s with roles := s.roles.set role password })

/-- `ensure_app_role`. -/
def ensureAppRole (settings : MigrateSettings) : Proc (Server σ) SqlError (Option String) :=
  let role := settings.appUsername
  let password := settings.appPassword
  if role = "" ∨ role = settings.ownerUsername then return none
  else do
    withConnection do
      if ← executeSql (roleExists role) then executeSql (alterRole role password)
      else executeSql (createRole role password)
      commit
    return some role

/-! ## The files -/

/-- A file of `migrations/`: its stem, and what its SQL does to the schema. -/
structure Migration (σ : Type) where
  version : String
  sqlText : σ → Except String σ

/-- `migrations/`, whose files have different names. -/
structure MigrationsDir (σ : Type) where
  contents : List (Migration σ)
  nodup : (contents.map Migration.version).Nodup

/-- `_files`. -/
def MigrationsDir.files (dir : MigrationsDir σ) : List (Migration σ) :=
  orderBy (fun a b => codePointLe (a.version ++ ".sql") (b.version ++ ".sql")) dir.contents

/-- The file's SQL as a statement. -/
def Migration.stmt (m : Migration σ) : SqlStmt σ Unit := fun s =>
  match m.sqlText s.schema with
  | .ok schema => .ok ((), { s with schema })
  | .error message => .error (.failed message)

/-- `create table if not exists schema_migrations (...)`. -/
def createTable : SqlStmt σ Unit := fun s => .ok ((), { s with schemaMigrations := some s.recorded })

/-- `select version from schema_migrations`. -/
def selectVersions : SqlStmt σ (List String) := fun s =>
  match s.schemaMigrations with
  | none => .error .undefinedTable
  | some versions => .ok (versions, s)

/-- `insert into schema_migrations(version) values (%s)`. -/
def insertVersion (version : String) : SqlStmt σ Unit := fun s =>
  match s.schemaMigrations with
  | none => .error .undefinedTable
  | some versions =>
    if versions.contains version then .error .uniqueViolation
    else .ok ((), { s with schemaMigrations := some (versions ++ [version]) })

/-- `_ensure_table`. -/
def ensureTable : Client (Server σ) SqlError Unit := do
  executeSql createTable
  commit

/-- `_applied`. -/
def applied : Client (Server σ) SqlError (List String) := executeSql selectVersions

/-- The block of one file in the loop of `apply_pending`. -/
def applyFile (m : Migration σ) : Client (Server σ) SqlError Unit :=
  transaction .inFailedSqlTransaction do
    executeSql m.stmt
    executeSql (insertVersion m.version)

/-- The loop of `apply_pending`. -/
def applyFiles (done : List String) : List (Migration σ) → List String → Client (Server σ) SqlError
    (List String)
  | [], appliedNow => return appliedNow
  | m :: ms, appliedNow =>
    if done.contains m.version then applyFiles done ms appliedNow
    else do
      applyFile m
      applyFiles done ms (appliedNow ++ [m.version])

/-- `apply_pending`. -/
def applyPending (settings : MigrateSettings) (dir : MigrationsDir σ) : Proc (Server σ) SqlError
    (List String) := do
  let _ ← ensureAppRole settings
  withConnection do
    ensureTable
    let done ← applied
    applyFiles done dir.files []

end KnowledgeDesk
