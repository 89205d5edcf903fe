import KnowledgeDesk.Lib.Table
import KnowledgeDesk.Lib.Transaction
import Mathlib.Algebra.Field.Rat

/-!
# The database

The tables of `migrations/`, as lists of rows, with the constraints a statement can run into (unique
keys, foreign keys), the cascades of the foreign keys, and the row-level-security predicate that a
connection with a tenant context is subject to. Ids are uuids, of which only equality and freshness
matter, so they are numbers here; a timestamp is a number of microseconds; money is exact.
-/

namespace KnowledgeDesk

open Table

abbrev Uuid := Nat

/-- A `timestamptz`, in microseconds since the epoch. -/
abbrev Time := Int

/-- `make_interval(secs => n)`. -/
def seconds (n : Nat) : Time := n * 1000000

/-- A `vector(1024)`. -/
abbrev Embedding := List ℚ

/-- `memberships.role`, which `check (role in (...))` bounds to these. -/
inductive Role where
  | member | admin | owner
  deriving DecidableEq, Repr

/-- `documents.status`. -/
inductive DocStatus where
  | pending | ingested | failed | deleted
  deriving DecidableEq, Repr

/-- `jobs.status`. -/
inductive JobStatus where
  | queued | running | succeeded | failed | dead
  deriving DecidableEq, Repr

/-- `feedback.rating`. -/
inductive Rating where
  | up | down
  deriving DecidableEq, Repr

/-- A value of an audit entry's `detail`. -/
inductive DetailValue where
  | str (s : String)
  | num (n : Nat)
  | bool (b : Bool)
  deriving DecidableEq, Repr

structure Org where
  id : Uuid
  slug : String
  name : String
  deriving DecidableEq

structure User where
  id : Uuid
  email : String
  passwordHash : String
  deriving DecidableEq

structure Membership where
  userId : Uuid
  orgId : Uuid
  role : Role
  createdAt : Time
  deriving DecidableEq

structure Group where
  id : Uuid
  orgId : Uuid
  name : String
  createdAt : Time
  deriving DecidableEq

structure GroupMember where
  groupId : Uuid
  userId : Uuid
  deriving DecidableEq

structure Session where
  tokenHash : String
  userId : Uuid
  orgId : Uuid
  expiresAt : Time
  deriving DecidableEq

structure Document where
  id : Uuid
  orgId : Uuid
  source : String
  path : String
  content : String
  contentHash : String
  acl : List String
  piiTypes : List String
  status : DocStatus
  revision : Nat
  updatedAt : Time
  deriving DecidableEq

structure Chunk where
  orgId : Uuid
  documentId : Uuid
  ordinal : Nat
  text : String
  embedding : Embedding
  acl : List String
  deriving DecidableEq

/-- A job's `payload`: a JSON object whose values are ids. -/
abbrev Payload := List (String × Uuid)

structure Job where
  id : Uuid
  orgId : Uuid
  kind : String
  payload : Payload
  idempotencyKey : String
  status : JobStatus
  attempts : Nat
  maxAttempts : Nat
  lastError : Option String
  runAfter : Time
  createdAt : Time
  updatedAt : Time
  deriving DecidableEq

structure Answer where
  id : Uuid
  orgId : Uuid
  userId : Uuid
  question : String
  provider : String
  refused : Bool
  createdAt : Time
  inputTokens : Nat
  outputTokens : Nat
  costUsd : ℚ≥0
  blocked : Bool
  usageEstimated : Bool
  deriving DecidableEq

structure Feedback where
  orgId : Uuid
  userId : Uuid
  answerId : Uuid
  rating : Rating
  note : Option String
  deriving DecidableEq

structure AuditRow where
  orgId : Uuid
  actorUserId : Option Uuid
  action : String
  detail : List (String × DetailValue)
  createdAt : Time
  deriving DecidableEq

structure PlatformSpend where
  day : Int
  costUsd : ℚ≥0
  deriving DecidableEq

/-- The committed state of the database. -/
structure Db where
  orgs : List Org := []
  users : List User := []
  memberships : List Membership := []
  groups : List Group := []
  groupMembers : List GroupMember := []
  sessions : List Session := []
  documents : List Document := []
  chunks : List Chunk := []
  jobs : List Job := []
  answers : List Answer := []
  feedback : List Feedback := []
  auditLog : List AuditRow := []
  platformSpend : List PlatformSpend := []
  deriving DecidableEq

/-- What psycopg raises. -/
inductive DbError where
  | uniqueViolation | foreignKeyViolation | operational
  deriving DecidableEq, Repr

/-- The exceptions of `errors.py`, `ValueError`, and those of the database. -/
inductive Err where
  | conflict (detail : String)
  | notFound (detail : String)
  | forbidden (detail : String)
  | authError (detail : String)
  | quotaExceeded (detail : String)
  | valueError (detail : String)
  | db (e : DbError)
  deriving DecidableEq, Repr

/-- `str(exc)`. -/
def Err.text : Err → String
  | .conflict d | .notFound d | .forbidden d | .authError d | .quotaExceeded d | .valueError d => d
  | .db .uniqueViolation => "duplicate key value violates unique constraint"
  | .db .foreignKeyViolation => "insert or update violates foreign key constraint"
  | .db .operational => "server closed the connection unexpectedly"

/-- The policy `org_isolation`: with `app.current_org` set to `org`, a statement on a table under
row-level security sees, and may change, only the rows of `org`. -/
def rls {ρ : Type} (org : Uuid) (orgId : ρ → Uuid) (p : ρ → Bool) : ρ → Bool :=
  fun r => orgId r == org && p r

namespace Db

/-! ## Deletes and their cascades -/

/-- `delete from answers where p`: `feedback.answer_id` cascades. -/
def deleteAnswers (p : Answer → Bool) (db : Db) : Db :=
  { db with
    answers := deleteWhere p db.answers
    feedback := deleteWhere (fun f => db.answers.any fun a => p a && a.id == f.answerId) db.feedback }

/-- `delete from users where p`: memberships, group memberships, sessions, answers (and the feedback
on them) and feedback cascade, `audit_log.actor_user_id` is set to null. -/
def deleteUsers (p : User → Bool) (db : Db) : Db :=
  let gone := fun id => db.users.any fun u => p u && u.id == id
  let db' := db.deleteAnswers fun a => gone a.userId
  { db' with
    users := deleteWhere p db.users
    memberships := deleteWhere (fun m => gone m.userId) db.memberships
    groupMembers := deleteWhere (fun m => gone m.userId) db.groupMembers
    sessions := deleteWhere (fun s => gone s.userId) db.sessions
    feedback := deleteWhere (fun f => gone f.userId) db'.feedback
    auditLog := updateWhere (fun a => a.actorUserId.any gone) (fun a => { a with actorUserId := none })
      db.auditLog }

/-- `delete from groups where p`: `group_members.group_id` cascades. -/
def deleteGroups (p : Group → Bool) (db : Db) : Db :=
  { db with
    groups := deleteWhere p db.groups
    groupMembers := deleteWhere (fun m => db.groups.any fun g => p g && g.id == m.groupId)
      db.groupMembers }

/-- `delete from documents where p`: `chunks.document_id` cascades. -/
def deleteDocuments (p : Document → Bool) (db : Db) : Db :=
  { db with
    documents := deleteWhere p db.documents
    chunks := deleteWhere (fun c => db.documents.any fun d => p d && d.id == c.documentId) db.chunks }

/-- `delete from orgs where id = org`: every table that references `orgs` cascades. -/
def deleteOrg (org : Uuid) (db : Db) : Db :=
  let db' := ((db.deleteAnswers fun a => a.orgId == org).deleteGroups fun g => g.orgId == org)
    |>.deleteDocuments fun d => d.orgId == org
  { db' with
    orgs := deleteWhere (fun o => o.id == org) db.orgs
    memberships := deleteWhere (fun m => m.orgId == org) db.memberships
    sessions := deleteWhere (fun s => s.orgId == org) db.sessions
    chunks := deleteWhere (fun c => c.orgId == org) db'.chunks
    jobs := deleteWhere (fun j => j.orgId == org) db.jobs
    feedback := deleteWhere (fun f => f.orgId == org) db'.feedback
    auditLog := deleteWhere (fun a => a.orgId == org) db.auditLog }

/-! ## Foreign keys -/

def hasOrg (db : Db) (org : Uuid) : Bool := db.orgs.any fun o => o.id == org

def hasUser (db : Db) (user : Uuid) : Bool := db.users.any fun u => u.id == user

def hasGroup (db : Db) (group : Uuid) : Bool := db.groups.any fun g => g.id == group

def hasDocument (db : Db) (doc : Uuid) : Bool := db.documents.any fun d => d.id == doc

/-- A foreign key: the statement aborts unless the referenced row exists. -/
def references (ok : Bool) : Except Err Unit :=
  if ok then .ok () else .error (.db .foreignKeyViolation)

/-! ## Rows by id -/

/-- The document row with this id. -/
def document? (db : Db) (id : Uuid) : Option Document := db.documents.find? fun d => d.id == id

/-- The chunks of a document. -/
def chunksOf (db : Db) (id : Uuid) : List Chunk := db.chunks.filter fun c => c.documentId == id

/-- The job row with this id. -/
def job? (db : Db) (id : Uuid) : Option Job := db.jobs.find? fun j => j.id == id

end Db

end KnowledgeDesk
