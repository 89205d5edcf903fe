import KnowledgeDesk.Accounts
import KnowledgeDesk.Ingest
import KnowledgeDesk.Lib.Calendar

/-!
# The tenant-scoped data layer

`tenancy.TenantScope`. A method is an `Proc`: the gates it checks first, then its transactions in
order. A transaction that writes has a name of its own (`...Tx`), since other calls can run between two
transactions of one method. The context is that of a resolved session; statements on tables under
row-level security carry the policy's predicate beside their own.
-/

namespace KnowledgeDesk

open Table

/-- A method of `TenantScope`. -/
abbrev Scope (α : Type) := Proc Db Err α

/-- A gate: raises, or goes on. -/
def gate (g : Except Err Unit) : Scope Unit :=
  match g with
  | .ok () => Proc.ok ()
  | .error e => Proc.raise e

variable (env : Env) (ctx : AuthContext)

/-! ## Groups -/

/-- `list_groups`. -/
def listGroups : Scope (List Group) :=
  Proc.read fun db => orderBy (fun a b => env.collate a.name b.name)
    (db.groups.filter (rls ctx.orgId Group.orgId fun g => g.orgId == ctx.orgId))

/-- The transaction of `create_group`. -/
def createGroupTx (name : String) (fresh : Uuid) (now : Time) : Tx Db Err Group := fun db =>
  if db.groups.any fun g => g.orgId == ctx.orgId && g.name == name then
    .error (.conflict s!"group already exists: {name}")
  else do
    Db.references (db.hasOrg ctx.orgId)
    let group : Group := ⟨fresh, ctx.orgId, name, now⟩
    .ok (group, { db with groups := db.groups ++ [group] })

/-- `create_group`. -/
def createGroup (name : String) (fresh : Uuid) (now : Time) : Scope Group := do
  gate (requireRole ctx .admin)
  Proc.transact (createGroupTx ctx name fresh now)

/-- The `select` of `get_group`. -/
def group? (groupId : Uuid) (db : Db) : Option Group :=
  db.groups.find? (rls ctx.orgId Group.orgId fun g => g.id == groupId && g.orgId == ctx.orgId)

/-- `get_group`. -/
def getGroup (groupId : Uuid) : Scope Group := do
  match ← Proc.read (group? ctx groupId) with
  | none => Proc.raise (.notFound s!"group not found: {groupId}")
  | some g => return g

/-- `select 1 from memberships where user_id = %s and org_id = %s`. -/
def isMember (userId orgId : Uuid) (db : Db) : Bool :=
  db.memberships.any fun m => m.userId == userId && m.orgId == orgId

/-- The transaction of `add_group_member`. -/
def addGroupMemberTx (groupId userId : Uuid) : Tx Db Err Unit := fun db =>
  if isMember userId ctx.orgId db then
    if db.groupMembers.any fun m => m.groupId == groupId && m.userId == userId then .ok ((), db)
    else do
      Db.references (db.hasGroup groupId && db.hasUser userId)
      .ok ((), { db with groupMembers := db.groupMembers ++ [⟨groupId, userId⟩] })
  else .error (.notFound s!"user is not a member of this org: {userId}")

/-- `add_group_member`. -/
def addGroupMember (groupId userId : Uuid) : Scope Unit := do
  gate (requireRole ctx .admin)
  let _ ← getGroup ctx groupId
  Proc.transact (addGroupMemberTx ctx groupId userId)

/-- The `select` of `add_group_member_by_email`. -/
def memberByEmail (email : String) (db : Db) : Option Uuid :=
  (db.users.find? fun u => u.email == email && isMember u.id ctx.orgId db).map (·.id)

/-- `add_group_member_by_email`. -/
def addGroupMemberByEmail (groupId : Uuid) (email : String) : Scope Uuid := do
  gate (requireRole ctx .admin)
  match ← Proc.read (memberByEmail ctx (normalizeEmail env email)) with
  | none => Proc.raise (.notFound s!"no member of this org with email: {email}")
  | some userId =>
    addGroupMember ctx groupId userId
    return userId

/-- The transaction of `remove_group_member`. -/
def removeGroupMemberTx (groupId userId : Uuid) : Tx Db Err Unit := fun db =>
  .ok ((), { db with
    groupMembers := deleteWhere (fun m => m.groupId == groupId && m.userId == userId) db.groupMembers })

/-- `remove_group_member`. -/
def removeGroupMember (groupId userId : Uuid) : Scope Unit := do
  gate (requireRole ctx .admin)
  let _ ← getGroup ctx groupId
  Proc.transact (removeGroupMemberTx groupId userId)

/-- A row of `list_group_members`. -/
structure GroupMemberRow where
  id : Uuid
  email : String
  deriving DecidableEq

/-- `list_group_members`. -/
def listGroupMembers (groupId : Uuid) : Scope (List GroupMemberRow) := do
  let _ ← getGroup ctx groupId
  Proc.read fun db => orderBy (fun a b => env.collate a.email b.email)
    ((db.groupMembers.filter fun m => m.groupId == groupId).filterMap fun m =>
      (db.users.find? fun u => u.id == m.userId).map fun u => ⟨u.id, u.email⟩)

/-- The transaction of `delete_group`. -/
def deleteGroupTx (groupId : Uuid) : Tx Db Err Unit := fun db =>
  match group? ctx groupId db with
  | none => .error (.notFound s!"group not found: {groupId}")
  | some _ => .ok ((), db.deleteGroups
      (rls ctx.orgId Group.orgId fun g => g.id == groupId && g.orgId == ctx.orgId))

/-- `delete_group`. -/
def deleteGroup (groupId : Uuid) : Scope Unit := do
  gate (requireRole ctx .admin)
  Proc.transact (deleteGroupTx ctx groupId)

/-! ## Members -/

/-- `_owner_count`. -/
def ownerCount (orgId : Uuid) (db : Db) : Nat :=
  (db.memberships.filter fun m => m.orgId == orgId && m.role == .owner).length

/-- `select role from memberships where user_id = %s and org_id = %s`. -/
def memberRole? (userId orgId : Uuid) (db : Db) : Option Role :=
  (db.memberships.find? fun m => m.userId == userId && m.orgId == orgId).map (·.role)

/-- `update memberships set role = %s where user_id = %s and org_id = %s`. -/
def updateRole (userId orgId : Uuid) (role : Role) (db : Db) : Db :=
  { db with
    memberships := updateWhere (fun m => m.userId == userId && m.orgId == orgId)
      (fun m => { m with role := role }) db.memberships }

/-- `delete from memberships where user_id = %s and org_id = %s`. -/
def deleteMembership (userId orgId : Uuid) (db : Db) : Db :=
  { db with
    memberships := deleteWhere (fun m => m.userId == userId && m.orgId == orgId) db.memberships }

/-- What `set_member_role` checks before its transaction. -/
def setMemberRoleGate (userId : Uuid) (role : Role) : Except Err Unit := do
  requireCanGrant ctx role
  if userId = ctx.userId then .error (.forbidden "you cannot change your own role") else .ok ()

/-- The transaction of `set_member_role`. -/
def setMemberRoleTx (userId : Uuid) (role : Role) : Tx Db Err Unit := fun db =>
  match memberRole? userId ctx.orgId db with
  | none => .error (.notFound s!"member not found: {userId}")
  | some target =>
    if target = .owner ∧ role ≠ .owner ∧ ownerCount ctx.orgId db = 1 then
      .error (.forbidden "the org must keep at least one owner")
    else .ok ((), updateRole userId ctx.orgId role db)

/-- `set_member_role`. -/
def setMemberRole (userId : Uuid) (role : Role) : Scope Unit := do
  gate (setMemberRoleGate ctx userId role)
  Proc.transact (setMemberRoleTx ctx userId role)

/-- What `remove_member` checks before its transaction. -/
def removeMemberGate (userId : Uuid) : Except Err Unit := do
  requireRole ctx .admin
  if userId = ctx.userId then .error (.forbidden "you cannot remove yourself") else .ok ()

/-- The transaction of `remove_member`. -/
def removeMemberTx (userId : Uuid) : Tx Db Err Unit := fun db =>
  match memberRole? userId ctx.orgId db with
  | none => .error (.notFound s!"member not found: {userId}")
  | some target =>
    if target = .owner ∧ ownerCount ctx.orgId db = 1 then
      .error (.forbidden "cannot remove the last owner")
    else .ok ((), purgeStrandedUsers [userId] (deleteMembership userId ctx.orgId db))

/-- `remove_member`. -/
def removeMember (userId : Uuid) : Scope Unit := do
  gate (removeMemberGate ctx userId)
  Proc.transact (removeMemberTx ctx userId)

/-- `main.add_member`, its audit entry apart. -/
def addMemberRoute (email password : String) (role : Role) (salt : String) (fresh : Uuid) (now : Time) :
    Scope Uuid := do
  gate (requireCanGrant ctx role)
  Proc.transact (addMember env ctx.orgId email password role salt fresh now)

/-! ## Documents -/

/-- `select count(*) as docs, coalesce(sum(octet_length(content)), 0) as bytes ...`. -/
def storageUsed (orgId : Uuid) (db : Db) : Nat × Nat :=
  let live := db.documents.filter
    (rls orgId Document.orgId fun d => d.orgId == orgId && d.status != .deleted)
  (live.length, (live.map fun d => d.content.utf8ByteSize).sum)

/-- `check_caps` of `sync_source`. -/
def checkCaps (orgId : Uuid) (items : List Item) (db : Db) : Except Err Unit :=
  let incomingBytes := (items.map fun i => i.content.utf8ByteSize).sum
  let (docs, bytes) := storageUsed orgId db
  if env.settings.orgStorageBytesCap < bytes + incomingBytes then
    .error (.quotaExceeded "org storage cap exceeded")
  else if env.settings.orgDocCap < docs + items.length then
    .error (.quotaExceeded "org document cap exceeded")
  else .ok ()

/-- `sync_source`. -/
def syncSource (source : String) (items : List Item) (fresh : Uuid) (now : Time) : Scope SyncResult := do
  gate (requireRole ctx .admin)
  syncDocuments env (checkCaps env ctx.orgId items) ctx.orgId source items fresh now

/-- `count_documents`. -/
def countDocuments : Scope Nat :=
  Proc.read fun db =>
    (db.documents.filter (rls ctx.orgId Document.orgId fun d => d.orgId == ctx.orgId)).length

/-- A row of `list_documents`. -/
structure DocumentRow where
  id : Uuid
  path : String
  source : String
  status : DocStatus
  contentHash : String
  piiTypes : List String
  acl : List String
  updatedAt : Time
  chunkCount : Nat
  deriving DecidableEq

/-- `list_documents`. -/
def listDocuments (limit : Nat := 100) (offset : Nat := 0) : Scope (List DocumentRow) :=
  Proc.read fun db => page limit offset (orderBy (fun a b => env.collate a.path b.path)
    ((db.documents.filter (rls ctx.orgId Document.orgId fun d => d.orgId == ctx.orgId)).map fun d =>
      { id := d.id, path := d.path, source := d.source, status := d.status, contentHash := d.contentHash
        piiTypes := d.piiTypes, acl := d.acl, updatedAt := d.updatedAt
        chunkCount := (db.chunks.filter
          (rls ctx.orgId Chunk.orgId fun c => c.documentId == d.id)).length }))

/-- The jsonb operator `?|`: whether the array contains one of the strings. -/
def anyOf (acl principals : List String) : Bool := principals.any fun p => acl.contains p

/-- The `select` of `principals`. -/
def principalsOf (db : Db) : List String :=
  let groups := db.groupMembers.filter fun m => m.userId == ctx.userId &&
    db.groups.any (rls ctx.orgId Group.orgId fun g => g.id == m.groupId && g.orgId == ctx.orgId)
  ["public-to-org", s!"user:{ctx.userId}"] ++ groups.map fun m => s!"group:{m.groupId}"

/-- `principals`. -/
def principals : Scope (List String) := Proc.read (principalsOf ctx)

/-- What `get_document` returns. -/
structure DocumentText where
  id : Uuid
  path : String
  status : DocStatus
  updatedAt : Time
  content : String
  chunkCount : Nat
  deriving DecidableEq

/-- The `select` of `get_document`: the document joined with its chunks the principals may see, one
group per document. -/
def visibleDocument (principals : List String) (documentId : Uuid) (db : Db) : Option DocumentText :=
  let doc := db.documents.find? (rls ctx.orgId Document.orgId fun d =>
    d.id == documentId && d.orgId == ctx.orgId && d.status == .ingested)
  doc.bind fun d =>
    let chunks := db.chunks.filter
      (rls ctx.orgId Chunk.orgId fun c => c.documentId == d.id && anyOf c.acl principals)
    if chunks.isEmpty then none
    else
      let content := "\n".intercalate
        ((orderBy (fun a b => decide (a.ordinal ≤ b.ordinal)) chunks).map (·.text))
      some ⟨d.id, d.path, d.status, d.updatedAt, content, chunks.length⟩

/-- `get_document`. -/
def getDocument (documentId : Uuid) : Scope DocumentText := do
  let ps ← principals ctx
  match ← Proc.read (visibleDocument ctx ps documentId) with
  | none => Proc.raise (.notFound s!"document not found: {documentId}")
  | some d => return d

/-- The transaction of `delete_document`. -/
def deleteDocumentTx (documentId : Uuid) : Tx Db Err Unit := fun db =>
  let target := rls ctx.orgId Document.orgId fun d => d.id == documentId && d.orgId == ctx.orgId
  if db.documents.any target then .ok ((), db.deleteDocuments target)
  else .error (.notFound s!"document not found: {documentId}")

/-- `delete_document`. -/
def deleteDocument (documentId : Uuid) : Scope Unit := do
  gate (requireRole ctx .admin)
  Proc.transact (deleteDocumentTx ctx documentId)

/-- The re-permissioned version of a document's row. -/
def Document.setAcl (acl : List String) (now : Time) (d : Document) : Document :=
  { d with acl, updatedAt := now }

/-- The transaction of `update_document_acl`: the document, then the copies on its chunks. -/
def updateDocumentAclTx (documentId : Uuid) (acl : List String) (now : Time) : Tx Db Err Unit := fun db =>
  let target := rls ctx.orgId Document.orgId fun d => d.id == documentId && d.orgId == ctx.orgId
  if db.documents.any target then
    .ok ((), { db with
      documents := updateWhere target (·.setAcl acl now) db.documents
      chunks := updateWhere
        (rls ctx.orgId Chunk.orgId fun c => c.documentId == documentId && c.orgId == ctx.orgId)
        (fun c => { c with acl }) db.chunks })
  else .error (.notFound s!"document not found: {documentId}")

/-- `update_document_acl`. -/
def updateDocumentAcl (documentId : Uuid) (acl : List String) (now : Time) : Scope Unit := do
  gate (requireRole ctx .admin)
  Proc.transact (updateDocumentAclTx ctx documentId acl now)

/-! ## Members' listing and the export -/

/-- `count_members`. -/
def countMembers : Scope Nat :=
  Proc.read fun db => (db.memberships.filter fun m => m.orgId == ctx.orgId).length

/-- A row of `list_members`. -/
structure MemberRow where
  id : Uuid
  email : String
  role : Role
  createdAt : Time
  deriving DecidableEq

/-- `list_members`. -/
def listMembers (limit : Nat := 100) (offset : Nat := 0) : Scope (List MemberRow) :=
  Proc.read fun db => page limit offset (orderBy (fun a b => env.collate a.email b.email)
    ((db.memberships.filter fun m => m.orgId == ctx.orgId).filterMap fun m =>
      (db.users.find? fun u => u.id == m.userId).map fun u => ⟨u.id, u.email, m.role, m.createdAt⟩))

/-- `_SWEEP_PAGE`. -/
def SWEEP_PAGE : Nat := 500

/-- `_sweep`: page by page until a short page. The fuel bounds the number of pages. -/
def sweep {α : Type} (fetch : Nat → Nat → Scope (List α)) : Nat → List α → Scope (List α)
  | 0, rows => return rows
  | fuel + 1, rows => do
    let page ← fetch SWEEP_PAGE rows.length
    if page.length < SWEEP_PAGE then return rows ++ page
    else sweep fetch fuel (rows ++ page)

/-- What `export` returns. -/
structure Export where
  members : List MemberRow
  documents : List DocumentRow
  deriving DecidableEq

/-- `export`. Every page but the last has a row, so a page per row and one more are enough. -/
def exportOrg : Scope Export := do
  gate (requireRole ctx .admin)
  let members ← sweep (fun limit offset => listMembers env ctx limit offset) ((← countMembers ctx) + 1) []
  let documents ← sweep (fun limit offset => listDocuments env ctx limit offset)
    ((← countDocuments ctx) + 1) []
  return { members, documents }

/-! ## Retrieval -/

/-- What `retrieval_stats` returns. -/
structure RetrievalStats where
  orgChunks : Nat
  allowedChunks : Nat
  deriving DecidableEq

/-- The ingested chunks of the org that satisfy `p`, each with its document. -/
def ingestedChunks (p : Chunk → Bool) (db : Db) : List (Chunk × Document) :=
  (db.chunks.filter (rls ctx.orgId Chunk.orgId fun c => c.orgId == ctx.orgId && p c)).flatMap fun c =>
    (db.documents.filter (rls ctx.orgId Document.orgId fun d =>
      d.id == c.documentId && d.status == .ingested)).map fun d => (c, d)

/-- `retrieval_stats`. -/
def retrievalStats : Scope RetrievalStats := do
  let ps ← principals ctx
  Proc.read fun db =>
    ⟨(ingestedChunks ctx (fun _ => true) db).length,
      (ingestedChunks ctx (fun c => anyOf c.acl ps) db).length⟩

/-- A retrieved passage. -/
structure Context where
  documentId : Uuid
  ordinal : Nat
  text : String
  path : String
  distance : ℚ
  deriving DecidableEq

/-- The `select` of `search`. -/
def nearestVisible (principals : List String) (vec : Embedding) (k : Nat) (db : Db) : List Context :=
  ((orderBy (fun a b => decide (a.distance ≤ b.distance))
    ((ingestedChunks ctx (fun c => anyOf c.acl principals) db).map fun r =>
      { documentId := r.1.documentId, ordinal := r.1.ordinal, text := r.1.text, path := r.2.path
        distance := env.distance r.1.embedding vec })).take k)

/-- `search`. -/
def search (queryEmbedding : Embedding) (k : Nat := 5) : Scope (List Context) := do
  let ps ← principals ctx
  Proc.read (nearestVisible env ctx ps queryEmbedding k)

/-! ## Answers and feedback -/

/-- The transaction of `record_answer`. -/
def recordAnswerTx (question provider : String) (refused : Bool) (fresh : Uuid) (now : Time) :
    Tx Db Err Uuid := fun db => do
  Db.references (db.hasOrg ctx.orgId && db.hasUser ctx.userId)
  let answer : Answer := {
    id := fresh, orgId := ctx.orgId, userId := ctx.userId, question, provider, refused, createdAt := now
    inputTokens := 0, outputTokens := 0, costUsd := 0, blocked := false, usageEstimated := false }
  .ok (fresh, { db with answers := db.answers ++ [answer] })

/-- `record_answer`. -/
def recordAnswer (question provider : String) (refused : Bool) (fresh : Uuid) (now : Time) : Scope Uuid :=
  Proc.transact (recordAnswerTx ctx question provider refused fresh now)

/-- `current_date` of an instant. -/
def dayOf (t : Time) : Int := t / seconds 86400

/-- `insert into platform_spend ... on conflict (day) do update`. -/
def addPlatformSpend (day : Int) (cost : ℚ≥0) (spend : List PlatformSpend) : List PlatformSpend :=
  if spend.any fun s => s.day == day then
    updateWhere (fun s => s.day == day) (fun s => { s with costUsd := env.addDouble s.costUsd cost }) spend
  else spend ++ [⟨day, cost⟩]

/-- What `finalize_answer` records. -/
structure Usage where
  inputTokens : Nat
  outputTokens : Nat
  costUsd : ℚ≥0
  deriving DecidableEq

/-- The finalized version of an answer's row. -/
def Answer.finalize (usage : Usage) (estimated : Bool) (a : Answer) : Answer :=
  { a with
    inputTokens := usage.inputTokens, outputTokens := usage.outputTokens, costUsd := usage.costUsd
    usageEstimated := estimated }

/-- The transaction of `finalize_answer`. -/
def finalizeAnswerTx (answerId : Uuid) (usage : Usage) (estimated : Bool) (now : Time) : Tx Db Err Unit :=
  fun db => .ok ((), { db with
    answers := updateWhere (rls ctx.orgId Answer.orgId fun a => a.id == answerId && a.orgId == ctx.orgId)
      (·.finalize usage estimated) db.answers
    platformSpend := addPlatformSpend env (dayOf now) usage.costUsd db.platformSpend })

/-- `finalize_answer`. -/
def finalizeAnswer (answerId : Uuid) (usage : Usage) (estimated : Bool) (now : Time) : Scope Unit :=
  Proc.transact (finalizeAnswerTx env ctx answerId usage estimated now)

/-- The transaction of `mark_blocked`. -/
def markBlockedTx (answerId : Uuid) : Tx Db Err Unit := fun db =>
  .ok ((), { db with
    answers := updateWhere (rls ctx.orgId Answer.orgId fun a => a.id == answerId && a.orgId == ctx.orgId)
      (fun a => { a with blocked := true }) db.answers })

/-- `mark_blocked`. -/
def markBlocked (answerId : Uuid) : Scope Unit := Proc.transact (markBlockedTx ctx answerId)

/-- The sum of `spend_last_24h`. -/
def spendSince (orgId : Uuid) (now : Time) (db : Db) : ℚ≥0 :=
  ((db.answers.filter (rls orgId Answer.orgId fun a =>
    a.orgId == orgId && now - seconds 86400 < a.createdAt)).map (·.costUsd)).sum

/-- `spend_last_24h`. -/
def spendLast24h (now : Time) : Scope ℚ≥0 := Proc.read (spendSince ctx.orgId now)

/-- The sum of `platform_spend_today`. -/
def platformSpendOn (now : Time) (db : Db) : ℚ≥0 :=
  ((db.platformSpend.find? fun s => s.day == dayOf now).map (·.costUsd)).getD 0

/-- `platform_spend_today`. -/
def platformSpendToday (now : Time) : Scope ℚ≥0 := Proc.read (platformSpendOn now)

/-- `date_trunc('month', now())`. -/
def dateTruncMonth (t : Time) : Time := Calendar.monthStart (dayOf t) * seconds 86400

/-- The answers of the month. -/
def monthAnswers (orgId : Uuid) (now : Time) (db : Db) : List Answer :=
  db.answers.filter (rls orgId Answer.orgId fun a =>
    a.orgId == orgId && dateTruncMonth now ≤ a.createdAt)

/-- `questions_this_month`. -/
def questionsThisMonth (now : Time) : Scope Nat :=
  Proc.read fun db => (monthAnswers ctx.orgId now db).length

/-- What `storage_usage` returns. -/
structure StorageUsage where
  docs : Nat
  bytes : Nat
  deriving DecidableEq

/-- `storage_usage`. -/
def storageUsage : Scope StorageUsage :=
  Proc.read fun db => ⟨(storageUsed ctx.orgId db).1, (storageUsed ctx.orgId db).2⟩

/-- `count_audit`. -/
def countAudit : Scope Nat := do
  gate (requireRole ctx .admin)
  Proc.read fun db =>
    (db.auditLog.filter (rls ctx.orgId AuditRow.orgId fun a => a.orgId == ctx.orgId)).length

/-- A row of `list_audit`. -/
structure AuditView where
  action : String
  detail : List (String × DetailValue)
  createdAt : Time
  actor : Option String
  deriving DecidableEq

/-- `list_audit`. -/
def listAudit (limit : Nat := 100) (offset : Nat := 0) : Scope (List AuditView) := do
  gate (requireRole ctx .admin)
  Proc.read fun db => page limit offset (orderBy (fun a b => decide (b.createdAt ≤ a.createdAt))
    ((db.auditLog.filter (rls ctx.orgId AuditRow.orgId fun a => a.orgId == ctx.orgId)).map fun a =>
      { action := a.action, detail := a.detail, createdAt := a.createdAt
        actor := a.actorUserId.bind fun id =>
          (db.users.find? fun u => u.id == id).map (·.email) }))

/-- A row of `top_queries`. -/
structure QueryCount where
  question : String
  count : Nat
  deriving DecidableEq

/-- `order by count desc, question`. -/
def queryOrder (a b : QueryCount) : Bool :=
  b.count < a.count || (a.count == b.count && env.collate a.question b.question)

/-- `top_queries`. -/
def topQueries (now : Time) (limit : Nat := 5) : Scope (List QueryCount) :=
  Proc.read fun db =>
    let questions := (monthAnswers ctx.orgId now db).map (·.question)
    (orderBy (queryOrder env) (questions.dedup.map fun q => ⟨q, questions.count q⟩)).take limit

/-- `round(x, 6)`: to the nearest multiple of a millionth, halfway to the even one. -/
def round6 (x : ℚ≥0) : ℚ≥0 :=
  let n := x.num * 1000000 / x.den
  let r := x.num * 1000000 % x.den
  .divNat (if 2 * r < x.den ∨ (2 * r = x.den ∧ n % 2 = 0) then n else n + 1) 1000000

/-- What `usage_summary` returns. -/
structure UsageSummary where
  questionsUsed : Nat
  questionsCap : Nat
  usedUsd : ℚ≥0
  budgetUsd : ℚ≥0
  storage : StorageUsage
  docCap : Nat
  byteCap : Nat
  topQueries : List QueryCount
  deriving DecidableEq

/-- `usage_summary`. -/
def usageSummary (now : Time) : Scope UsageSummary := do
  gate (requireRole ctx .admin)
  let storage ← storageUsage ctx
  let questionsUsed ← questionsThisMonth ctx now
  let spend ← spendLast24h ctx now
  let topQueries ← topQueries env ctx now
  return {
    questionsUsed, questionsCap := env.settings.monthlyQuestionCap, usedUsd := round6 spend
    budgetUsd := env.settings.dailyBudgetUsd, storage, docCap := env.settings.orgDocCap
    byteCap := env.settings.orgStorageBytesCap, topQueries }

/-- The transaction of `add_feedback`. -/
def addFeedbackTx (answerId : Uuid) (rating : Rating) (note : Option String) : Tx Db Err Unit := fun db =>
  if db.answers.any (rls ctx.orgId Answer.orgId fun a => a.id == answerId && a.orgId == ctx.orgId) then
    if db.feedback.any fun f => f.answerId == answerId && f.userId == ctx.userId then
      .error (.conflict "feedback already recorded for this answer")
    else do
      Db.references (db.hasOrg ctx.orgId && db.hasUser ctx.userId)
      .ok ((), { db with
        feedback := db.feedback ++ [⟨ctx.orgId, ctx.userId, answerId, rating, note⟩] })
  else .error (.notFound s!"answer not found: {answerId}")

/-- `add_feedback`. -/
def addFeedback (answerId : Uuid) (rating : Rating) (note : Option String) : Scope Unit :=
  Proc.transact (addFeedbackTx ctx answerId rating note)

/-! ## The audit log -/

/-- The transaction of `audit.log`. -/
def auditTx (orgId : Uuid) (actorUserId : Option Uuid) (action : String)
    (detail : List (String × DetailValue)) (now : Time) : Tx Db Err Unit := fun db => do
  Db.references (db.hasOrg orgId && actorUserId.all fun u => db.hasUser u)
  let row : AuditRow := ⟨orgId, actorUserId, action, Pii.redactDetail env detail, now⟩
  .ok ((), { db with auditLog := db.auditLog ++ [row] })

/-- `audit.log`: best effort, so a failed write is dropped. -/
def auditLog (orgId : Uuid) (actorUserId : Option Uuid) (action : String)
    (detail : List (String × DetailValue)) (now : Time) : Scope Unit :=
  Proc.tryExcept (Proc.transact (auditTx env orgId actorUserId action detail now))
    fun _ => some (Proc.ok ())

end KnowledgeDesk
