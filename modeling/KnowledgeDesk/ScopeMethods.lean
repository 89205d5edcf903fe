import KnowledgeDesk.Tenancy

/-!
# The methods of `TenantScope`, and the rows of an org

One constructor for each public method of the class, with its arguments, the time and the ids it draws;
and the rows that belong to an org, which is what its members' requests are meant to see and change.
-/

namespace KnowledgeDesk

/-- A call of a method of `TenantScope`. -/
inductive ScopeMethod where
  | requireRole (minimum : Role)
  | requireCanGrant (role : Role)
  | listGroups
  | createGroup (name : String) (fresh : Uuid) (now : Time)
  | getGroup (groupId : Uuid)
  | addGroupMemberByEmail (groupId : Uuid) (email : String)
  | addGroupMember (groupId userId : Uuid)
  | removeGroupMember (groupId userId : Uuid)
  | listGroupMembers (groupId : Uuid)
  | deleteGroup (groupId : Uuid)
  | setMemberRole (userId : Uuid) (role : Role)
  | removeMember (userId : Uuid)
  | syncSource (source : String) (items : List Item) (fresh : Uuid) (now : Time)
  | countDocuments
  | listDocuments (limit offset : Nat)
  | getDocument (documentId : Uuid)
  | deleteDocument (documentId : Uuid)
  | updateDocumentAcl (documentId : Uuid) (acl : List String) (now : Time)
  | exportOrg
  | principals
  | retrievalStats
  | search (queryEmbedding : Embedding) (k : Nat)
  | recordAnswer (question provider : String) (refused : Bool) (fresh : Uuid) (now : Time)
  | finalizeAnswer (answerId : Uuid) (usage : Usage) (estimated : Bool) (now : Time)
  | markBlocked (answerId : Uuid)
  | spendLast24h (now : Time)
  | platformSpendToday (now : Time)
  | questionsThisMonth (now : Time)
  | storageUsage
  | countAudit
  | listAudit (limit offset : Nat)
  | topQueries (now : Time) (limit : Nat)
  | usageSummary (now : Time)
  | addFeedback (answerId : Uuid) (rating : Rating) (note : Option String)
  | countMembers
  | listMembers (limit offset : Nat)

namespace ScopeMethod

/-- What a method returns. -/
def Ret : ScopeMethod → Type
  | .requireRole .. | .requireCanGrant .. | .addGroupMember .. | .removeGroupMember .. | .deleteGroup ..
  | .setMemberRole .. | .removeMember .. | .deleteDocument .. | .updateDocumentAcl .. | .finalizeAnswer ..
  | .markBlocked .. | .addFeedback .. => Unit
  | .listGroups => List Group
  | .createGroup .. | .getGroup .. => Group
  | .addGroupMemberByEmail .. | .recordAnswer .. => Uuid
  | .listGroupMembers .. => List GroupMemberRow
  | .syncSource .. => SyncResult
  | .countDocuments | .questionsThisMonth .. | .countAudit | .countMembers => Nat
  | .listDocuments .. => List DocumentRow
  | .getDocument .. => DocumentText
  | .exportOrg => Export
  | .principals => List String
  | .retrievalStats => RetrievalStats
  | .search .. => List Context
  | .spendLast24h .. | .platformSpendToday .. => ℚ≥0
  | .storageUsage => StorageUsage
  | .listAudit .. => List AuditView
  | .topQueries .. => List QueryCount
  | .usageSummary .. => UsageSummary
  | .listMembers .. => List MemberRow

/-- The method under a context. -/
def run (env : Env) (ctx : AuthContext) : (method : ScopeMethod) → Scope method.Ret
  | .requireRole minimum => gate (KnowledgeDesk.requireRole ctx minimum)
  | .requireCanGrant role => gate (KnowledgeDesk.requireCanGrant ctx role)
  | .listGroups => KnowledgeDesk.listGroups env ctx
  | .createGroup name fresh now => KnowledgeDesk.createGroup ctx name fresh now
  | .getGroup groupId => KnowledgeDesk.getGroup ctx groupId
  | .addGroupMemberByEmail groupId email => KnowledgeDesk.addGroupMemberByEmail env ctx groupId email
  | .addGroupMember groupId userId => KnowledgeDesk.addGroupMember ctx groupId userId
  | .removeGroupMember groupId userId => KnowledgeDesk.removeGroupMember ctx groupId userId
  | .listGroupMembers groupId => KnowledgeDesk.listGroupMembers env ctx groupId
  | .deleteGroup groupId => KnowledgeDesk.deleteGroup ctx groupId
  | .setMemberRole userId role => KnowledgeDesk.setMemberRole ctx userId role
  | .removeMember userId => KnowledgeDesk.removeMember ctx userId
  | .syncSource source items fresh now => KnowledgeDesk.syncSource env ctx source items fresh now
  | .countDocuments => KnowledgeDesk.countDocuments ctx
  | .listDocuments limit offset => KnowledgeDesk.listDocuments env ctx limit offset
  | .getDocument documentId => KnowledgeDesk.getDocument ctx documentId
  | .deleteDocument documentId => KnowledgeDesk.deleteDocument ctx documentId
  | .updateDocumentAcl documentId acl now => KnowledgeDesk.updateDocumentAcl ctx documentId acl now
  | .exportOrg => KnowledgeDesk.exportOrg env ctx
  | .principals => KnowledgeDesk.principals ctx
  | .retrievalStats => KnowledgeDesk.retrievalStats ctx
  | .search queryEmbedding k => KnowledgeDesk.search env ctx queryEmbedding k
  | .recordAnswer question provider refused fresh now =>
    KnowledgeDesk.recordAnswer ctx question provider refused fresh now
  | .finalizeAnswer answerId usage estimated now =>
    KnowledgeDesk.finalizeAnswer env ctx answerId usage estimated now
  | .markBlocked answerId => KnowledgeDesk.markBlocked ctx answerId
  | .spendLast24h now => KnowledgeDesk.spendLast24h ctx now
  | .platformSpendToday now => KnowledgeDesk.platformSpendToday now
  | .questionsThisMonth now => KnowledgeDesk.questionsThisMonth ctx now
  | .storageUsage => KnowledgeDesk.storageUsage ctx
  | .countAudit => KnowledgeDesk.countAudit ctx
  | .listAudit limit offset => KnowledgeDesk.listAudit ctx limit offset
  | .topQueries now limit => KnowledgeDesk.topQueries env ctx now limit
  | .usageSummary now => KnowledgeDesk.usageSummary env ctx now
  | .addFeedback answerId rating note => KnowledgeDesk.addFeedback ctx answerId rating note
  | .countMembers => KnowledgeDesk.countMembers ctx
  | .listMembers limit offset => KnowledgeDesk.listMembers env ctx limit offset

end ScopeMethod

/-- The rows of an org. -/
structure OrgRows where
  memberships : List Membership
  users : List User
  groups : List Group
  groupMembers : List GroupMember
  documents : List Document
  chunks : List Chunk
  jobs : List Job
  answers : List Answer
  feedback : List Feedback
  auditLog : List AuditRow
  deriving DecidableEq

/-- The rows of an org: those with its id, the users with a membership of it, and the members of its
groups. -/
def orgRows (org : Uuid) (db : Db) : OrgRows where
  memberships := db.memberships.filter fun m => m.orgId == org
  users := db.users.filter fun u => isMember u.id org db
  groups := db.groups.filter fun g => g.orgId == org
  groupMembers := db.groupMembers.filter fun m => db.groups.any fun g => g.id == m.groupId && g.orgId == org
  documents := db.documents.filter fun d => d.orgId == org
  chunks := db.chunks.filter fun c => c.orgId == org
  jobs := db.jobs.filter fun j => j.orgId == org
  answers := db.answers.filter fun a => a.orgId == org
  feedback := db.feedback.filter fun f => f.orgId == org
  auditLog := db.auditLog.filter fun a => a.orgId == org

end KnowledgeDesk
