import KnowledgeDesk.Lib.TwoRuns
import KnowledgeDesk.ScopeMethods
import KnowledgeDesk.Proofs.ServiceProofs

/-!
# Tenant isolation: what a method can tell

Every query of a method reads the rows of the caller's org only: by its own condition, or because of the
constraints between the tables. So two databases with the same rows of that org give the method the same
outcome.
-/

open Table

namespace KnowledgeDesk.Proofs

open Proc

variable {env : Env} {ctx : AuthContext}

/-- What holds of the database a request under `ctx` finds. -/
def Serving (ctx : AuthContext) (db : Db) : Prop :=
  ∃ n, Tenants n db ∧ DocsInv n db ∧ Issued n db ctx

theorem serving_of_reachable {s : Service} (hs : Service.Reachable env s) (hctx : ctx ∈ s.issued) :
    Serving ctx s.db := by
  have h := serviceInv_of_reachable hs
  exact ⟨s.nextId, h.tenants, h.pipeline.docs, h.issued ctx hctx⟩

/-- Two databases that a request under `ctx` is not meant to tell apart. -/
structure Twins (ctx : AuthContext) (db₁ db₂ : Db) : Prop where
  left : Serving ctx db₁
  right : Serving ctx db₂
  rows : orgRows ctx.orgId db₁ = orgRows ctx.orgId db₂

/-! ## Single databases: whom the rows of an org name -/

section Serving

variable {n : Nat} {db : Db}

theorem hasOrg_iff (h : Tenants n db) {orgId : Uuid} :
    db.hasOrg orgId = true ↔ ∃ m ∈ db.memberships, m.orgId = orgId := by
  constructor
  · intro ho
    obtain ⟨o, ho, he⟩ := List.any_eq_true.1 ho
    obtain ⟨m, hm, hmo, -⟩ := h.accounts.owned o ho
    exact ⟨m, hm, hmo.trans (by simpa using he)⟩
  · rintro ⟨m, hm, rfl⟩
    exact h.accounts.orgs m hm

theorem Serving.hasUser_iff (h : Serving ctx db) :
    db.hasUser ctx.userId = true ↔ isMember ctx.userId ctx.orgId db = true := by
  obtain ⟨n, ht, -, hi⟩ := h
  refine ⟨hi.2, fun hm => ?_⟩
  obtain ⟨m, hm, hu, -⟩ := member_iff.1 hm
  exact hu ▸ ht.accounts.user m hm

/-- Who is in a group is a member of the group's org. -/
theorem groupMember_member (h : Tenants n db) {m : GroupMember} (hm : m ∈ db.groupMembers) {g : Group}
    (hg : g ∈ db.groups) (he : g.id = m.groupId) : Member db m.userId g.orgId := by
  obtain ⟨g', hg', he', hq⟩ := h.groups.members m hm
  rwa [Table.eq_of_key h.groups.ids hg hg' (he.trans he'.symm)]

end Serving

namespace Twins

variable {db₁ db₂ : Db} (h : Twins ctx db₁ db₂)
include h

/-! ## Accounts -/

theorem memberships : (db₁.memberships.filter fun m => m.orgId == ctx.orgId) =
    db₂.memberships.filter fun m => m.orgId == ctx.orgId :=
  congrArg OrgRows.memberships h.rows

theorem isMember_eq (userId : Uuid) : isMember userId ctx.orgId db₁ = isMember userId ctx.orgId db₂ :=
  any_eq h.memberships (by simp) (by simp)

theorem memberRole?_eq (userId : Uuid) :
    memberRole? userId ctx.orgId db₁ = memberRole? userId ctx.orgId db₂ := by
  simp only [memberRole?]
  rw [find?_eq h.memberships (by simp) (by simp)]

theorem ownerCount_eq : ownerCount ctx.orgId db₁ = ownerCount ctx.orgId db₂ := by
  simp only [ownerCount]
  rw [filter_eq h.memberships (by simp +contextual) (by simp +contextual)]

theorem users : (db₁.users.filter fun u => isMember u.id ctx.orgId db₁) =
    db₂.users.filter fun u => isMember u.id ctx.orgId db₂ :=
  congrArg OrgRows.users h.rows

/-- The row of a member is the same. -/
theorem user?_eq {userId : Uuid} (hm : isMember userId ctx.orgId db₁ = true) :
    (db₁.users.find? fun u => u.id == userId) = db₂.users.find? fun u => u.id == userId := by
  refine find?_eq h.users (fun u _ he => ?_) fun u _ he => ?_
  · rwa [eq_of_beq he]
  · rwa [eq_of_beq he, ← h.isMember_eq]

theorem memberByEmail_eq (email : String) :
    memberByEmail ctx email db₁ = memberByEmail ctx email db₂ := by
  have hand : ∀ db : Db, (db.users.find? fun u => u.email == email && isMember u.id ctx.orgId db) =
      (db.users.filter fun u => isMember u.id ctx.orgId db).find? fun u => u.email == email := by
    intro db
    rw [List.find?_filter]
    congr 1
    funext u
    by_cases hu : u.email = email <;> simp [hu]
  simp only [memberByEmail]
  rw [hand, hand, h.users]

theorem hasOrg_eq : db₁.hasOrg ctx.orgId = db₂.hasOrg ctx.orgId := by
  obtain ⟨n₁, ht₁, -, -⟩ := h.left
  obtain ⟨n₂, ht₂, -, -⟩ := h.right
  have hany : ∀ {n : Nat} {db : Db}, Tenants n db →
      db.hasOrg ctx.orgId = db.memberships.any fun m => m.orgId == ctx.orgId := by
    intro n db ht
    rw [Bool.eq_iff_iff, hasOrg_iff ht]
    simp
  rw [hany ht₁, hany ht₂]
  exact any_eq h.memberships (by simp) (by simp)

theorem hasUser_eq : db₁.hasUser ctx.userId = db₂.hasUser ctx.userId := by
  rw [Bool.eq_iff_iff, h.left.hasUser_iff, h.right.hasUser_iff, h.isMember_eq]

/-! ## Groups -/

theorem groups : (db₁.groups.filter fun g => g.orgId == ctx.orgId) =
    db₂.groups.filter fun g => g.orgId == ctx.orgId :=
  congrArg OrgRows.groups h.rows

theorem group?_eq (groupId : Uuid) : group? ctx groupId db₁ = group? ctx groupId db₂ :=
  find?_eq h.groups (by simp +contextual [rls]) (by simp +contextual [rls])

theorem groupMembers :
    (db₁.groupMembers.filter fun m => db₁.groups.any fun g => g.id == m.groupId && g.orgId == ctx.orgId) =
      db₂.groupMembers.filter fun m => db₂.groups.any fun g => g.id == m.groupId && g.orgId == ctx.orgId :=
  congrArg OrgRows.groupMembers h.rows

/-- The members of a group of the org. -/
theorem groupMembers_eq {groupId : Uuid} {g : Group} (hg : group? ctx groupId db₁ = some g) :
    (db₁.groupMembers.filter fun m => m.groupId == groupId) =
      db₂.groupMembers.filter fun m => m.groupId == groupId := by
  have hof : ∀ {db : Db}, group? ctx groupId db = some g → ∀ m ∈ db.groupMembers,
      (m.groupId == groupId) = true →
        (db.groups.any fun g => g.id == m.groupId && g.orgId == ctx.orgId) = true := by
    intro db hg m _ he
    have hp := List.find?_some hg
    simp only [rls, Bool.and_eq_true, beq_iff_eq] at hp
    rw [List.any_eq_true]
    exact ⟨g, List.mem_of_find?_eq_some hg, by simp [hp.1, hp.2.1, eq_of_beq he]⟩
  exact filter_eq h.groupMembers (hof hg) (hof (h.group?_eq groupId ▸ hg))

theorem principalsOf_eq : principalsOf ctx db₁ = principalsOf ctx db₂ := by
  have hfilter : ∀ db : Db, (db.groupMembers.filter fun m => m.userId == ctx.userId &&
        db.groups.any (rls ctx.orgId Group.orgId fun g => g.id == m.groupId && g.orgId == ctx.orgId)) =
      (db.groupMembers.filter fun m => db.groups.any fun g =>
        g.id == m.groupId && g.orgId == ctx.orgId).filter fun m => m.userId == ctx.userId := by
    intro db
    rw [List.filter_filter]
    refine List.filter_congr fun m _ => ?_
    congr 2
    funext g
    cases hg : g.orgId == ctx.orgId <;> simp [rls, hg]
  simp only [principalsOf]
  rw [hfilter, hfilter, h.groupMembers]

/-! ## Documents -/

theorem documents : (db₁.documents.filter fun d => d.orgId == ctx.orgId) =
    db₂.documents.filter fun d => d.orgId == ctx.orgId :=
  congrArg OrgRows.documents h.rows

theorem chunks : (db₁.chunks.filter fun c => c.orgId == ctx.orgId) =
    db₂.chunks.filter fun c => c.orgId == ctx.orgId :=
  congrArg OrgRows.chunks h.rows

theorem documents_eq (p : Document → Bool) :
    db₁.documents.filter (rls ctx.orgId Document.orgId p) =
      db₂.documents.filter (rls ctx.orgId Document.orgId p) :=
  filter_eq h.documents (by simp +contextual [rls]) (by simp +contextual [rls])

theorem chunks_eq (p : Chunk → Bool) : db₁.chunks.filter (rls ctx.orgId Chunk.orgId p) =
    db₂.chunks.filter (rls ctx.orgId Chunk.orgId p) :=
  filter_eq h.chunks (by simp +contextual [rls]) (by simp +contextual [rls])

theorem anyDocument_eq (p : Document → Bool) : db₁.documents.any (rls ctx.orgId Document.orgId p) =
    db₂.documents.any (rls ctx.orgId Document.orgId p) :=
  any_eq h.documents (by simp +contextual [rls]) (by simp +contextual [rls])

theorem storageUsed_eq : storageUsed ctx.orgId db₁ = storageUsed ctx.orgId db₂ := by
  simp only [storageUsed]
  rw [h.documents_eq]

theorem visibleDocument_eq (principals : List String) (documentId : Uuid) :
    visibleDocument ctx principals documentId db₁ = visibleDocument ctx principals documentId db₂ := by
  simp only [visibleDocument]
  rw [find?_eq h.documents (by simp +contextual [rls]) (by simp +contextual [rls])]
  refine congrArg _ (funext fun d => ?_)
  rw [h.chunks_eq]

theorem ingestedChunks_eq (p : Chunk → Bool) : ingestedChunks ctx p db₁ = ingestedChunks ctx p db₂ := by
  simp only [ingestedChunks]
  rw [h.chunks_eq]
  simp only [h.documents_eq]

/-! ## Answers, feedback and the audit log -/

theorem answers : (db₁.answers.filter fun a => a.orgId == ctx.orgId) =
    db₂.answers.filter fun a => a.orgId == ctx.orgId :=
  congrArg OrgRows.answers h.rows

theorem answers_eq (p : Answer → Bool) : db₁.answers.filter (rls ctx.orgId Answer.orgId p) =
    db₂.answers.filter (rls ctx.orgId Answer.orgId p) :=
  filter_eq h.answers (by simp +contextual [rls]) (by simp +contextual [rls])

theorem feedback : (db₁.feedback.filter fun f => f.orgId == ctx.orgId) =
    db₂.feedback.filter fun f => f.orgId == ctx.orgId :=
  congrArg OrgRows.feedback h.rows

theorem auditLog : (db₁.auditLog.filter fun a => a.orgId == ctx.orgId) =
    db₂.auditLog.filter fun a => a.orgId == ctx.orgId :=
  congrArg OrgRows.auditLog h.rows

end Twins

/-! ## Transactions: the same commit or abort -/

section Transactions

variable {db₁ db₂ : Db} (h : Twins ctx db₁ db₂)
include h

theorem createGroupTx_fst (name : String) (fresh : Uuid) (now : Time) :
    (createGroupTx ctx name fresh now db₁).map Prod.fst =
      (createGroupTx ctx name fresh now db₂).map Prod.fst := by
  have hany : (db₁.groups.any fun g => g.orgId == ctx.orgId && g.name == name) =
      db₂.groups.any fun g => g.orgId == ctx.orgId && g.name == name :=
    any_eq h.groups (by simp +contextual) (by simp +contextual)
  simp only [createGroupTx, hany, h.hasOrg_eq]
  split
  · rfl
  · cases db₂.hasOrg ctx.orgId <;> rfl

omit h in
/-- With the group checked, the foreign keys of the insert hold. -/
theorem addGroupMemberTx_fst {db : Db} (hs : Serving ctx db) {groupId : Uuid} {g : Group}
    (hg : group? ctx groupId db = some g) (userId : Uuid) :
    (addGroupMemberTx ctx groupId userId db).map Prod.fst =
      if isMember userId ctx.orgId db then .ok ()
      else .error (.notFound s!"user is not a member of this org: {userId}") := by
  obtain ⟨n, ht, -, -⟩ := hs
  unfold addGroupMemberTx
  by_cases hm : isMember userId ctx.orgId db = true
  · have hgroup : db.hasGroup groupId = true := by
      have hp := List.find?_some hg
      simp only [rls, Bool.and_eq_true, beq_iff_eq] at hp
      exact List.any_eq_true.2 ⟨g, List.mem_of_find?_eq_some hg, by simp [hp.2.1]⟩
    have huser : db.hasUser userId = true := by
      obtain ⟨m, hmem, hu, -⟩ := member_iff.1 hm
      exact hu ▸ ht.accounts.user m hmem
    rw [if_pos hm, if_pos hm, hgroup, huser]
    split <;> rfl
  · rw [if_neg hm, if_neg hm]
    rfl

theorem deleteGroupTx_fst (groupId : Uuid) :
    (deleteGroupTx ctx groupId db₁).map Prod.fst = (deleteGroupTx ctx groupId db₂).map Prod.fst := by
  simp only [deleteGroupTx, h.group?_eq]
  split <;> rfl

theorem setMemberRoleTx_fst (userId : Uuid) (role : Role) :
    (setMemberRoleTx ctx userId role db₁).map Prod.fst =
      (setMemberRoleTx ctx userId role db₂).map Prod.fst := by
  simp only [setMemberRoleTx, h.memberRole?_eq, h.ownerCount_eq]
  split
  · rfl
  · split <;> rfl

theorem removeMemberTx_fst (userId : Uuid) :
    (removeMemberTx ctx userId db₁).map Prod.fst = (removeMemberTx ctx userId db₂).map Prod.fst := by
  simp only [removeMemberTx, h.memberRole?_eq, h.ownerCount_eq]
  split
  · rfl
  · split <;> rfl

theorem deleteDocumentTx_fst (documentId : Uuid) :
    (deleteDocumentTx ctx documentId db₁).map Prod.fst =
      (deleteDocumentTx ctx documentId db₂).map Prod.fst := by
  simp only [deleteDocumentTx, h.anyDocument_eq]
  split <;> rfl

theorem updateDocumentAclTx_fst (documentId : Uuid) (acl : List String) (now : Time) :
    (updateDocumentAclTx ctx documentId acl now db₁).map Prod.fst =
      (updateDocumentAclTx ctx documentId acl now db₂).map Prod.fst := by
  simp only [updateDocumentAclTx, h.anyDocument_eq]
  split <;> rfl

theorem recordAnswerTx_fst (question provider : String) (refused : Bool) (fresh : Uuid) (now : Time) :
    (recordAnswerTx ctx question provider refused fresh now db₁).map Prod.fst =
      (recordAnswerTx ctx question provider refused fresh now db₂).map Prod.fst := by
  simp only [recordAnswerTx, h.hasOrg_eq, h.hasUser_eq]
  cases db₂.hasOrg ctx.orgId && db₂.hasUser ctx.userId <;> rfl

omit h in
/-- Feedback on an answer of the org is feedback in the org. -/
theorem feedback_org {db : Db} (hs : Serving ctx db) {answerId : Uuid}
    (ha : db.answers.any (rls ctx.orgId Answer.orgId fun a => a.id == answerId && a.orgId == ctx.orgId) =
      true) {f : Feedback} (hf : f ∈ db.feedback) (he : f.answerId = answerId) : f.orgId = ctx.orgId := by
  obtain ⟨n, ht, -, -⟩ := hs
  obtain ⟨a, ham, hp⟩ := List.any_eq_true.1 ha
  simp only [rls, Bool.and_eq_true, beq_iff_eq] at hp
  obtain ⟨a', ha', hid, horg⟩ := ht.ledger.rated f hf
  have hsame : a' = a := Table.eq_of_key ht.ledger.ids ha' ham (hid.trans (he.trans hp.2.1.symm))
  rw [← horg, hsame, hp.1]

theorem addFeedbackTx_fst (answerId : Uuid) (rating : Rating) (note : Option String) :
    (addFeedbackTx ctx answerId rating note db₁).map Prod.fst =
      (addFeedbackTx ctx answerId rating note db₂).map Prod.fst := by
  have hany : db₁.answers.any (rls ctx.orgId Answer.orgId fun a => a.id == answerId && a.orgId == ctx.orgId) =
      db₂.answers.any (rls ctx.orgId Answer.orgId fun a => a.id == answerId && a.orgId == ctx.orgId) :=
    any_eq h.answers (by simp +contextual [rls]) (by simp +contextual [rls])
  unfold addFeedbackTx
  by_cases ha : db₁.answers.any
      (rls ctx.orgId Answer.orgId fun a => a.id == answerId && a.orgId == ctx.orgId) = true
  · have ha₂ := hany.symm.trans ha
    have hgiven : (db₁.feedback.any fun f => f.answerId == answerId && f.userId == ctx.userId) =
        db₂.feedback.any fun f => f.answerId == answerId && f.userId == ctx.userId := by
      refine any_eq h.feedback (fun f hf hp => ?_) fun f hf hp => ?_
      · rw [Bool.and_eq_true, beq_iff_eq] at hp
        exact beq_iff_eq.2 (feedback_org h.left ha hf hp.1)
      · rw [Bool.and_eq_true, beq_iff_eq] at hp
        exact beq_iff_eq.2 (feedback_org h.right ha₂ hf hp.1)
    rw [if_pos ha, if_pos ha₂, hgiven, h.hasOrg_eq, h.hasUser_eq]
    split
    · rfl
    · cases db₂.hasOrg ctx.orgId && db₂.hasUser ctx.userId <;> rfl
  · have ha₂ := hany ▸ ha
    rw [if_neg ha, if_neg ha₂]

end Transactions

/-! ## The upload

The loop over the items runs on two databases side by side: what it counts, and the jobs it collects,
depend on the documents of the org and on whether the org exists. -/

/-- What the loop has done on two databases. -/
structure SyncTwins (orgId : Uuid) (acc₁ acc₂ : SyncAcc) : Prop where
  unchanged : acc₁.unchanged = acc₂.unchanged
  toEnqueue : acc₁.toEnqueue = acc₂.toEnqueue
  documents : (acc₁.db.documents.filter fun d => d.orgId == orgId) =
    acc₂.db.documents.filter fun d => d.orgId == orgId
  hasOrg : acc₁.db.hasOrg orgId = acc₂.db.hasOrg orgId

/-- Two outcomes are related when they are the same error, or results that `R` relates. -/
def SameOutcome {α : Type} (R : α → α → Prop) : Except Err α → Except Err α → Prop
  | .ok a, .ok b => R a b
  | .error e, .error e' => e = e'
  | _, _ => False

theorem upsertDocument_twins {orgId : Uuid} (row : Document) (horg : row.orgId = orgId) {db₁ db₂ : Db}
    (hd : (db₁.documents.filter fun d => d.orgId == orgId) =
      db₂.documents.filter fun d => d.orgId == orgId)
    (hh : db₁.hasOrg orgId = db₂.hasOrg orgId) :
    SameOutcome (fun r₁ r₂ => r₁.1 = r₂.1 ∧
        (r₁.2.documents.filter fun d => d.orgId == orgId) =
          (r₂.2.documents.filter fun d => d.orgId == orgId) ∧
        r₁.2.hasOrg orgId = r₂.2.hasOrg orgId)
      (upsertDocument row db₁) (upsertDocument row db₂) := by
  have hkey : ∀ {db : Db}, ∀ d ∈ db.documents, (d.key == row.key) = true → (d.orgId == orgId) = true := by
    intro db d _ he
    have : d.orgId = row.orgId := congrArg (·.1) (eq_of_beq he)
    rw [this, horg, beq_self_eq_true]
  have hfind := find?_eq hd hkey hkey
  unfold upsertDocument
  rw [hfind]
  cases db₂.documents.find? fun d => d.key == row.key with
  | some d =>
    refine ⟨rfl, ?_, hh⟩
    have hkeep : ∀ d : Document, ((row.uploadOver d).orgId == orgId) = (d.orgId == orgId) := fun _ => rfl
    show ((updateWhere _ _ db₁.documents).filter _) = ((updateWhere _ _ db₂.documents).filter _)
    rw [filter_updateWhere hkeep, filter_updateWhere hkeep, hd]
  | none =>
    rw [horg, hh]
    cases db₂.hasOrg orgId with
    | false => rfl
    | true =>
      refine ⟨rfl, ?_, hh⟩
      show ((db₁.documents ++ [row]).filter _) = ((db₂.documents ++ [row]).filter _)
      rw [List.filter_append, List.filter_append, hd]

theorem syncItem_twins (env : Env) {orgId : Uuid} (source : String) (existing : List Document) (now : Time)
    {acc₁ acc₂ : SyncAcc} (h : SyncTwins orgId acc₁ acc₂) (item : Item × Uuid) :
    SameOutcome (SyncTwins orgId) (syncItem env orgId source existing now acc₁ item)
      (syncItem env orgId source existing now acc₂ item) := by
  unfold syncItem
  by_cases hu : isUnchanged env existing item.1 = true
  · rw [if_pos hu, if_pos hu]
    exact ⟨congrArg (· + 1) h.unchanged, h.toEnqueue, h.documents, h.hasOrg⟩
  · rw [if_neg hu, if_neg hu]
    have hup := upsertDocument_twins (item.1.row env orgId source now item.2) rfl h.documents h.hasOrg
    dsimp only
    revert hup
    cases upsertDocument (item.1.row env orgId source now item.2) acc₁.db with
    | error e =>
      cases upsertDocument (item.1.row env orgId source now item.2) acc₂.db with
      | error e' => exact fun he => he
      | ok r => exact fun he => he.elim
    | ok r₁ =>
      cases upsertDocument (item.1.row env orgId source now item.2) acc₂.db with
      | error e' => exact fun he => he.elim
      | ok r₂ =>
        rintro ⟨hid, hd, hh⟩
        refine ⟨h.unchanged, ?_, hd, hh⟩
        have hid₁ : r₁.1.1 = r₂.1.1 := congrArg (·.1) hid
        have hid₂ : r₁.1.2 = r₂.1.2 := congrArg (·.2) hid
        show acc₁.toEnqueue ++ _ = acc₂.toEnqueue ++ _
        rw [h.toEnqueue, hid₁, hid₂]

theorem syncItems_twins (env : Env) {orgId : Uuid} (source : String) (existing : List Document) (now : Time)
    (items : List (Item × Uuid)) {acc₁ acc₂ : SyncAcc} (h : SyncTwins orgId acc₁ acc₂) :
    SameOutcome (SyncTwins orgId) (items.foldlM (syncItem env orgId source existing now) acc₁)
      (items.foldlM (syncItem env orgId source existing now) acc₂) := by
  induction items generalizing acc₁ acc₂ with
  | nil => exact h
  | cons item items ih =>
    have hitem := syncItem_twins env source existing now h item
    rw [List.foldlM_cons, List.foldlM_cons]
    revert hitem
    cases syncItem env orgId source existing now acc₁ item with
    | error e =>
      cases syncItem env orgId source existing now acc₂ item with
      | error e' => exact fun he => he
      | ok a => exact fun he => he.elim
    | ok a₁ =>
      cases syncItem env orgId source existing now acc₂ item with
      | error e' => exact fun he => he.elim
      | ok a₂ => exact fun ha => ih ha

theorem syncTx_apply (precheck : Db → Except Err Unit) (orgId : Uuid) (source : String) (items : List Item)
    (fresh : Uuid) (now : Time) (db : Db) :
    syncTx env precheck orgId source items fresh now db = match precheck db with
      | .error e => .error e
      | .ok () => match (items.zipIdx fresh).foldlM
            (syncItem env orgId source (sourceDocuments orgId source db) now) ⟨db, 0, []⟩ with
        | .error e => .error e
        | .ok acc =>
          let gone := missing (sourceDocuments orgId source db) items
          .ok ((⟨acc.toEnqueue.length, acc.unchanged, gone.length⟩, acc.toEnqueue),
            gone.foldl (tombstone orgId now) acc.db) := by
  unfold syncTx
  cases precheck db with
  | error e => rfl
  | ok u =>
    show Except.bind ((items.zipIdx fresh).foldlM _ _) _ = _
    cases (items.zipIdx fresh).foldlM
      (syncItem env orgId source (sourceDocuments orgId source db) now) ⟨db, 0, []⟩ <;> rfl

theorem syncTx_fst (env : Env) {db₁ db₂ : Db} (h : Twins ctx db₁ db₂) (source : String) (items : List Item)
    (fresh : Uuid) (now : Time) :
    (syncTx env (checkCaps env ctx.orgId items) ctx.orgId source items fresh now db₁).map Prod.fst =
      (syncTx env (checkCaps env ctx.orgId items) ctx.orgId source items fresh now db₂).map Prod.fst := by
  have hsource : sourceDocuments ctx.orgId source db₁ = sourceDocuments ctx.orgId source db₂ :=
    h.documents_eq _
  have hcaps : checkCaps env ctx.orgId items db₁ = checkCaps env ctx.orgId items db₂ := by
    unfold checkCaps
    rw [h.storageUsed_eq]
  have hstart : SyncTwins ctx.orgId ⟨db₁, 0, []⟩ ⟨db₂, 0, []⟩ := ⟨rfl, rfl, h.documents, h.hasOrg_eq⟩
  have hloop := syncItems_twins env source (sourceDocuments ctx.orgId source db₂) now
    (items.zipIdx fresh) hstart
  rw [syncTx_apply, syncTx_apply, hcaps, hsource]
  cases checkCaps env ctx.orgId items db₂ with
  | error e => rfl
  | ok u =>
    dsimp only
    revert hloop
    cases (items.zipIdx fresh).foldlM
        (syncItem env ctx.orgId source (sourceDocuments ctx.orgId source db₂) now) ⟨db₁, 0, []⟩ with
    | error e =>
      cases (items.zipIdx fresh).foldlM
          (syncItem env ctx.orgId source (sourceDocuments ctx.orgId source db₂) now) ⟨db₂, 0, []⟩ with
      | error e' => exact fun he => congrArg Except.error he
      | ok a => exact fun he => he.elim
    | ok a₁ =>
      cases (items.zipIdx fresh).foldlM
          (syncItem env ctx.orgId source (sourceDocuments ctx.orgId source db₂) now) ⟨db₂, 0, []⟩ with
      | error e' => exact fun he => he.elim
      | ok a₂ =>
        intro ha
        have ha' : SyncTwins ctx.orgId a₁ a₂ := ha
        simp only [Except.map, ha'.unchanged, ha'.toEnqueue]

/-- A document to enqueue a job for is of an org that exists. -/
structure Enqueueable (orgId : Uuid) (acc : SyncAcc) : Prop where
  rows : ∀ doc ∈ acc.db.documents, doc.orgId = orgId → acc.db.hasOrg orgId = true
  jobs : acc.toEnqueue = [] ∨ acc.db.hasOrg orgId = true
  orgs : ∀ job ∈ acc.toEnqueue, job.orgId = orgId

theorem syncItem_enqueueable {orgId : Uuid} {source : String} {existing : List Document} {now : Time}
    {acc acc' : SyncAcc} {item : Item × Uuid} (h : Enqueueable orgId acc)
    (hok : syncItem env orgId source existing now acc item = .ok acc') : Enqueueable orgId acc' := by
  unfold syncItem at hok
  split at hok
  · obtain rfl := Except.ok.inj hok
    exact ⟨h.rows, h.jobs, h.orgs⟩
  · dsimp only at hok
    split at hok
    · cases hok
    · rename_i id revision db' hup
      obtain rfl := Except.ok.inj hok
      have horg : db'.hasOrg orgId = true := by
        rcases upsertDocument_cases hup with ⟨d, hd, hkey, -, -, rfl⟩ | ⟨-, -, -, horg, rfl⟩
        · exact h.rows d hd (congrArg (·.1) hkey)
        · exact horg
      refine ⟨fun _ _ _ => horg, .inr horg, fun job hj => ?_⟩
      rcases List.mem_append.1 hj with hj | hj
      · exact h.orgs job hj
      · rw [List.mem_singleton.1 hj]

theorem syncItems_enqueueable {orgId : Uuid} {source : String} {existing : List Document} {now : Time}
    (items : List (Item × Uuid)) {acc acc' : SyncAcc} (h : Enqueueable orgId acc)
    (hok : items.foldlM (syncItem env orgId source existing now) acc = .ok acc') :
    Enqueueable orgId acc' := by
  induction items generalizing acc with
  | nil =>
    obtain rfl := Except.ok.inj hok
    exact h
  | cons item items ih =>
    rw [List.foldlM_cons] at hok
    cases hitem : syncItem env orgId source existing now acc item with
    | error e =>
      rw [hitem] at hok
      cases hok
    | ok a =>
      rw [hitem] at hok
      exact ih (syncItem_enqueueable h hitem) hok

/-- The tombstones are not the orgs' business. -/
theorem tombstones_hasOrg (orgId : Uuid) (now : Time) (gone : List Document) (db : Db) (org : Uuid) :
    (gone.foldl (tombstone orgId now) db).hasOrg org = db.hasOrg org := by
  induction gone generalizing db with
  | nil => rfl
  | cons row gone ih => exact ih _

theorem syncTx_enqueueable {orgId : Uuid} {n : Nat} {db db' : Db} (ht : Tenants n db)
    {precheck : Db → Except Err Unit} {source : String} {items : List Item} {fresh : Uuid} {now : Time}
    {result : SyncResult} {toEnqueue : List PendingJob}
    (hok : syncTx env precheck orgId source items fresh now db = .ok ((result, toEnqueue), db')) :
    (toEnqueue = [] ∨ db'.hasOrg orgId = true) ∧ ∀ job ∈ toEnqueue, job.orgId = orgId := by
  rw [syncTx_apply] at hok
  split at hok
  · cases hok
  · split at hok
    · cases hok
    · rename_i acc hfold
      have hstart : Enqueueable orgId ⟨db, 0, []⟩ :=
        ⟨fun doc hdoc he => he ▸ ht.documents doc hdoc, .inl rfl, fun _ hj => absurd hj List.not_mem_nil⟩
      have hend := syncItems_enqueueable _ hstart hfold
      obtain ⟨hpair, rfl⟩ := Prod.mk.inj (Except.ok.inj hok)
      obtain ⟨-, rfl⟩ := Prod.mk.inj hpair
      rw [tombstones_hasOrg]
      exact ⟨hend.jobs, hend.orgs⟩

/-- Enqueuing jobs of an org that exists does not fail. -/
theorem enqueues_ok {orgId : Uuid} {now : Time} (jobs : List (PendingJob × Uuid)) {db : Db}
    (horg : db.hasOrg orgId = true) (hjobs : ∀ job ∈ jobs, job.1.orgId = orgId) :
    (forEach jobs (fun job => transact fun db =>
      (enqueuePending env job.1 job.2 now db).map fun r => ((), r.2)) db).1 = .ok () := by
  induction jobs generalizing db with
  | nil => rfl
  | cons job jobs ih =>
    have hrest := fun j hj => hjobs j (List.mem_cons_of_mem job hj)
    obtain ⟨created, db', hok, horg'⟩ : ∃ created db', enqueuePending env job.1 job.2 now db =
        .ok (created, db') ∧ db'.hasOrg orgId = true := by
      unfold enqueuePending enqueue
      split
      · exact ⟨_, _, rfl, horg⟩
      · rw [hjobs job List.mem_cons_self, horg]
        exact ⟨_, _, rfl, horg⟩
    have htx : (enqueuePending env job.1 job.2 now db).map (fun r => ((), r.2)) = .ok ((), db') := by
      rw [hok]
      rfl
    rw [forEach_cons, bind_of_ok (transact_of_ok htx)]
    exact ih horg' hrest

theorem syncDocuments_fst {db : Db} (hs : Serving ctx db) (precheck : Db → Except Err Unit)
    (source : String) (items : List Item) (fresh : Uuid) (now : Time) :
    (syncDocuments env precheck ctx.orgId source items fresh now db).1 =
      (syncTx env precheck ctx.orgId source items fresh now db).map fun r => r.1.1 := by
  obtain ⟨n, ht, -, -⟩ := hs
  unfold syncDocuments
  cases hok : syncTx env precheck ctx.orgId source items fresh now db with
  | error e => rw [bind_of_error (transact_of_error hok)]; rfl
  | ok r =>
    obtain ⟨⟨result, toEnqueue⟩, db'⟩ := r
    obtain ⟨horg, hjobs⟩ := syncTx_enqueueable ht hok
    rw [bind_of_ok (transact_of_ok hok)]
    dsimp only
    have hall : (forEach (toEnqueue.zipIdx (fresh + items.length)) (fun job => transact fun db =>
        (enqueuePending env job.1 job.2 now db).map fun r => ((), r.2)) db').1 = .ok () := by
      rcases horg with rfl | horg
      · rfl
      · refine enqueues_ok _ horg fun job hj => ?_
        exact hjobs job.1 (List.fst_mem_of_mem_zipIdx hj)
    exact bind_pure_fst (fun _ => result) hall

/-! ## Methods -/

theorem respects_gate (g : Except Err Unit) : Respects (Twins ctx) (gate g) := by
  cases g with
  | ok u => exact Respects.pure ()
  | error e => exact Respects.raise e

theorem respects_getGroup (groupId : Uuid) : Respects (Twins ctx) (getGroup ctx groupId) := by
  refine Respects.bind (Respects.read fun _ _ h => h.group?_eq groupId) fun g => ?_
  cases g with
  | none => exact Respects.raise _
  | some g => exact Respects.pure g

/-- What follows `get_group` finds the group. -/
theorem agrees_getGroup_bind {α : Type} {groupId : Uuid} {k : Group → Scope α}
    (hk : ∀ db₁ db₂, Twins ctx db₁ db₂ → ∀ g, group? ctx groupId db₁ = some g →
      (k g db₁).1 = (k g db₂).1) : Agrees (Twins ctx) (getGroup ctx groupId >>= k) := by
  intro db₁ db₂ h
  have hsame := h.group?_eq groupId
  unfold getGroup
  rw [bind_apply, bind_apply, bind_apply, bind_apply, read_apply, read_apply, ← hsame]
  cases hg : group? ctx groupId db₁ with
  | none => rfl
  | some g => exact hk db₁ db₂ h g hg

theorem agrees_addGroupMember (groupId userId : Uuid) :
    Agrees (Twins ctx) (addGroupMember ctx groupId userId) := by
  refine (respects_gate _).bind_agrees fun _ => agrees_getGroup_bind fun db₁ db₂ h g hg => ?_
  refine Agrees.transact (R := fun a b => a = db₁ ∧ b = db₂) ?_ db₁ db₂ ⟨rfl, rfl⟩
  rintro _ _ ⟨rfl, rfl⟩
  rw [addGroupMemberTx_fst h.left hg, addGroupMemberTx_fst h.right (h.group?_eq groupId ▸ hg),
    h.isMember_eq]

theorem respects_listDocuments (limit offset : Nat) :
    Respects (Twins ctx) (listDocuments env ctx limit offset) := by
  refine Respects.read fun db₁ db₂ h => ?_
  have hcount : ∀ d : Document,
      (db₁.chunks.filter (rls ctx.orgId Chunk.orgId fun c => c.documentId == d.id)).length =
        (db₂.chunks.filter (rls ctx.orgId Chunk.orgId fun c => c.documentId == d.id)).length :=
    fun d => congrArg List.length (h.chunks_eq _)
  rw [h.documents_eq]
  simp only [hcount]

theorem respects_listMembers (limit offset : Nat) :
    Respects (Twins ctx) (listMembers env ctx limit offset) := by
  refine Respects.read fun db₁ db₂ h => ?_
  rw [← h.memberships]
  refine congrArg (fun l => page limit offset (orderBy _ l)) (List.filterMap_congr fun m hm => ?_)
  obtain ⟨hm, horg⟩ := List.mem_filter.1 hm
  have hmember : isMember m.userId ctx.orgId db₁ = true :=
    member_iff.2 ⟨m, hm, rfl, eq_of_beq horg⟩
  rw [h.user?_eq hmember]

theorem respects_listGroupMembers (groupId : Uuid) :
    Agrees (Twins ctx) (listGroupMembers env ctx groupId) := by
  refine agrees_getGroup_bind fun db₁ db₂ h g hg => ?_
  rw [read_apply, read_apply]
  refine congrArg (fun l => Except.ok (orderBy _ l)) ?_
  rw [← h.groupMembers_eq hg]
  refine List.filterMap_congr fun m hm => ?_
  obtain ⟨hm, he⟩ := List.mem_filter.1 hm
  obtain ⟨n, ht, -, -⟩ := h.left
  have hp := List.find?_some hg
  simp only [rls, Bool.and_eq_true, beq_iff_eq] at hp
  have hmember := groupMember_member ht hm (List.mem_of_find?_eq_some hg) (hp.2.1.trans (eq_of_beq he).symm)
  rw [hp.1] at hmember
  rw [h.user?_eq hmember]

/-- Paging through a listing. -/
theorem respects_sweep {α : Type} {R : Db → Db → Prop} {fetch : Nat → Nat → Scope (List α)}
    (hf : ∀ limit offset, Respects R (fetch limit offset)) (fuel : Nat) (rows : List α) :
    Respects R (sweep fetch fuel rows) := by
  induction fuel generalizing rows with
  | zero => exact Respects.pure rows
  | succ fuel ih =>
    refine Respects.bind (hf _ _) fun page => ?_
    show Respects R (if page.length < SWEEP_PAGE then _ else _)
    split
    · exact Respects.pure _
    · exact ih _

theorem respects_principals : Respects (Twins ctx) (principals ctx) :=
  Respects.read fun _ _ h => h.principalsOf_eq

theorem respects_countMembers : Respects (Twins ctx) (countMembers ctx) :=
  Respects.read fun _ _ h => congrArg List.length h.memberships

theorem respects_countDocuments : Respects (Twins ctx) (countDocuments ctx) :=
  Respects.read fun _ _ h => congrArg List.length (h.documents_eq _)

theorem respects_spendLast24h (now : Time) : Respects (Twins ctx) (spendLast24h ctx now) := by
  refine Respects.read fun db₁ db₂ h => ?_
  unfold spendSince
  rw [h.answers_eq]

theorem respects_questionsThisMonth (now : Time) :
    Respects (Twins ctx) (questionsThisMonth ctx now) :=
  Respects.read fun _ _ h => congrArg List.length (h.answers_eq _)

theorem respects_storageUsage : Respects (Twins ctx) (storageUsage ctx) := by
  refine Respects.read fun db₁ db₂ h => ?_
  rw [h.storageUsed_eq]

theorem respects_topQueries (now : Time) (limit : Nat) :
    Respects (Twins ctx) (topQueries env ctx now limit) := by
  refine Respects.read fun db₁ db₂ h => ?_
  have hmonth : monthAnswers ctx.orgId now db₁ = monthAnswers ctx.orgId now db₂ := h.answers_eq _
  rw [hmonth]

theorem respects_listAudit (limit offset : Nat) : Respects (Twins ctx) (listAudit ctx limit offset) := by
  refine Respects.bind (respects_gate _) fun _ => Respects.read fun db₁ db₂ h => ?_
  have hrows : db₁.auditLog.filter (rls ctx.orgId AuditRow.orgId fun a => a.orgId == ctx.orgId) =
      db₂.auditLog.filter (rls ctx.orgId AuditRow.orgId fun a => a.orgId == ctx.orgId) :=
    filter_eq h.auditLog (by simp +contextual [rls]) (by simp +contextual [rls])
  rw [← hrows]
  refine congrArg (fun l => page limit offset (orderBy _ l)) (List.map_congr_left fun a ha => ?_)
  obtain ⟨ham, hp⟩ := List.mem_filter.1 ha
  simp only [rls, Bool.and_eq_true, beq_iff_eq] at hp
  obtain ⟨n, ht, -, -⟩ := h.left
  cases hact : a.actorUserId with
  | none => rfl
  | some u =>
    have hmember : isMember u ctx.orgId db₁ = true := hp.1 ▸ ht.audit a ham u hact
    simp only [Option.bind_some, h.user?_eq hmember]

theorem agrees_syncSource (source : String) (items : List Item) (fresh : Uuid) (now : Time) :
    Agrees (Twins ctx) (syncSource env ctx source items fresh now) := by
  refine (respects_gate _).bind_agrees fun _ db₁ db₂ h => ?_
  rw [syncDocuments_fst h.left, syncDocuments_fst h.right]
  have hfst := congrArg (Except.map Prod.fst) (syncTx_fst env h source items fresh now)
  revert hfst
  cases syncTx env (checkCaps env ctx.orgId items) ctx.orgId source items fresh now db₁ <;>
    cases syncTx env (checkCaps env ctx.orgId items) ctx.orgId source items fresh now db₂ <;>
    exact fun hfst => hfst

/-- A method but `platform_spend_today` has the same outcome in two databases with the same rows of the
caller's org. -/
theorem agrees_method (method : ScopeMethod) (hp : ∀ now, method ≠ .platformSpendToday now) :
    Agrees (Twins ctx) (method.run env ctx) := by
  have htx : ∀ {α : Type} {g : Except Err Unit} {t : Tx Db Err α},
      (∀ db₁ db₂, Twins ctx db₁ db₂ → (t db₁).map Prod.fst = (t db₂).map Prod.fst) →
        Agrees (Twins ctx) (gate g >>= fun _ => transact t) :=
    fun ht => (respects_gate _).bind_agrees fun _ => Agrees.transact ht
  cases method with
  | requireRole minimum => exact (respects_gate _).agrees
  | requireCanGrant role => exact (respects_gate _).agrees
  | listGroups =>
    refine (Respects.read fun db₁ db₂ h => ?_).agrees
    rw [filter_eq h.groups (by simp +contextual [rls]) (by simp +contextual [rls])]
  | createGroup name fresh now => exact htx fun _ _ h => createGroupTx_fst h name fresh now
  | getGroup groupId => exact (respects_getGroup groupId).agrees
  | addGroupMemberByEmail groupId email =>
    refine (respects_gate _).bind_agrees fun _ => ?_
    refine Respects.bind_agrees (Respects.read fun _ _ h => h.memberByEmail_eq _) fun u => ?_
    cases u with
    | none => exact (Respects.raise _).agrees
    | some userId =>
      intro db₁ db₂ h
      have hadd := agrees_addGroupMember groupId userId db₁ db₂ h
      show ((addGroupMember ctx groupId userId >>= fun _ => pure userId) db₁).1 =
        ((addGroupMember ctx groupId userId >>= fun _ => pure userId) db₂).1
      rw [bind_apply, bind_apply]
      revert hadd
      rcases addGroupMember ctx groupId userId db₁ with ⟨r₁, t₁⟩
      rcases addGroupMember ctx groupId userId db₂ with ⟨r₂, t₂⟩
      rintro (rfl : r₁ = r₂)
      cases r₁ <;> rfl
  | addGroupMember groupId userId => exact agrees_addGroupMember groupId userId
  | removeGroupMember groupId userId =>
    refine (respects_gate _).bind_agrees fun _ => ?_
    exact (respects_getGroup groupId).bind_agrees fun _ => Agrees.transact fun _ _ _ => rfl
  | listGroupMembers groupId => exact respects_listGroupMembers groupId
  | deleteGroup groupId => exact htx fun _ _ h => deleteGroupTx_fst h groupId
  | setMemberRole userId role => exact htx fun _ _ h => setMemberRoleTx_fst h userId role
  | removeMember userId => exact htx fun _ _ h => removeMemberTx_fst h userId
  | syncSource source items fresh now => exact agrees_syncSource source items fresh now
  | countDocuments => exact respects_countDocuments.agrees
  | listDocuments limit offset => exact (respects_listDocuments limit offset).agrees
  | getDocument documentId =>
    refine (Respects.bind respects_principals fun ps => Respects.bind
      (Respects.read fun _ _ h => h.visibleDocument_eq ps documentId) fun d => ?_).agrees
    cases d with
    | none => exact Respects.raise _
    | some d => exact Respects.pure d
  | deleteDocument documentId => exact htx fun _ _ h => deleteDocumentTx_fst h documentId
  | updateDocumentAcl documentId acl now =>
    exact htx fun _ _ h => updateDocumentAclTx_fst h documentId acl now
  | exportOrg =>
    refine (Respects.bind (respects_gate _) fun _ => ?_).agrees
    refine Respects.bind respects_countMembers fun members => ?_
    refine Respects.bind (respects_sweep respects_listMembers _ _) fun rows => ?_
    refine Respects.bind respects_countDocuments fun documents => ?_
    exact Respects.bind (respects_sweep respects_listDocuments _ _) fun _ => Respects.pure _
  | principals => exact respects_principals.agrees
  | retrievalStats =>
    refine (Respects.bind respects_principals fun ps => Respects.read fun db₁ db₂ h => ?_).agrees
    rw [h.ingestedChunks_eq, h.ingestedChunks_eq]
  | search queryEmbedding k =>
    refine (Respects.bind respects_principals fun ps => Respects.read fun db₁ db₂ h => ?_).agrees
    unfold nearestVisible
    rw [h.ingestedChunks_eq]
  | recordAnswer question provider refused fresh now =>
    exact Agrees.transact fun _ _ h => recordAnswerTx_fst h question provider refused fresh now
  | finalizeAnswer answerId usage estimated now => exact Agrees.transact fun _ _ _ => rfl
  | markBlocked answerId => exact Agrees.transact fun _ _ _ => rfl
  | spendLast24h now => exact (respects_spendLast24h now).agrees
  | platformSpendToday now => exact absurd rfl (hp now)
  | questionsThisMonth now => exact (respects_questionsThisMonth now).agrees
  | storageUsage => exact respects_storageUsage.agrees
  | countAudit =>
    refine (Respects.bind (respects_gate _) fun _ => Respects.read fun db₁ db₂ h => ?_).agrees
    rw [filter_eq h.auditLog (by simp +contextual [rls]) (by simp +contextual [rls])]
  | listAudit limit offset => exact (respects_listAudit limit offset).agrees
  | topQueries now limit => exact (respects_topQueries now limit).agrees
  | usageSummary now =>
    refine (Respects.bind (respects_gate _) fun _ => ?_).agrees
    refine Respects.bind respects_storageUsage fun storage => ?_
    refine Respects.bind (respects_questionsThisMonth now) fun used => ?_
    refine Respects.bind (respects_spendLast24h now) fun spend => ?_
    exact Respects.bind (respects_topQueries now 5) fun _ => Respects.pure _
  | addFeedback answerId rating note =>
    exact Agrees.transact fun _ _ h => addFeedbackTx_fst h answerId rating note
  | countMembers => exact respects_countMembers.agrees
  | listMembers limit offset => exact (respects_listMembers limit offset).agrees

end KnowledgeDesk.Proofs
