import KnowledgeDesk.Proofs.IsolationProofs

/-!
# Tenant isolation: what a method changes

No method changes a row of another org than the caller's. A statement names the caller's org itself, or
the rows it reaches are of that org by the constraints between the tables; a user who is purged has no
rows in another org.
-/

open Table

namespace KnowledgeDesk.Proofs

open Proc

variable {env : Env} {ctx : AuthContext} {org : Uuid} {db db' : Db}

/-! ## Groups -/

theorem orgRows_createGroup {name : String} {fresh : Uuid} {now : Time} {g : Group}
    (hne : org ≠ ctx.orgId) (htx : createGroupTx ctx name fresh now db = .ok (g, db')) :
    orgRows org db' = orgRows org db := by
  obtain ⟨rfl, rfl⟩ := createGroupTx_ok htx
  have hno : (ctx.orgId == org) = false := beq_false_of_ne (Ne.symm hne)
  unfold orgRows
  congr 1
  · rw [List.filter_append]
    simp [hno]
  · refine List.filter_congr fun m _ => ?_
    rw [List.any_append]
    simp [hno]

theorem orgRows_addGroupMember {groupId userId : Uuid} {u : Unit} (hne : org ≠ ctx.orgId)
    (hcheck : ∀ g ∈ db.groups, g.id = groupId → g.orgId = ctx.orgId)
    (htx : addGroupMemberTx ctx groupId userId db = .ok (u, db')) : orgRows org db' = orgRows org db := by
  obtain ⟨-, rfl | ⟨-, rfl⟩⟩ := addGroupMemberTx_ok htx
  · rfl
  · have hno : (db.groups.any fun g => g.id == groupId && g.orgId == org) = false := by
      rw [List.any_eq_false]
      intro g hg hp
      rw [Bool.and_eq_true, beq_iff_eq, beq_iff_eq] at hp
      exact hne (hp.2.symm.trans (hcheck g hg hp.1))
    unfold orgRows
    congr 1
    rw [List.filter_append]
    simp [hno]

/-- Deleting members of groups of the caller's org. -/
theorem orgRows_removeGroupMember {groupId userId : Uuid} {u : Unit} (hne : org ≠ ctx.orgId)
    (hcheck : ∀ g ∈ db.groups, g.id = groupId → g.orgId = ctx.orgId)
    (htx : removeGroupMemberTx groupId userId db = .ok (u, db')) : orgRows org db' = orgRows org db := by
  obtain rfl := (Prod.mk.inj (Except.ok.inj htx)).2
  unfold orgRows
  congr 1
  refine filter_deleteWhere_of_disjoint fun m _ hp => ?_
  rw [Bool.and_eq_true, beq_iff_eq] at hp
  rw [List.any_eq_false]
  intro g hg hq
  rw [Bool.and_eq_true, beq_iff_eq, beq_iff_eq] at hq
  exact hne (hq.2.symm.trans (hcheck g hg (hq.1.trans hp.1)))

theorem orgRows_deleteGroup {n : Nat} (h : Tenants n db) {groupId : Uuid} {u : Unit}
    (hne : org ≠ ctx.orgId) (htx : deleteGroupTx ctx groupId db = .ok (u, db')) :
    orgRows org db' = orgRows org db := by
  obtain rfl := deleteGroupTx_ok htx
  set target := rls ctx.orgId Group.orgId fun g => g.id == groupId && g.orgId == ctx.orgId with htarget
  have horg : ∀ g, target g = true → g.orgId = ctx.orgId := by
    intro g hg
    rw [htarget] at hg
    simp only [rls, Bool.and_eq_true, beq_iff_eq] at hg
    exact hg.1
  have hkept : ∀ id, (deleteWhere target db.groups).any (fun g => g.id == id && g.orgId == org) =
      db.groups.any fun g => g.id == id && g.orgId == org := by
    intro id
    rw [Bool.eq_iff_iff, List.any_eq_true, List.any_eq_true]
    constructor
    · rintro ⟨g, hg, hp⟩
      exact ⟨g, (mem_deleteWhere.1 hg).1, hp⟩
    · rintro ⟨g, hg, hp⟩
      refine ⟨g, mem_deleteWhere.2 ⟨hg, Bool.eq_false_iff.2 fun ht => ?_⟩, hp⟩
      rw [Bool.and_eq_true, beq_iff_eq, beq_iff_eq] at hp
      exact hne (hp.2.symm.trans (horg g ht))
  unfold orgRows Db.deleteGroups
  congr 1
  · refine filter_deleteWhere_of_disjoint fun g _ hp => ?_
    rw [horg g hp]
    exact beq_false_of_ne (Ne.symm hne)
  · simp only [hkept]
    refine filter_deleteWhere_of_disjoint fun m _ hp => ?_
    obtain ⟨g, hg, hp⟩ := List.any_eq_true.1 hp
    rw [Bool.and_eq_true, beq_iff_eq] at hp
    rw [List.any_eq_false]
    intro g' hg' hq
    rw [Bool.and_eq_true, beq_iff_eq, beq_iff_eq] at hq
    have hsame : g' = g := Table.eq_of_key h.groups.ids hg' hg (hq.1.trans hp.2.symm)
    rw [hsame] at hq
    exact hne (hq.2.symm.trans (horg g hp.1))

/-! ## Members -/

/-- The members of an org are read from its memberships. -/
theorem isMember_congr (hm : (db'.memberships.filter fun m => m.orgId == org) =
    db.memberships.filter fun m => m.orgId == org) (userId : Uuid) :
    isMember userId org db' = isMember userId org db :=
  any_eq hm (by simp) (by simp)

theorem orgRows_setMemberRole {userId : Uuid} {role : Role} {u : Unit} (hne : org ≠ ctx.orgId)
    (htx : setMemberRoleTx ctx userId role db = .ok (u, db')) : orgRows org db' = orgRows org db := by
  obtain ⟨-, -, -, rfl⟩ := setMemberRoleTx_ok htx
  have hmemberships : ((updateRole userId ctx.orgId role db).memberships.filter fun m => m.orgId == org) =
      db.memberships.filter fun m => m.orgId == org := by
    have hother : ∀ m ∈ db.memberships, (m.userId == userId && m.orgId == ctx.orgId) = true →
        (m.orgId == org) = false := by
      intro m _ hp
      rw [Bool.and_eq_true, beq_iff_eq, beq_iff_eq] at hp
      rw [hp.2]
      exact beq_false_of_ne (Ne.symm hne)
    exact filter_updateWhere_of_disjoint hother hother
  have husers := isMember_congr hmemberships
  unfold orgRows
  congr 1
  simp only [husers]
  rfl

/-- Who is a member of another org is not stranded by losing a membership of this one. -/
theorem not_stranded_of_member {userId u : Uuid} (hne : org ≠ ctx.orgId) (hm : Member db u org) :
    ¬ Stranded [userId] (deleteMembership userId ctx.orgId db) u := by
  rintro ⟨-, -, hnone⟩
  obtain ⟨m, hmem, hu, ho⟩ := member_iff.1 hm
  refine hnone m (mem_deleteMembership.2 ⟨hmem, fun hc => ?_⟩) hu
  exact hne (ho.symm.trans hc.2)

theorem orgRows_removeMember {n : Nat} (h : Tenants n db) {userId : Uuid} {u : Unit}
    (hne : org ≠ ctx.orgId) (htx : removeMemberTx ctx userId db = .ok (u, db')) :
    orgRows org db' = orgRows org db := by
  obtain ⟨-, -, -, rfl⟩ := removeMemberTx_ok htx
  have hmemberships : ((deleteMembership userId ctx.orgId db).memberships.filter fun m => m.orgId == org) =
      db.memberships.filter fun m => m.orgId == org := by
    refine filter_deleteWhere_of_disjoint fun m _ hp => ?_
    rw [Bool.and_eq_true, beq_iff_eq, beq_iff_eq] at hp
    rw [hp.2]
    exact beq_false_of_ne (Ne.symm hne)
  -- a member of the other org is none of those who go
  have hgone : ∀ id, Member db id org → ((deleteMembership userId ctx.orgId db).users.any fun u =>
      isStranded [userId] (deleteMembership userId ctx.orgId db) u && u.id == id) = false :=
    fun id hm => gone_eq_false.2 (not_stranded_of_member hne hm)
  unfold orgRows
  congr 1
  · rw [purge_memberships]
    exact hmemberships
  · have hsame : ∀ id, isMember id org (purgeStrandedUsers [userId] (deleteMembership userId ctx.orgId db)) =
        isMember id org db := isMember_congr (by rw [purge_memberships]; exact hmemberships)
    simp only [hsame]
    refine filter_deleteWhere_of_disjoint fun v hv hs => ?_
    rw [Bool.eq_false_iff]
    intro hm
    have hin := hgone v.id hm
    rw [List.any_eq_false] at hin
    exact hin v hv (by rw [hs, beq_self_eq_true]; rfl)
  · refine filter_deleteWhere_of_disjoint fun m hm hs => ?_
    rw [Bool.eq_false_iff]
    intro hq
    obtain ⟨g, hg, hp⟩ := List.any_eq_true.1 hq
    rw [Bool.and_eq_true, beq_iff_eq, beq_iff_eq] at hp
    have hmember : Member db m.userId org := hp.2 ▸ groupMember_member h hm hg hp.1
    exact Bool.false_ne_true ((hgone m.userId hmember).symm.trans hs)
  · refine filter_deleteWhere_of_disjoint fun a ha hs => ?_
    rw [Bool.eq_false_iff]
    intro ho
    have hmember : Member db a.userId org := eq_of_beq ho ▸ h.ledger.askers a ha
    exact Bool.false_ne_true ((hgone a.userId hmember).symm.trans hs)
  · have hanswered : ∀ f ∈ db.feedback, (f.orgId == org) = true →
        ((deleteMembership userId ctx.orgId db).answers.any fun a =>
          ((deleteMembership userId ctx.orgId db).users.any fun u =>
            isStranded [userId] (deleteMembership userId ctx.orgId db) u && u.id == a.userId) &&
              a.id == f.answerId) = false := by
      intro f hf ho
      rw [List.any_eq_false]
      intro a ha hs
      rw [Bool.and_eq_true, beq_iff_eq] at hs
      obtain ⟨a', ha', hid, horg⟩ := h.ledger.rated f hf
      have hsame : a' = a := Table.eq_of_key h.ledger.ids ha' ha (hid.trans hs.2.symm)
      have hmember : Member db a.userId org := by
        rw [← eq_of_beq ho, ← horg, hsame]
        exact h.ledger.askers a ha
      exact Bool.false_ne_true ((hgone a.userId hmember).symm.trans hs.1)
    refine (filter_deleteWhere_of_disjoint fun f hf hs => ?_).trans
      (filter_deleteWhere_of_disjoint fun f hf hs => ?_)
    · rw [Bool.eq_false_iff]
      intro ho
      have hmember : Member db f.userId org := eq_of_beq ho ▸ h.ledger.raters f (mem_deleteWhere.1 hf).1
      exact Bool.false_ne_true ((hgone f.userId hmember).symm.trans hs)
    · rw [Bool.eq_false_iff]
      intro ho
      exact Bool.false_ne_true ((hanswered f hf ho).symm.trans hs)
  · have hother : ∀ r ∈ db.auditLog, (r.actorUserId.any fun id =>
        (deleteMembership userId ctx.orgId db).users.any fun u =>
          isStranded [userId] (deleteMembership userId ctx.orgId db) u && u.id == id) = true →
        (r.orgId == org) = false := by
      intro r hr hs
      rw [Bool.eq_false_iff]
      intro ho
      cases hact : r.actorUserId with
      | none => simp [hact] at hs
      | some id =>
        have hmember : Member db id org := eq_of_beq ho ▸ h.audit r hr id hact
        rw [hact, Option.any_some] at hs
        exact Bool.false_ne_true ((hgone id hmember).symm.trans hs)
    exact filter_updateWhere_of_disjoint hother hother

/-! ## Documents -/

section Upload

variable {orgId : Uuid} (hne : org ≠ orgId)
include hne

theorem orgRows_upsertDocument {row : Document} (horg : row.orgId = orgId) {r : Uuid × Nat}
    (hok : upsertDocument row db = .ok (r, db')) : orgRows org db' = orgRows org db := by
  have hno : (orgId == org) = false := beq_false_of_ne (Ne.symm hne)
  obtain ⟨id, revision⟩ := r
  rcases upsertDocument_cases hok with ⟨-, -, -, -, -, rfl⟩ | ⟨-, -, -, -, rfl⟩
  · have hother : ∀ d ∈ db.documents, (d.key == row.key) = true → (d.orgId == org) = false := by
      intro d _ hk
      have hd : d.orgId = row.orgId := congrArg (·.1) (eq_of_beq hk)
      rw [hd, horg, hno]
    unfold orgRows
    congr 1
    exact filter_updateWhere_of_disjoint hother hother
  · unfold orgRows
    congr 1
    rw [List.filter_append]
    simp [horg, hno]

theorem orgRows_syncItems {source : String} {existing : List Document} {now : Time}
    (items : List (Item × Uuid)) {acc acc' : SyncAcc}
    (hok : items.foldlM (syncItem env orgId source existing now) acc = .ok acc') :
    orgRows org acc'.db = orgRows org acc.db := by
  induction items generalizing acc with
  | nil =>
    obtain rfl := Except.ok.inj hok
    rfl
  | cons item items ih =>
    rw [List.foldlM_cons] at hok
    cases hitem : syncItem env orgId source existing now acc item with
    | error e =>
      rw [hitem] at hok
      cases hok
    | ok a =>
      rw [hitem] at hok
      rw [ih hok]
      unfold syncItem at hitem
      split at hitem
      · obtain rfl := Except.ok.inj hitem
        rfl
      · dsimp only at hitem
        split at hitem
        · cases hitem
        · rename_i hup
          obtain rfl := Except.ok.inj hitem
          exact orgRows_upsertDocument hne rfl hup

theorem orgRows_tombstone (now : Time) (row : Document) :
    orgRows org (tombstone orgId now db row) = orgRows org db := by
  have hno : (orgId == org) = false := beq_false_of_ne (Ne.symm hne)
  have hdocument : ∀ d ∈ db.documents, rls orgId Document.orgId (fun d => d.id == row.id) d = true →
      (d.orgId == org) = false := by
    intro d _ hp
    simp only [rls, Bool.and_eq_true, beq_iff_eq] at hp
    rw [hp.1, hno]
  unfold orgRows tombstone
  congr 1
  · exact filter_updateWhere_of_disjoint hdocument hdocument
  · refine filter_deleteWhere_of_disjoint fun c _ hp => ?_
    simp only [rls, Bool.and_eq_true, beq_iff_eq] at hp
    rw [hp.1, hno]

theorem orgRows_syncTx {precheck : Db → Except Err Unit} {source : String} {items : List Item}
    {fresh : Uuid} {now : Time} {r : SyncResult × List PendingJob}
    (hok : syncTx env precheck orgId source items fresh now db = .ok (r, db')) :
    orgRows org db' = orgRows org db := by
  rw [syncTx_apply] at hok
  split at hok
  · cases hok
  · split at hok
    · cases hok
    · rename_i acc hfold
      obtain ⟨-, rfl⟩ := Prod.mk.inj (Except.ok.inj hok)
      have hbury : ∀ (gone : List Document) (d : Db),
          orgRows org (gone.foldl (tombstone orgId now) d) = orgRows org d := by
        intro gone
        induction gone with
        | nil => exact fun _ => rfl
        | cons row gone ih => exact fun d => (ih _).trans (orgRows_tombstone hne now row)
      rw [hbury]
      exact orgRows_syncItems hne _ hfold

theorem orgRows_enqueuePending {job : PendingJob} (horg : job.orgId = orgId) {fresh : Uuid} {now : Time}
    {created : Bool} (hok : enqueuePending env job fresh now db = .ok (created, db')) :
    orgRows org db' = orgRows org db := by
  have hno : (orgId == org) = false := beq_false_of_ne (Ne.symm hne)
  rcases enqueuePending_cases hok with ⟨-, rfl⟩ | ⟨-, j, -, hj, -, -, -, -, rfl⟩
  · rfl
  · unfold orgRows
    congr 1
    rw [List.filter_append]
    simp [hj, horg, hno]

end Upload

theorem orgRows_deleteDocument {n : Nat} (h : DocsInv n db) {documentId : Uuid} {u : Unit}
    (hne : org ≠ ctx.orgId) (htx : deleteDocumentTx ctx documentId db = .ok (u, db')) :
    orgRows org db' = orgRows org db := by
  obtain rfl := deleteDocumentTx_ok htx
  have hno : (ctx.orgId == org) = false := beq_false_of_ne (Ne.symm hne)
  unfold orgRows Db.deleteDocuments
  congr 1
  · refine filter_deleteWhere_of_disjoint fun d _ hp => ?_
    simp only [rls, Bool.and_eq_true, beq_iff_eq] at hp
    rw [hp.1, hno]
  · refine filter_deleteWhere_of_disjoint fun c hc hp => ?_
    obtain ⟨d, hd, hp⟩ := List.any_eq_true.1 hp
    simp only [rls, Bool.and_eq_true, beq_iff_eq] at hp
    obtain ⟨d', hd', hid, horg⟩ := h.owner c hc
    have hsame : d' = d := h.eq_of_id hd' hd (hid.trans hp.2.symm)
    rw [← horg, hsame, hp.1.1, hno]

theorem orgRows_updateDocumentAcl {documentId : Uuid} {acl : List String} {now : Time} {u : Unit}
    (hne : org ≠ ctx.orgId) (htx : updateDocumentAclTx ctx documentId acl now db = .ok (u, db')) :
    orgRows org db' = orgRows org db := by
  obtain rfl := updateDocumentAclTx_ok htx
  have hno : (ctx.orgId == org) = false := beq_false_of_ne (Ne.symm hne)
  have hdocument : ∀ d ∈ db.documents, rls ctx.orgId Document.orgId
      (fun d => d.id == documentId && d.orgId == ctx.orgId) d = true → (d.orgId == org) = false := by
    intro d _ hp
    simp only [rls, Bool.and_eq_true, beq_iff_eq] at hp
    rw [hp.1, hno]
  have hchunk : ∀ c ∈ db.chunks, rls ctx.orgId Chunk.orgId
      (fun c => c.documentId == documentId && c.orgId == ctx.orgId) c = true → (c.orgId == org) = false := by
    intro c _ hp
    simp only [rls, Bool.and_eq_true, beq_iff_eq] at hp
    rw [hp.1, hno]
  unfold orgRows
  congr 1
  · exact filter_updateWhere_of_disjoint hdocument hdocument
  · exact filter_updateWhere_of_disjoint hchunk hchunk

/-! ## Answers and feedback -/

theorem orgRows_recordAnswer {question provider : String} {refused : Bool} {fresh id : Uuid} {now : Time}
    (hne : org ≠ ctx.orgId)
    (htx : recordAnswerTx ctx question provider refused fresh now db = .ok (id, db')) :
    orgRows org db' = orgRows org db := by
  obtain ⟨-, -, a, -, horg, -, -, -, -, rfl⟩ := recordAnswerTx_ok htx
  have hno : (ctx.orgId == org) = false := beq_false_of_ne (Ne.symm hne)
  unfold orgRows
  congr 1
  rw [List.filter_append]
  simp [horg, hno]

/-- `finalize_answer` and `mark_blocked`: an update of one answer of the caller's org. -/
theorem orgRows_updateAnswer {answerId : Uuid} {f : Answer → Answer} (hf : ∀ a, (f a).orgId = a.orgId)
    {spend : List PlatformSpend} (hne : org ≠ ctx.orgId) : orgRows org { db with
      answers := updateWhere
        (rls ctx.orgId Answer.orgId fun a => a.id == answerId && a.orgId == ctx.orgId) f db.answers
      platformSpend := spend } = orgRows org db := by
  have hother : ∀ a ∈ db.answers, rls ctx.orgId Answer.orgId
      (fun a => a.id == answerId && a.orgId == ctx.orgId) a = true → (a.orgId == org) = false := by
    intro a _ hp
    simp only [rls, Bool.and_eq_true, beq_iff_eq] at hp
    rw [hp.1]
    exact beq_false_of_ne (Ne.symm hne)
  unfold orgRows
  congr 1
  refine filter_updateWhere_of_disjoint hother fun a ha hp => ?_
  rw [hf]
  exact hother a ha hp

theorem orgRows_addFeedback {answerId : Uuid} {rating : Rating} {note : Option String} {u : Unit}
    (hne : org ≠ ctx.orgId) (htx : addFeedbackTx ctx answerId rating note db = .ok (u, db')) :
    orgRows org db' = orgRows org db := by
  obtain ⟨-, -, rfl⟩ := addFeedbackTx_ok htx
  have hno : (ctx.orgId == org) = false := beq_false_of_ne (Ne.symm hne)
  unfold orgRows
  congr 1
  rw [List.filter_append]
  simp [hno]

/-! ## Methods -/

theorem readOnly_gate (g : Except Err Unit) : ReadOnly (gate g) := by
  cases g with
  | ok u => exact ReadOnly.pure ()
  | error e => exact ReadOnly.raise e

theorem readOnly_getGroup (groupId : Uuid) : ReadOnly (getGroup ctx groupId) := by
  refine (ReadOnly.read _).bind fun g => ?_
  cases g with
  | none => exact ReadOnly.raise _
  | some g => exact ReadOnly.pure g

theorem readOnly_sweep {α : Type} {fetch : Nat → Nat → Scope (List α)}
    (hf : ∀ limit offset, ReadOnly (fetch limit offset)) (fuel : Nat) (rows : List α) :
    ReadOnly (sweep fetch fuel rows) := by
  induction fuel generalizing rows with
  | zero => exact ReadOnly.pure rows
  | succ fuel ih =>
    refine (hf _ _).bind fun page => ?_
    show ReadOnly (if page.length < SWEEP_PAGE then _ else _)
    split
    · exact ReadOnly.pure _
    · exact ih _

/-- What follows `get_group` may use that the group with the id is of the caller's org. -/
theorem keeps_getGroup_bind {α : Type} {groupId : Uuid} {t : Tx Db Err α}
    (ht : ∀ db a db', Serving ctx db → (∀ g ∈ db.groups, g.id = groupId → g.orgId = ctx.orgId) →
      t db = .ok (a, db') → orgRows org db' = orgRows org db) :
    Keeps (Serving ctx) (orgRows org) (getGroup ctx groupId >>= fun _ => transact t) := by
  intro db hs
  rw [bind_apply]
  unfold getGroup
  rw [bind_apply, read_apply]
  cases hg : group? ctx groupId db with
  | none => rfl
  | some g =>
    obtain ⟨n, htenants, -, -⟩ := id hs
    have hp := List.find?_some hg
    simp only [rls, Bool.and_eq_true, beq_iff_eq] at hp
    have hcheck : ∀ g' ∈ db.groups, g'.id = groupId → g'.orgId = ctx.orgId := by
      intro g' hg' hid
      have hsame := Table.eq_of_key htenants.groups.ids hg' (List.mem_of_find?_eq_some hg)
        (hid.trans hp.2.1.symm)
      rw [hsame, hp.1]
    exact Keeps.transact (I := fun d => d = db) (f := orgRows org)
      (fun d a d' hd hok => hd ▸ ht d a d' (hd ▸ hs) (hd ▸ hcheck) hok) db rfl

theorem keeps_addGroupMember (groupId userId : Uuid) (hne : org ≠ ctx.orgId) :
    Keeps (Serving ctx) (orgRows org) (addGroupMember ctx groupId userId) :=
  (readOnly_gate _).bind_keeps fun _ => keeps_getGroup_bind fun _ _ _ _ hcheck hok =>
    orgRows_addGroupMember hne hcheck hok

theorem keeps_syncSource (source : String) (items : List Item) (fresh : Uuid) (now : Time)
    (hne : org ≠ ctx.orgId) :
    Keeps (Serving ctx) (orgRows org) (syncSource env ctx source items fresh now) := by
  refine (readOnly_gate _).bind_keeps fun _ => ?_
  refine Keeps.bind (Keeps.transact fun _ _ _ _ hok => orgRows_syncTx hne hok) ?_
  rintro db ⟨result, toEnqueue⟩ db₁ ⟨n, ht, -, -⟩ hrun
  have hok : syncTx env (checkCaps env ctx.orgId items) ctx.orgId source items fresh now db =
      .ok ((result, toEnqueue), db₁) := by
    unfold transact at hrun
    split at hrun
    · rename_i r d hok
      obtain ⟨hr, rfl⟩ := Prod.mk.inj hrun
      rw [hok, Except.ok.inj hr]
    · cases hrun
  have horgs := (syncTx_enqueueable ht hok).2
  refine Keeps.bind (I := fun _ => True) (f := orgRows org) (Keeps.forEach fun job hjob => ?_)
    (fun _ _ _ _ _ => rfl) db₁ trivial
  refine Keeps.transact fun d a d' _ hjobtx => ?_
  obtain ⟨created, hjobtx⟩ := map_snd_ok.1 hjobtx
  exact orgRows_enqueuePending hne (horgs job.1 (List.fst_mem_of_mem_zipIdx hjob)) hjobtx

/-- No method changes a row of another org. -/
theorem keeps_method (method : ScopeMethod) (hne : org ≠ ctx.orgId) :
    Keeps (Serving ctx) (orgRows org) (method.run env ctx) := by
  have htx : ∀ {α : Type} {g : Except Err Unit} {t : Tx Db Err α},
      (∀ db a db', Serving ctx db → t db = .ok (a, db') → orgRows org db' = orgRows org db) →
        Keeps (Serving ctx) (orgRows org) (gate g >>= fun _ => transact t) :=
    fun ht => (readOnly_gate _).bind_keeps fun _ => Keeps.transact ht
  cases method with
  | requireRole minimum => exact (readOnly_gate _).keeps
  | requireCanGrant role => exact (readOnly_gate _).keeps
  | createGroup name fresh now => exact htx fun _ _ _ _ hok => orgRows_createGroup hne hok
  | getGroup groupId => exact (readOnly_getGroup groupId).keeps
  | addGroupMemberByEmail groupId email =>
    refine (readOnly_gate _).bind_keeps fun _ => (ReadOnly.read _).bind_keeps fun u => ?_
    cases u with
    | none => exact (ReadOnly.raise _).keeps
    | some userId =>
      exact Keeps.bind (keeps_addGroupMember groupId userId hne) fun _ _ _ _ _ => rfl
  | addGroupMember groupId userId => exact keeps_addGroupMember groupId userId hne
  | removeGroupMember groupId userId =>
    exact (readOnly_gate _).bind_keeps fun _ => keeps_getGroup_bind fun _ _ _ _ hcheck hok =>
      orgRows_removeGroupMember hne hcheck hok
  | listGroupMembers groupId =>
    exact ((readOnly_getGroup groupId).bind fun _ => ReadOnly.read _).keeps
  | deleteGroup groupId =>
    exact htx fun _ _ _ ⟨_, ht, _, _⟩ hok => orgRows_deleteGroup ht hne hok
  | setMemberRole userId role => exact htx fun _ _ _ _ hok => orgRows_setMemberRole hne hok
  | removeMember userId =>
    exact htx fun _ _ _ ⟨_, ht, _, _⟩ hok => orgRows_removeMember ht hne hok
  | syncSource source items fresh now => exact keeps_syncSource source items fresh now hne
  | getDocument documentId =>
    refine ((ReadOnly.read _).bind fun ps => (ReadOnly.read _).bind fun d => ?_).keeps
    cases d with
    | none => exact ReadOnly.raise _
    | some d => exact ReadOnly.pure d
  | deleteDocument documentId =>
    exact htx fun _ _ _ ⟨_, _, hd, _⟩ hok => orgRows_deleteDocument hd hne hok
  | updateDocumentAcl documentId acl now =>
    exact htx fun _ _ _ _ hok => orgRows_updateDocumentAcl hne hok
  | exportOrg =>
    refine ((readOnly_gate _).bind fun _ => (ReadOnly.read _).bind fun members => ?_).keeps
    refine (readOnly_sweep (fun _ _ => ReadOnly.read _) _ _).bind fun rows => ?_
    refine (ReadOnly.read _).bind fun documents => ?_
    exact (readOnly_sweep (fun _ _ => ReadOnly.read _) _ _).bind fun _ => ReadOnly.pure _
  | retrievalStats | search => exact ((ReadOnly.read _).bind fun _ => ReadOnly.read _).keeps
  | recordAnswer question provider refused fresh now =>
    exact Keeps.transact fun _ _ _ _ hok => orgRows_recordAnswer hne hok
  | finalizeAnswer answerId usage estimated now =>
    refine Keeps.transact fun db u db' _ hok => ?_
    obtain rfl := (Prod.mk.inj (Except.ok.inj hok)).2
    exact orgRows_updateAnswer (f := (·.finalize usage estimated)) (fun _ => rfl) hne
  | markBlocked answerId =>
    refine Keeps.transact fun db u db' _ hok => ?_
    obtain rfl := (Prod.mk.inj (Except.ok.inj hok)).2
    exact orgRows_updateAnswer (f := fun a => { a with blocked := true }) (fun _ => rfl) hne
  | countAudit | listAudit => exact ((readOnly_gate _).bind fun _ => ReadOnly.read _).keeps
  | usageSummary now =>
    refine ((readOnly_gate _).bind fun _ => (ReadOnly.read _).bind fun storage => ?_).keeps
    refine (ReadOnly.read _).bind fun used => (ReadOnly.read _).bind fun spend => ?_
    exact (ReadOnly.read _).bind fun _ => ReadOnly.pure _
  | addFeedback answerId rating note =>
    exact Keeps.transact fun _ _ _ _ hok => orgRows_addFeedback hne hok
  | listGroups | countDocuments | listDocuments | principals | spendLast24h | platformSpendToday
  | questionsThisMonth | storageUsage | topQueries | countMembers | listMembers =>
    exact (ReadOnly.read _).keeps

/-! ## Isolation -/

/-- In two reachable states with the same rows of the caller's org, every method but
`platform_spend_today` returns the same value or raises the same error; and a method run in a reachable
state changes no row of another org. -/
theorem tenants_isolated (env : Env) (ctx : AuthContext) (method : ScopeMethod) :
    (∀ s₁ s₂ : Service, Service.Reachable env s₁ → Service.Reachable env s₂ → ctx ∈ s₁.issued →
      ctx ∈ s₂.issued → orgRows ctx.orgId s₁.db = orgRows ctx.orgId s₂.db →
      (∀ now, method ≠ .platformSpendToday now) →
        (method.run env ctx s₁.db).1 = (method.run env ctx s₂.db).1) ∧
    ∀ s : Service, Service.Reachable env s → ctx ∈ s.issued → ∀ org, org ≠ ctx.orgId →
      orgRows org (method.run env ctx s.db).2 = orgRows org s.db := by
  refine ⟨fun s₁ s₂ hs₁ hs₂ hi₁ hi₂ hrows hp => ?_, fun s hs hi org hne => ?_⟩
  · exact agrees_method method hp s₁.db s₂.db
      ⟨serving_of_reachable hs₁ hi₁, serving_of_reachable hs₂ hi₂, hrows⟩
  · exact keeps_method method hne s.db (serving_of_reachable hs hi)

/-- Ann's org, alone on the platform. -/
def acmeAlone : List Service.Label := [.signup "acme" "Acme" "ann" "pw" "salt" 0]

/-- Ann's org beside that of Gus. -/
def acmeAndGlobex : List Service.Label := acmeAlone ++ [.signup "globex" "Globex" "gus" "pw" "salt" 0]

/-- Ann creates a group: it makes no difference to her whether the org of Gus is there, nor to it. -/
theorem tenants_isolated_create_group :
    let alone := Runs.run (Service.step (asciiEnv id)) Service.init acmeAlone
    let both := Runs.run (Service.step (asciiEnv id)) Service.init acmeAndGlobex
    let create := (ScopeMethod.createGroup "eng" 9 0).run (asciiEnv id) ⟨1, 0, .owner, "ann"⟩
    (create alone.db).1 = (create both.db).1 ∧ orgRows 2 (create both.db).2 = orgRows 2 both.db := by
  have h := tenants_isolated (asciiEnv id) ⟨1, 0, .owner, "ann"⟩ (.createGroup "eng" 9 0)
  refine ⟨h.1 _ _ ⟨acmeAlone, rfl⟩ ⟨acmeAndGlobex, rfl⟩ ?_ ?_ ?_ ?_, h.2 _ ⟨acmeAndGlobex, rfl⟩ ?_ 2 ?_⟩
  · decide +kernel
  · decide +kernel
  · decide +kernel
  · exact fun _ he => nomatch he
  · decide +kernel
  · decide

end KnowledgeDesk.Proofs
