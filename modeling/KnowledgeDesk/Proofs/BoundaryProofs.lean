import KnowledgeDesk.Lib.TwoGenerators
import KnowledgeDesk.Proofs.AskWritesProofs

/-!
# The permission boundary

A caller cannot tell two databases apart that differ only in documents the caller may not read: retrieval
and `get_document` read the chunks the caller's principals may see and the documents of those, and the
frames of an answer depend on nothing else.
-/

open Table

namespace KnowledgeDesk.Proofs

open Assistant Providers Stmt AskStreams

variable {env : Env} {ctx : AuthContext}

/-! ## Two databases -/

/-- Some chunk of the document has one of the caller's principals in its `acl`. -/
def shown (ctx : AuthContext) (db : Db) (documentId : Uuid) : Bool :=
  db.chunks.any fun c => c.documentId == documentId && anyOf c.acl (principalsOf ctx db)

/-- The databases have the same accounts and groups, and the same documents and chunks but for documents
not shown to the caller. -/
structure SameShown (ctx : AuthContext) (db₁ db₂ : Db) : Prop where
  orgs : db₁.orgs = db₂.orgs
  users : db₁.users = db₂.users
  groups : db₁.groups = db₂.groups
  groupMembers : db₁.groupMembers = db₂.groupMembers
  documents : (db₁.documents.filter fun d => shown ctx db₁ d.id) =
    db₂.documents.filter fun d => shown ctx db₂ d.id
  chunks : (db₁.chunks.filter fun c => shown ctx db₁ c.documentId) =
    db₂.chunks.filter fun c => shown ctx db₂ c.documentId

/-- The databases differ in documents not shown to the caller, and jobs, only. -/
structure SameVisible (ctx : AuthContext) (db₁ db₂ : Db) : Prop extends SameShown ctx db₁ db₂ where
  memberships : db₁.memberships = db₂.memberships
  sessions : db₁.sessions = db₂.sessions
  answers : db₁.answers = db₂.answers
  feedback : db₁.feedback = db₂.feedback
  auditLog : db₁.auditLog = db₂.auditLog
  platformSpend : db₁.platformSpend = db₂.platformSpend

/-! ## What the caller reads -/

section Reads

theorem shown_of_chunk {db : Db} {c : Chunk} (hc : c ∈ db.chunks)
    (hacl : anyOf c.acl (principalsOf ctx db) = true) : shown ctx db c.documentId = true :=
  List.any_eq_true.2 ⟨c, hc, by simp [hacl]⟩

/-- The retrieved rows, from the documents and chunks shown to the caller alone. -/
theorem ingestedChunks_shown (db : Db) :
    ingestedChunks ctx (fun c => anyOf c.acl (principalsOf ctx db)) db =
      (((db.chunks.filter fun c => shown ctx db c.documentId).filter (rls ctx.orgId Chunk.orgId fun c =>
          c.orgId == ctx.orgId && anyOf c.acl (principalsOf ctx db))).flatMap fun c =>
        ((db.documents.filter fun d => shown ctx db d.id).filter (rls ctx.orgId Document.orgId fun d =>
          d.id == c.documentId && d.status == .ingested)).map fun d => (c, d)) := by
  have hchunks : ∀ c ∈ db.chunks, (rls ctx.orgId Chunk.orgId fun c =>
      c.orgId == ctx.orgId && anyOf c.acl (principalsOf ctx db)) c = true → shown ctx db c.documentId = true := by
    intro c hc hp
    simp only [rls, Bool.and_eq_true] at hp
    exact shown_of_chunk hc hp.2.2
  rw [ingestedChunks, filter_of_imp hchunks]
  refine List.flatMap_congr fun c hc => ?_
  have hshown : shown ctx db c.documentId = true := (List.mem_filter.1 (List.mem_filter.1 hc).1).2
  have hdocs : ∀ d ∈ db.documents, (rls ctx.orgId Document.orgId fun d =>
      d.id == c.documentId && d.status == .ingested) d = true → shown ctx db d.id = true := by
    intro d _ hp
    simp only [rls, Bool.and_eq_true, beq_iff_eq] at hp
    rw [hp.2.1]
    exact hshown
  rw [filter_of_imp hdocs]

/-- A document not shown to the caller is not found. -/
theorem visibleDocument_of_not_shown {db : Db} {documentId : Uuid} (hs : shown ctx db documentId = false) :
    visibleDocument ctx (principalsOf ctx db) documentId db = none := by
  unfold visibleDocument
  rw [Option.bind_eq_none_iff]
  intro d hd
  have hid : d.id = documentId := by
    have hp := List.find?_some hd
    simp only [rls, Bool.and_eq_true, beq_iff_eq] at hp
    exact hp.2.1.1
  have hnone : (db.chunks.filter (rls ctx.orgId Chunk.orgId fun c =>
      c.documentId == d.id && anyOf c.acl (principalsOf ctx db))) = [] := by
    refine List.filter_eq_nil_iff.2 fun c hc hp => ?_
    simp only [rls, Bool.and_eq_true, beq_iff_eq] at hp
    have := shown_of_chunk hc hp.2.2
    rw [hp.2.1, hid, hs] at this
    cases this
  simp only [hnone]
  rfl

/-- A document shown to the caller is found among those shown, with its chunks. -/
theorem visibleDocument_of_shown {db : Db} {documentId : Uuid} (hs : shown ctx db documentId = true) :
    visibleDocument ctx (principalsOf ctx db) documentId db =
      visibleDocument ctx (principalsOf ctx db) documentId
        { db with
          documents := db.documents.filter fun d => shown ctx db d.id
          chunks := db.chunks.filter fun c => shown ctx db c.documentId } := by
  have hfind : ∀ d ∈ db.documents, (rls ctx.orgId Document.orgId fun d =>
      d.id == documentId && d.orgId == ctx.orgId && d.status == .ingested) d = true →
      shown ctx db d.id = true := by
    intro d _ hp
    simp only [rls, Bool.and_eq_true, beq_iff_eq] at hp
    rw [hp.2.1.1]
    exact hs
  unfold visibleDocument
  simp only [find?_of_imp hfind]
  refine Option.bind_congr fun d _ => ?_
  have hchunks : ∀ c ∈ db.chunks, (rls ctx.orgId Chunk.orgId fun c =>
      c.documentId == d.id && anyOf c.acl (principalsOf ctx db)) c = true →
      shown ctx db c.documentId = true := by
    intro c hc hp
    simp only [rls, Bool.and_eq_true] at hp
    exact shown_of_chunk hc hp.2.2
  simp only [filter_of_imp hchunks]

variable {db₁ db₂ : Db} (h : SameShown ctx db₁ db₂)
include h

theorem SameShown.principalsOf_eq : principalsOf ctx db₁ = principalsOf ctx db₂ := by
  rw [principalsOf, principalsOf, h.groups, h.groupMembers]

theorem SameShown.nearestVisible_eq (vec : Embedding) (k : Nat) :
    nearestVisible env ctx (principalsOf ctx db₁) vec k db₁ =
      nearestVisible env ctx (principalsOf ctx db₂) vec k db₂ := by
  rw [nearestVisible, nearestVisible, ingestedChunks_shown, ingestedChunks_shown, h.chunks, h.documents,
    h.principalsOf_eq]

/-- Both databases agree on what is shown. -/
theorem SameShown.shown_eq (documentId : Uuid) : shown ctx db₁ documentId = shown ctx db₂ documentId := by
  have hself : ∀ db : Db, shown ctx db documentId =
      (db.chunks.filter fun c => shown ctx db c.documentId).any fun c =>
        c.documentId == documentId && anyOf c.acl (principalsOf ctx db) := by
    intro db
    refine any_of_imp fun c hc hp => ?_
    exact shown_of_chunk hc (Bool.and_eq_true_iff.1 hp).2
  rw [hself, hself, h.chunks, h.principalsOf_eq]

theorem SameShown.visibleDocument_eq (documentId : Uuid) :
    visibleDocument ctx (principalsOf ctx db₁) documentId db₁ =
      visibleDocument ctx (principalsOf ctx db₂) documentId db₂ := by
  by_cases hs : shown ctx db₁ documentId = true
  · have hs' : shown ctx db₂ documentId = true := by rw [← h.shown_eq, hs]
    rw [visibleDocument_of_shown hs, visibleDocument_of_shown hs', h.principalsOf_eq, visibleDocument,
      visibleDocument]
    dsimp only
    rw [h.documents, h.chunks]
  · rw [Bool.not_eq_true] at hs
    have hs' : shown ctx db₂ documentId = false := by rw [← h.shown_eq, hs]
    rw [visibleDocument_of_not_shown hs, visibleDocument_of_not_shown hs']

theorem SameShown.search_eq (queryEmbedding : Embedding) (k : Nat) :
    (KnowledgeDesk.search env ctx queryEmbedding k db₁).1 =
      (KnowledgeDesk.search env ctx queryEmbedding k db₂).1 :=
  congrArg Except.ok (h.nearestVisible_eq queryEmbedding k)

theorem SameShown.getDocument_eq (documentId : Uuid) :
    (getDocument ctx documentId db₁).1 = (getDocument ctx documentId db₂).1 := by
  simp only [getDocument, principals, Proc.bind_apply, Proc.read_apply, h.visibleDocument_eq]
  cases visibleDocument ctx (principalsOf ctx db₂) documentId db₂ with
  | none => rfl
  | some d => rfl

end Reads

/-! ## What the stream writes -/

section Writes

/-- What a caller's reading depends on. -/
def readable (db : Db) : List Org × List User × List Group × List GroupMember × List Document × List Chunk :=
  (db.orgs, db.users, db.groups, db.groupMembers, db.documents, db.chunks)

theorem SameShown.of_readable {db₁ db₂ db₁' db₂' : Db} (h : SameShown ctx db₁ db₂)
    (h₁ : readable db₁' = readable db₁) (h₂ : readable db₂' = readable db₂) : SameShown ctx db₁' db₂' := by
  have hsplit : ∀ {a b : Db}, readable a = readable b → a.orgs = b.orgs ∧ a.users = b.users ∧
      a.groups = b.groups ∧ a.groupMembers = b.groupMembers ∧ a.documents = b.documents ∧ a.chunks = b.chunks := by
    intro a b he
    simpa only [readable, Prod.mk.injEq] using he
  have hshown : ∀ {a b : Db}, readable a = readable b → shown ctx a = shown ctx b := by
    intro a b he
    obtain ⟨-, -, hg, hm, -, hc⟩ := hsplit he
    funext documentId
    rw [shown, shown, principalsOf, principalsOf, hg, hm, hc]
  obtain ⟨ho₁, hu₁, hg₁, hm₁, hd₁, hc₁⟩ := hsplit h₁
  obtain ⟨ho₂, hu₂, hg₂, hm₂, hd₂, hc₂⟩ := hsplit h₂
  refine ⟨?_, ?_, ?_, ?_, ?_, ?_⟩
  · rw [ho₁, ho₂, h.orgs]
  · rw [hu₁, hu₂, h.users]
  · rw [hg₁, hg₂, h.groups]
  · rw [hm₁, hm₂, h.groupMembers]
  · rw [hd₁, hd₂, hshown h₁, hshown h₂]
    exact h.documents
  · rw [hc₁, hc₂, hshown h₁, hshown h₂]
    exact h.chunks

/-- The operations of a stream write nothing that a stream reads. -/
theorem readable_reply (fresh : Uuid) (now : Time) (fault : Option Err) (reference : String) (db : Db) (o : AskOp) :
    readable (reply env ctx fresh now fault reference db o).2 = readable db := by
  rcases @reply_db env ctx fresh now fault reference db o with ⟨h, -⟩ | ⟨-, -, entries, -, h⟩ |
    ⟨-, -, -, a, -, -, -, -, -, -, -, h⟩ | ⟨answerId, -, -, h⟩ | ⟨answerId, usage, estimated, -, -, h⟩
  · rw [h]
  all_goals
    rw [h]
    rfl

end Writes

/-! ## Two streams -/

/-- What a stream draws: the id of its answer, and the reference of an error. -/
structure Draws where
  fresh : Uuid
  reference : String

/-- Two frames that differ in what the streams have drawn at most. -/
inductive Alike (d₁ d₂ : Draws) : Frame → Frame → Prop
  | same (f : Frame) : Alike d₁ d₂ f f
  | answered (provider : String) : Alike d₁ d₂ (.meta d₁.fresh provider) (.meta d₂.fresh provider)
  | failed : Alike d₁ d₂ (.error (failureMessage d₁.reference)) (.error (failureMessage d₂.reference))

/-- Two streams of one caller, performed at the same times with the same faults. -/
def pairing (env : Env) (ctx : AuthContext) (schedule : Nat → Time × Option Err) (d₁ d₂ : Draws) :
    Pairing AskOp AskOp.Reply Frame (Nat × Db) where
  left := alone env ctx d₁.fresh d₁.reference schedule
  right := alone env ctx d₂.fresh d₂.reference schedule
  alike := Alike d₁ d₂

/-- Until the answer is recorded: the streams have read the same. -/
def Reading (ctx : AuthContext) (x y : AskLocals × Nat × Db) : Prop :=
  x.1 = y.1 ∧ x.2.1 = y.2.1 ∧ SameVisible ctx x.2.2 y.2.2

/-- From then on: the streams differ in what they have written only. -/
structure Writing (ctx : AuthContext) (x y : AskLocals × Nat × Db) : Prop where
  answerId : x.1.answerId.isSome = y.1.answerId.isSome
  contexts : x.1.contexts = y.1.contexts
  streamed : x.1.streamed = y.1.streamed
  billed : x.1.billed = y.1.billed
  performed : x.2.1 = y.2.1
  same : SameShown ctx x.2.2 y.2.2

theorem Reading.writing {x y : AskLocals × Nat × Db} (h : Reading ctx x y) : Writing ctx x y :=
  ⟨by rw [h.1], by rw [h.1], by rw [h.1], by rw [h.1], h.2.1, h.2.2.toSameShown⟩

section Streams

variable {schedule : Nat → Time × Option Err} {d₁ d₂ : Draws}

/-! ### Operations -/

/-- A query of what the streams may both see: the same reply, and nothing is written. -/
theorem twin_query {call : AskCall} (hread : ∀ fresh now db, (call.run env ctx fresh now db).2 = db)
    (hsame : ∀ fresh fresh' now db₁ db₂, SameVisible ctx db₁ db₂ →
      (call.run env ctx fresh now db₁).1 = (call.run env ctx fresh' now db₂).1) :
    Twin (pairing env ctx schedule d₁ d₂) (Reading ctx) (callDb call) (callDb call) (fun a b => a = b)
      (Reading ctx) := by
  refine (twin_perform (A := fun r r' => r = r') (T := Reading ctx) fun x y hxy => ?_).bind
    (fun _ _ h => h) fun r r' hr => ?_
  · obtain ⟨hl, hn, hdb⟩ := hxy
    show (alone env ctx d₁.fresh d₁.reference schedule (.db call) x.2).1 =
      (alone env ctx d₂.fresh d₂.reference schedule (.db call) y.2).1 ∧ _
    unfold pairing alone reply
    dsimp only
    rw [← hn]
    cases (schedule x.2.1).2 with
    | some e => exact ⟨rfl, hl, by rw [hn], hdb⟩
    | none =>
      refine ⟨hsame _ _ _ _ _ hdb, hl, by rw [hn], ?_⟩
      rw [hread, hread]
      exact hdb
  · subst hr
    cases r with
    | ok a => exact twin_pure rfl
    | error e => exact twin_raise _

/-- Whatever the streams perform, they differ in what they have written only. -/
theorem Writing.perform {x y : AskLocals × Nat × Db} (h : Writing ctx x y) (o₁ o₂ : AskOp) :
    Writing ctx (x.1, (alone env ctx d₁.fresh d₁.reference schedule o₁ x.2).2)
      (y.1, (alone env ctx d₂.fresh d₂.reference schedule o₂ y.2).2) where
  answerId := h.answerId
  contexts := h.contexts
  streamed := h.streamed
  billed := h.billed
  performed := congrArg (· + 1) h.performed
  same := h.same.of_readable (readable_reply ..) (readable_reply ..)

/-- What the reply to a call of each stream is, when both commit or both raise the same. -/
def RelReply {call₁ call₂ : AskCall} (A : call₁.Ret → call₂.Ret → Prop) :
    AskOp.Reply (.db call₁) → AskOp.Reply (.db call₂) → Prop
  | .ok a, .ok b => A a b
  | .error e, .error e' => e = e'
  | _, _ => False

/-- A call of each stream, from the replies to it. -/
theorem twin_callDb {call₁ call₂ : AskCall} {A : call₁.Ret → call₂.Ret → Prop}
    {S : AskLocals × Nat × Db → AskLocals × Nat × Db → Prop} (hS : ∀ x y, S x y → Writing ctx x y)
    (h : ∀ x y, S x y → RelReply A
      (alone env ctx d₁.fresh d₁.reference schedule (.db call₁) x.2).1
      (alone env ctx d₂.fresh d₂.reference schedule (.db call₂) y.2).1) :
    Twin (pairing env ctx schedule d₁ d₂) S (callDb call₁) (callDb call₂) A (Writing ctx) := by
  refine (twin_perform (A := RelReply A) (T := Writing ctx) fun x y hxy => ?_).bind (fun _ _ hw => hw)
    fun r r' hr => ?_
  · exact ⟨h x y hxy, (hS x y hxy).perform _ _⟩
  · match r, r', hr with
    | .ok a, .ok b, hab => exact twin_pure hab
    | .error e, .error e', he =>
      obtain rfl : e = e' := he
      exact twin_raise _

/-- A call of each stream that raises only when it is made to. -/
theorem twin_write {call₁ call₂ : AskCall} {A : call₁.Ret → call₂.Ret → Prop} {v₁ : Db → call₁.Ret}
    {v₂ : Db → call₂.Ret} (h₁ : ∀ fresh now db, (call₁.run env ctx fresh now db).1 = .ok (v₁ db))
    (h₂ : ∀ fresh now db, (call₂.run env ctx fresh now db).1 = .ok (v₂ db)) (hA : ∀ a b, A a b) :
    Twin (pairing env ctx schedule d₁ d₂) (Writing ctx) (callDb call₁) (callDb call₂) A (Writing ctx) := by
  refine twin_callDb (fun _ _ hw => hw) fun x y hxy => ?_
  unfold alone reply
  dsimp only
  rw [← hxy.performed]
  cases (schedule x.2.1).2 with
  | some e => exact rfl
  | none =>
    show RelReply A (call₁.run env ctx _ _ x.2.2).1 (call₂.run env ctx _ _ y.2.2).1
    rw [h₁, h₂]
    exact hA _ _

/-- `record_answer` raises in both runs or in neither, and each run has an id of its own after it. -/
theorem twin_record (question provider : String) (refused : Bool) :
    Twin (pairing env ctx schedule d₁ d₂) (Reading ctx) (callDb (.recordAnswer question provider refused))
      (callDb (.recordAnswer question provider refused)) (fun a b => a = d₁.fresh ∧ b = d₂.fresh)
      (Writing ctx) := by
  have hrun : ∀ fresh now db,
      ((AskCall.recordAnswer question provider refused).run env ctx fresh now db).1 =
        if (db.hasOrg ctx.orgId && db.hasUser ctx.userId) = true then Except.ok fresh
        else .error (.db .foreignKeyViolation) := by
    intro fresh now db
    show (Proc.transact (recordAnswerTx ctx question provider refused fresh now) db).1 = _
    unfold Proc.transact recordAnswerTx
    by_cases href : (db.hasOrg ctx.orgId && db.hasUser ctx.userId) = true
    · rw [href]
      rfl
    · rw [Bool.not_eq_true] at href
      rw [href]
      rfl
  refine twin_callDb (fun _ _ h => h.writing) fun x y hxy => ?_
  obtain ⟨-, hn, hdb⟩ := hxy
  unfold alone reply
  dsimp only
  rw [← hn]
  cases (schedule x.2.1).2 with
  | some e => exact rfl
  | none =>
    have horg : x.2.2.hasOrg ctx.orgId = y.2.2.hasOrg ctx.orgId := by rw [Db.hasOrg, Db.hasOrg, hdb.orgs]
    have huser : x.2.2.hasUser ctx.userId = y.2.2.hasUser ctx.userId := by
      rw [Db.hasUser, Db.hasUser, hdb.users]
    dsimp only
    rw [hrun, hrun, horg, huser]
    by_cases href : (y.2.2.hasOrg ctx.orgId && y.2.2.hasUser ctx.userId) = true
    · rw [if_pos href, if_pos href]
      exact ⟨rfl, rfl⟩
    · rw [if_neg href, if_neg href]
      exact rfl

theorem twin_audit (action action' : String) (detail detail' : List (String × DetailValue)) :
    Twin (pairing env ctx schedule d₁ d₂) (Writing ctx) (audit action detail) (audit action' detail')
      (fun _ _ => True) (Writing ctx) :=
  twin_perform fun _ _ h => ⟨trivial, h.perform _ _⟩

theorem twin_receive (event : ProviderEvent) :
    Twin (pairing env ctx schedule d₁ d₂) (Writing ctx) (receive event) (receive event) (fun _ _ => True)
      (Writing ctx) :=
  twin_perform fun _ _ h => ⟨trivial, h.perform _ _⟩

theorem twin_tokenHex :
    Twin (pairing env ctx schedule d₁ d₂) (Writing ctx) tokenHex tokenHex
      (fun r r' => r = d₁.reference ∧ r' = d₂.reference) (Writing ctx) :=
  twin_perform fun _ _ h => ⟨⟨rfl, rfl⟩, h.perform _ _⟩

theorem twin_send {S : AskLocals × Nat × Db → AskLocals × Nat × Db → Prop} {f f' : Frame}
    (h : Alike d₁ d₂ f f') :
    Twin (pairing env ctx schedule d₁ d₂) S (send f) (send f') (fun _ _ => True) S :=
  twin_yield h

/-! ### Statements -/

variable {req : Request}

theorem twin_limitBlock :
    Twin (pairing env ctx schedule d₁ d₂) (Reading ctx) (limitBlock req) (limitBlock req) (fun a b => a = b)
      (Reading ctx) := by
  have hspend : Twin (pairing env ctx schedule d₁ d₂) (Reading ctx) (callDb .spendLast24h)
      (callDb .spendLast24h) (fun a b => a = b) (Reading ctx) := by
    refine twin_query (fun _ _ _ => rfl) fun _ _ now db₁ db₂ h => ?_
    show Except.ok (spendSince ctx.orgId now db₁) = Except.ok (spendSince ctx.orgId now db₂)
    rw [spendSince, spendSince, h.answers]
  have hquestions : Twin (pairing env ctx schedule d₁ d₂) (Reading ctx) (callDb .questionsThisMonth)
      (callDb .questionsThisMonth) (fun a b => a = b) (Reading ctx) := by
    refine twin_query (fun _ _ _ => rfl) fun _ _ now db₁ db₂ h => ?_
    show Except.ok (monthAnswers ctx.orgId now db₁).length = Except.ok (monthAnswers ctx.orgId now db₂).length
    rw [monthAnswers, monthAnswers, h.answers]
  have hplatform : Twin (pairing env ctx schedule d₁ d₂) (Reading ctx) (callDb .platformSpendToday)
      (callDb .platformSpendToday) (fun a b => a = b) (Reading ctx) := by
    refine twin_query (fun _ _ _ => rfl) fun _ _ now db₁ db₂ h => ?_
    show Except.ok (platformSpendOn now db₁) = Except.ok (platformSpendOn now db₂)
    rw [platformSpendOn, platformSpendOn, h.platformSpend]
  unfold limitBlock
  refine hspend.bind (fun _ _ h => h) ?_
  rintro spend _ rfl
  by_cases hbudget : req.env.settings.dailyBudgetUsd ≤ spend
  · rw [if_pos hbudget]
    exact twin_pure rfl
  rw [if_neg hbudget]
  refine hquestions.bind (fun _ _ h => h) ?_
  rintro questions _ rfl
  by_cases hcap : req.env.settings.monthlyQuestionCap ≤ questions
  · rw [if_pos hcap]
    exact twin_pure rfl
  rw [if_neg hcap]
  refine hplatform.bind (fun _ _ h => h) ?_
  rintro platform _ rfl
  by_cases hall : req.env.settings.platformDailyBudgetUsd ≤ platform
  · rw [if_pos hall]
    exact twin_pure rfl
  · rw [if_neg hall]
    exact twin_pure rfl

theorem twin_recordAnswer (refused : Bool) :
    Twin (pairing env ctx schedule d₁ d₂) (Reading ctx) (Assistant.recordAnswer req refused)
      (Assistant.recordAnswer req refused) (fun a b => a = d₁.fresh ∧ b = d₂.fresh) (Writing ctx) := by
  unfold Assistant.recordAnswer
  refine (twin_record req.question req.provider.name refused).bind (fun _ _ h => h) fun a b hab => ?_
  have hassign : Twin (pairing env ctx schedule d₁ d₂) (Writing ctx)
      (Stmt.assign fun l => { l with answerId := some a } : Ask Unit)
      (Stmt.assign fun l => { l with answerId := some b } : Ask Unit) (fun _ _ => True) (Writing ctx) :=
    twin_assign fun _ _ h => ⟨rfl, h.contexts, h.streamed, h.billed, h.performed, h.same⟩
  exact hassign.bind (fun _ _ h => h) fun _ _ _ => twin_pure hab

theorem twin_blocked (reason : String) :
    Twin (pairing env ctx schedule d₁ d₂) (Reading ctx) (blocked req reason) (blocked req reason)
      (fun _ _ => True) (Writing ctx) := by
  unfold blocked
  refine (twin_recordAnswer false).bind (fun _ _ h => h) ?_
  rintro _ _ ⟨rfl, rfl⟩
  refine (twin_write (A := fun _ _ => True) (fun _ _ _ => rfl) (fun _ _ _ => rfl)
    fun _ _ => trivial).bind (fun _ _ h => h) fun _ _ _ => ?_
  refine (twin_audit _ _ _ _).bind (fun _ _ h => h) fun _ _ _ => ?_
  exact (twin_send (.answered _)).bind (fun _ _ h => h) fun _ _ _ => twin_send (.same _)

/-- Retrieval returns the same passages in both runs. -/
theorem twin_search :
    Twin (pairing env ctx schedule d₁ d₂) (Reading ctx) (Assistant.search req) (Assistant.search req)
      (fun a b => a = b) (Reading ctx) := by
  unfold Assistant.search
  cases req.embedQuery req.question with
  | error exc => exact twin_raise _
  | ok embedding =>
    exact twin_query (fun _ _ _ => rfl) fun _ _ _ _ _ h => h.toSameShown.search_eq embedding req.k

theorem twin_refuse :
    Twin (pairing env ctx schedule d₁ d₂) (Writing ctx) refuse refuse (fun _ _ => True) (Writing ctx) := by
  unfold refuse
  exact (twin_forEach (fun text => twin_send (.same (.token text))) refusalTokens).bind (fun _ _ h => h)
    fun _ _ _ => twin_send (.same _)

theorem twin_finalize {usage : Usage} {estimated : Bool} (answerId answerId' : Uuid) :
    Twin (pairing env ctx schedule d₁ d₂) (Writing ctx) (callDb (.finalizeAnswer answerId usage estimated))
      (callDb (.finalizeAnswer answerId' usage estimated)) (fun _ _ => True) (Writing ctx) :=
  twin_write (fun _ _ _ => rfl) (fun _ _ _ => rfl) fun _ _ => trivial

/-- The output checks see the same text and passages, so both runs warn alike. -/
theorem twin_complete (answerId answerId' : Uuid) (contexts : List Context) (usage : Usage) :
    Twin (pairing env ctx schedule d₁ d₂) (Writing ctx) (complete req.env answerId contexts usage)
      (complete req.env answerId' contexts usage) (fun _ _ => True) (Writing ctx) := by
  unfold complete
  refine (twin_finalize answerId answerId').bind (fun _ _ h => h) fun _ _ _ => ?_
  refine (twin_assign (T := Writing ctx) fun _ _ h => ⟨h.answerId, h.contexts, h.streamed, rfl, h.performed,
    h.same⟩).bind (fun _ _ h => h) fun _ _ _ => ?_
  refine (twin_locals (L := fun l l' => l.streamed = l'.streamed) fun _ _ h => h.streamed).bind
    (fun _ _ h => h) fun l l' hl => ?_
  rw [hl]
  by_cases hwarn : (OutputChecks.checkAnswer req.env (String.join l'.streamed).toList contexts).isEmpty = true
  · simp only [hwarn, if_true]
    exact (twin_pure (A := fun _ _ => True) trivial).bind (fun _ _ h => h) fun _ _ _ => twin_send (.same _)
  · simp only [hwarn]
    exact (twin_audit _ _ _ _).bind (fun _ _ h => h) fun _ _ _ => twin_send (.same _)

theorem twin_passOn (text : String) :
    Twin (pairing env ctx schedule d₁ d₂) (Writing ctx) (passOn text) (passOn text) (fun _ _ => True)
      (Writing ctx) := by
  unfold passOn
  refine (twin_assign (T := Writing ctx) fun _ _ h => ?_).bind (fun _ _ h => h) fun _ _ _ => twin_send (.same _)
  exact ⟨h.answerId, h.contexts, congrArg (· ++ [text]) h.streamed, h.billed, h.performed, h.same⟩

theorem twin_relay (answerId answerId' : Uuid) (contexts : List Context) :
    Twin (pairing env ctx schedule d₁ d₂) (Writing ctx) (relay req answerId contexts)
      (relay req answerId' contexts) (fun _ _ => True) (Writing ctx) := by
  have hforward : ∀ event, Twin (pairing env ctx schedule d₁ d₂) (Writing ctx)
      (forward req.env answerId contexts event) (forward req.env answerId' contexts event)
      (fun _ _ => True) (Writing ctx) := by
    intro event
    unfold forward
    refine (twin_receive event).bind (fun _ _ h => h) fun _ _ _ => ?_
    cases event with
    | usage usage => exact twin_complete answerId answerId' contexts usage
    | token text => exact twin_passOn text
  unfold relay
  refine (twin_forEach hforward _).bind (fun _ _ h => h) fun _ _ _ => ?_
  cases (req.provider.stream req.question contexts).raised with
  | none => exact twin_pure trivial
  | some exc => exact twin_raise _

theorem twin_answer :
    Twin (pairing env ctx schedule d₁ d₂) (Reading ctx) (answer req) (answer req) (fun _ _ => True)
      (Writing ctx) := by
  unfold answer
  refine twin_search.bind (fun _ _ h => h.writing) ?_
  rintro contexts _ rfl
  refine (twin_assign (T := Reading ctx) fun _ _ h => ⟨congrArg (fun l : AskLocals => { l with contexts }) h.1,
    h.2⟩).bind (fun _ _ h => h.writing) fun _ _ _ => ?_
  refine (twin_recordAnswer contexts.isEmpty).bind (fun _ _ h => h) ?_
  rintro _ _ ⟨rfl, rfl⟩
  refine (twin_audit _ _ _ _).bind (fun _ _ h => h) fun _ _ _ => ?_
  have hforged : Twin (pairing env ctx schedule d₁ d₂) (Writing ctx)
      (if countDefused contexts = 0 then pure () else audit "retrieval.grammar_defused"
        [("answer_id", .str (toString d₁.fresh)), ("spans", .num (countDefused contexts))])
      (if countDefused contexts = 0 then pure () else audit "retrieval.grammar_defused"
        [("answer_id", .str (toString d₂.fresh)), ("spans", .num (countDefused contexts))])
      (fun _ _ => True) (Writing ctx) := by
    by_cases hzero : countDefused contexts = 0
    · rw [if_pos hzero, if_pos hzero]
      exact twin_pure trivial
    · rw [if_neg hzero, if_neg hzero]
      exact twin_audit _ _ _ _
  refine hforged.bind (fun _ _ h => h) fun _ _ _ => ?_
  refine (twin_send (.answered _)).bind (fun _ _ h => h) fun _ _ _ => ?_
  by_cases hempty : contexts.isEmpty = true
  · rw [if_pos hempty, if_pos hempty]
    exact twin_refuse
  rw [if_neg hempty, if_neg hempty]
  have htrace : Twin (pairing env ctx schedule d₁ d₂) (Writing ctx)
      (if req.tracing then callDb .retrievalStats >>= fun _ => pure () else pure () : Ask Unit)
      (if req.tracing then callDb .retrievalStats >>= fun _ => pure () else pure () : Ask Unit)
      (fun _ _ => True) (Writing ctx) := by
    by_cases htracing : req.tracing = true
    · rw [if_pos htracing]
      exact (twin_write (A := fun _ _ => True) (fun _ _ _ => rfl) (fun _ _ _ => rfl)
        fun _ _ => trivial).bind (fun _ _ h => h) fun _ _ _ => twin_pure trivial
    · rw [if_neg htracing]
      exact twin_pure trivial
  refine htrace.bind (fun _ _ h => h) fun _ _ _ => ?_
  exact (twin_send (.same _)).bind (fun _ _ h => h) fun _ _ _ => twin_relay _ _ contexts

/-- The `try` block: what is read decides the branch, and after the answer's row nothing is read that the
caller is shown. -/
theorem twin_attempt :
    Twin (pairing env ctx schedule d₁ d₂) (Reading ctx) (attempt req) (attempt req) (fun _ _ => True)
      (Writing ctx) := by
  unfold attempt
  refine twin_limitBlock.bind (fun _ _ h => h.writing) ?_
  rintro reason _ rfl
  cases reason with
  | some reason => exact twin_blocked reason
  | none => exact twin_answer

theorem twin_onFailure {exc : Exc} {clause : Ask Unit} (h : onFailure exc = some clause) :
    Twin (pairing env ctx schedule d₁ d₂) (Writing ctx) clause clause (fun _ _ => True) (Writing ctx) := by
  have hclause : clause = (tokenHex >>= fun reference => send (.error (failureMessage reference))) := by
    cases exc with
    | generatorExit => cases h
    | db e => exact (Option.some.inj h).symm
    | other repr => exact (Option.some.inj h).symm
  rw [hclause]
  refine twin_tokenHex.bind (fun _ _ h => h) ?_
  rintro _ _ ⟨rfl, rfl⟩
  exact twin_send .failed

theorem twin_settle :
    Twin (pairing env ctx schedule d₁ d₂) (Writing ctx) (settle req) (settle req) (fun _ _ => True)
      (Writing ctx) := by
  unfold settle
  refine (twin_locals (L := fun l l' => l.answerId.isSome = l'.answerId.isSome ∧ l.contexts = l'.contexts ∧
    l.streamed = l'.streamed ∧ l.billed = l'.billed) fun _ _ h =>
      ⟨h.answerId, h.contexts, h.streamed, h.billed⟩).bind (fun _ _ h => h) fun l l' hl => ?_
  obtain ⟨hid, hcontexts, hstreamed, hbilled⟩ := hl
  match hl₁ : l.answerId, hl₂ : l'.answerId with
  | none, none => exact twin_pure trivial
  | none, some _ => simp [hl₁, hl₂] at hid
  | some _, none => simp [hl₁, hl₂] at hid
  | some answerId, some answerId' =>
    dsimp only
    rw [hcontexts, hstreamed, hbilled]
    by_cases hdone : (l'.billed || l'.streamed.isEmpty) = true
    · rw [if_pos hdone, if_pos hdone]
      exact twin_pure trivial
    · rw [if_neg hdone, if_neg hdone]
      exact twin_finalize answerId answerId'

theorem twin_answerStream :
    Twin (pairing env ctx schedule d₁ d₂) (Reading ctx) (answerStream req) (answerStream req)
      (fun _ _ => True) (Writing ctx) :=
  (twin_attempt.tryExcept (fun _ _ h => h) fun _ _ h => twin_onFailure h).tryFinally twin_settle

end Streams

/-! ## The boundary -/

/-- A caller cannot tell two databases apart that differ in documents not shown to the caller: retrieval
and `get_document` return the same, and so do the frames of an answer, but for the id of the answer and the
reference of an error. -/
theorem boundary_reaches_the_answer (env : Env) (ctx : AuthContext) (db₁ db₂ : Db)
    (h : SameVisible ctx db₁ db₂) :
    (∀ queryEmbedding k, (KnowledgeDesk.search env ctx queryEmbedding k db₁).1 =
      (KnowledgeDesk.search env ctx queryEmbedding k db₂).1) ∧
    (∀ documentId, (getDocument ctx documentId db₁).1 = (getDocument ctx documentId db₂).1) ∧
    ∀ (req : Request) (schedule : Nat → Time × Option Err) (d₁ d₂ : Draws), List.Forall₂ (Alike d₁ d₂)
      (framesAlone env ctx d₁.fresh d₁.reference schedule req db₁)
      (framesAlone env ctx d₂.fresh d₂.reference schedule req db₂) := by
  refine ⟨h.toSameShown.search_eq, h.toSameShown.getDocument_eq, fun req schedule d₁ d₂ => ?_⟩
  have hstart : Reading ctx (({}, 0, db₁) : AskLocals × Nat × Db) ({}, 0, db₂) := ⟨rfl, rfl, h⟩
  have htwin : Twin (pairing env ctx schedule d₁ d₂) (Reading ctx) (answerStream req) (answerStream req)
      (fun _ _ => True) (Writing ctx) := twin_answerStream
  exact (htwin _ _ hstart _ _ _ _ _ _ _ _ rfl rfl).1

/-- A desk with a document for everyone, and what else there is. -/
def memoDesk (documents : List Document) (chunks : List Chunk) : Db where
  orgs := [⟨0, "acme", "Acme"⟩]
  users := [⟨1, "a@acme.com", "h"⟩, ⟨2, "b@acme.com", "h"⟩]
  memberships := [⟨1, 0, .member, 0⟩, ⟨2, 0, .member, 0⟩]
  documents := ⟨3, 0, "upload", "refunds.md", "Five days.", "Five days.", ["public-to-org"], [], .ingested, 1, 0⟩ ::
    documents
  chunks := ⟨0, 3, 0, "Five days.", [], ["public-to-org"]⟩ :: chunks

/-- A desk without and with the second member's own memo, which tells of other terms. -/
def withoutMemo : Db := memoDesk [] []

def withMemo : Db :=
  memoDesk [⟨4, 0, "upload", "memo.md", "Ten days.", "Ten days.", ["user:2"], [], .ingested, 1, 0⟩]
    [⟨0, 4, 0, "Ten days.", [], ["user:2"]⟩]

/-- The first member's question, which is answered in the words of the nearest passage. -/
def memoQuestion : Request where
  env := asciiEnv id
  tracing := true
  embedQuery := fun _ => .ok []
  provider := {
    name := "mock"
    stream := fun _ contexts => ⟨contexts.map (fun c => .token c.text) ++ [.usage ⟨8, 4, 0⟩], none⟩
    estimate := fun _ _ _ => ⟨8, 4, 0⟩ }
  question := "refunds?"
  k := 5

/-- The first member's answer does not tell whether the memo exists. -/
theorem answer_does_not_tell_of_the_memo :
    List.Forall₂ (Alike ⟨7, "0123abcd"⟩ ⟨8, "4567cdef"⟩)
      (framesAlone (asciiEnv id) ⟨1, 0, .member, "a@acme.com"⟩ 7 "0123abcd" (fun n => (n, none)) memoQuestion
        withoutMemo)
      (framesAlone (asciiEnv id) ⟨1, 0, .member, "a@acme.com"⟩ 8 "4567cdef" (fun n => (n, none)) memoQuestion
        withMemo) := by
  have hsame : SameVisible ⟨1, 0, .member, "a@acme.com"⟩ withoutMemo withMemo :=
    { orgs := rfl, users := rfl, groups := rfl, groupMembers := rfl
      documents := by decide
      chunks := by decide
      memberships := rfl, sessions := rfl, answers := rfl, feedback := rfl, auditLog := rfl
      platformSpend := rfl }
  exact (boundary_reaches_the_answer (asciiEnv id) _ _ _ hsame).2.2 memoQuestion (fun n => (n, none))
    ⟨7, "0123abcd"⟩ ⟨8, "4567cdef"⟩

end KnowledgeDesk.Proofs
