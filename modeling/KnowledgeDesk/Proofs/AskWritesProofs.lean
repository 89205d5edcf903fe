import KnowledgeDesk.AskStreams
import KnowledgeDesk.Proofs.TenantsProofs

/-!
# Proofs: what the operations of a stream write

A stream writes answers, what they cost and the audit log, and nothing else.
-/

open Table

namespace KnowledgeDesk.Proofs

open Assistant AskStreams

variable {env : Env}

/-- The answers with those of the id and the org updated. -/
def updateAnswer (ctx : AuthContext) (answerId : Uuid) (f : Answer → Answer) (db : Db) : List Answer :=
  updateWhere (rls ctx.orgId Answer.orgId fun a => a.id == answerId && a.orgId == ctx.orgId) f db.answers

/-- A transaction leaves what it leaves when it commits, or nothing. -/
theorem transact_db {α : Type} {t : Tx Db Err α} {db : Db} {P : Db → Prop} (hsame : P db)
    (h : ∀ a db', t db = .ok (a, db') → P db') : P (Proc.transact t db).2 := by
  cases ht : t db with
  | ok r =>
    rw [Proc.transact_of_ok ht]
    exact h r.1 r.2 ht
  | error e => rwa [Proc.transact_of_error ht]

/-- `audit.log` adds at most a line to the log. -/
theorem auditLog_db (orgId actor : Uuid) (action : String) (detail : List (String × DetailValue)) (now : Time)
    (db : Db) : ∃ entries, (auditLog env orgId (some actor) action detail now db).2 =
      { db with auditLog := entries } := by
  have htx : ∃ entries, (Proc.transact (auditTx env orgId (some actor) action detail now) db).2 =
      { db with auditLog := entries } :=
    transact_db (P := fun db' => ∃ entries, db' = { db with auditLog := entries }) ⟨db.auditLog, rfl⟩
      fun u db' ht => ⟨_, (auditTx_ok ht).2⟩
  unfold auditLog Proc.tryExcept
  rcases hr : Proc.transact (auditTx env orgId (some actor) action detail now) db with ⟨r, db'⟩
  rw [hr] at htx
  cases r with
  | ok a => exact htx
  | error e => exact htx

/-- What an operation of a stream does to the database: nothing, but for five that write. -/
theorem reply_db (ctx : AuthContext) (fresh : Uuid) (now : Time) (fault : Option Err) (reference : String)
    (db : Db) (o : AskOp) :
    ((reply env ctx fresh now fault reference db o).2 = db ∧
      ∀ answerId usage estimated, o = .db (.finalizeAnswer answerId usage estimated) → fault ≠ none) ∨
    (∃ action detail entries, o = .audit action detail ∧
      (reply env ctx fresh now fault reference db o).2 = { db with auditLog := entries }) ∨
    (∃ question provider refused a, o = .db (.recordAnswer question provider refused) ∧ fault = none ∧
      a.id = fresh ∧ a.orgId = ctx.orgId ∧ a.createdAt = now ∧ a.blocked = false ∧ a.costUsd = 0 ∧
      (reply env ctx fresh now fault reference db o).2 = { db with answers := db.answers ++ [a] }) ∨
    (∃ answerId, o = .db (.markBlocked answerId) ∧ fault = none ∧
      (reply env ctx fresh now fault reference db o).2 =
        { db with answers := updateAnswer ctx answerId (fun a => { a with blocked := true }) db }) ∨
    ∃ answerId usage estimated, o = .db (.finalizeAnswer answerId usage estimated) ∧ fault = none ∧
      (reply env ctx fresh now fault reference db o).2 =
        { db with
          answers := updateAnswer ctx answerId (·.finalize usage estimated) db
          platformSpend := addPlatformSpend env (dayOf now) usage.costUsd db.platformSpend } := by
  cases o with
  | receive event => exact .inl ⟨rfl, by simp⟩
  | tokenHex => exact .inl ⟨rfl, by simp⟩
  | audit action detail =>
    cases fault with
    | some e => exact .inl ⟨rfl, by simp⟩
    | none =>
      obtain ⟨entries, h⟩ := @auditLog_db env ctx.orgId ctx.userId action detail now db
      exact .inr (.inl ⟨action, detail, entries, rfl, h⟩)
  | db call =>
    cases fault with
    | some e => exact .inl ⟨rfl, by simp⟩
    | none =>
      cases call with
      | spendLast24h => exact .inl ⟨rfl, by simp⟩
      | questionsThisMonth => exact .inl ⟨rfl, by simp⟩
      | platformSpendToday => exact .inl ⟨rfl, by simp⟩
      | search queryEmbedding k => exact .inl ⟨rfl, by simp⟩
      | retrievalStats => exact .inl ⟨rfl, by simp⟩
      | markBlocked answerId => exact .inr (.inr (.inr (.inl ⟨answerId, rfl, rfl, rfl⟩)))
      | finalizeAnswer answerId usage estimated =>
        exact .inr (.inr (.inr (.inr ⟨answerId, usage, estimated, rfl, rfl, rfl⟩)))
      | recordAnswer question provider refused =>
        show (Proc.transact (recordAnswerTx ctx question provider refused fresh now) db).2 = db ∧ _ ∨ _
        cases ht : recordAnswerTx ctx question provider refused fresh now db with
        | error e => exact .inl ⟨by rw [Proc.transact_of_error ht], by simp⟩
        | ok r =>
          obtain ⟨-, -, a, hid, horg, -, hcost, hcreated, hblocked, hdb⟩ := recordAnswerTx_ok ht
          refine .inr (.inr (.inl ⟨question, provider, refused, a, rfl, rfl, hid, horg, hcreated, hblocked, hcost, ?_⟩))
          show (Proc.transact (recordAnswerTx ctx question provider refused fresh now) db).2 = _
          rw [Proc.transact_of_ok ht, hdb]

end KnowledgeDesk.Proofs
