import KnowledgeDesk.Proofs.AskChecksProofs
import Mathlib.Algebra.Order.Ring.NNRat

/-!
# The answers of an org

How many unblocked answers an org has in a month and what it has spent in 24 hours, and what the three writes
of a stream do to these numbers.
-/

open Table

namespace KnowledgeDesk.Proofs

open Assistant Providers Stmt AskStreams

variable {env : Env} {org : Uuid}

/-! ## What is capped -/

/-- The answer belongs to the org, is not blocked, and was created in the calendar month of `now`. -/
def countsInMonth (org : Uuid) (now : Time) (a : Answer) : Bool :=
  a.orgId == org && !a.blocked && dateTruncMonth a.createdAt == dateTruncMonth now

/-- The org's unblocked answers created in the calendar month of `now`. -/
def unblockedInMonth (org : Uuid) (now : Time) (db : Db) : Nat := db.answers.countP (countsInMonth org now)

/-- The answer belongs to the org and was created in the 24 hours that end at `till`. -/
def createdIn24h (org : Uuid) (till : Time) (a : Answer) : Bool :=
  a.orgId == org && decide (till - seconds 86400 < a.createdAt) && decide (a.createdAt ≤ till)

/-- What is booked for the org's answers created in the 24 hours that end at `till`. -/
def spendIn24h (org : Uuid) (till : Time) (db : Db) : ℚ≥0 :=
  ((db.answers.filter (createdIn24h org till)).map (·.costUsd)).sum

/-- In no 24 hours the org's spend exceeds the budget by more than the cost of one of the answers. -/
def SpendWithinBudget (settings : Settings) (org : Uuid) (db : Db) : Prop :=
  ∀ till, spendIn24h org till db ≤ settings.dailyBudgetUsd ∨
    ∃ a ∈ db.answers, createdIn24h org till a = true ∧
      spendIn24h org till db ≤ settings.dailyBudgetUsd + a.costUsd

/-- The org is within its caps: in no calendar month it has more unblocked answers than the cap, and its
spend is within the budget. -/
structure WithinCaps (settings : Settings) (org : Uuid) (db : Db) : Prop where
  month : ∀ now, unblockedInMonth org now db ≤ settings.monthlyQuestionCap
  budget : SpendWithinBudget settings org db

/-! ## The writes -/

/-- The rows a stream's write of an answer matches are those with the id, in the caller's org. -/
abbrev answerRow (ctx : AuthContext) (answerId : Uuid) : Answer → Bool :=
  rls ctx.orgId Answer.orgId fun a => a.id == answerId && a.orgId == ctx.orgId

theorem answerRow_iff {ctx : AuthContext} {answerId : Uuid} {a : Answer} :
    answerRow ctx answerId a = true ↔ a.id = answerId ∧ a.orgId = ctx.orgId := by
  simp only [answerRow, rls, Bool.and_eq_true, beq_iff_eq]
  exact ⟨fun h => h.2, fun h => ⟨h.2, h⟩⟩

/-- The cost that an event books. -/
def bookedCost : AskEvent → ℚ≥0
  | .performed (.db (.finalizeAnswer _ usage _)) (.ok _) => usage.costUsd
  | _ => 0

/-- What an event of a stream of `ctx` at `now` does to the answers. -/
inductive AnswerWrite (ctx : AuthContext) (fresh : Uuid) (now : Time) (db db' : Db) : AskEvent → Prop
  | nothing {e : AskEvent} (hid : recordedId? e = none) (hcost : bookedCost e = 0)
      (hdb : db'.answers = db.answers) : AnswerWrite ctx fresh now db db' e
  | recorded {question provider : String} {refused : Bool} {a : Answer} (hid : a.id = fresh)
      (horg : a.orgId = ctx.orgId) (hcreated : a.createdAt = now) (hblocked : a.blocked = false)
      (hcost : a.costUsd = 0) (hdb : db'.answers = db.answers ++ [a]) :
      AnswerWrite ctx fresh now db db' (.performed (.db (.recordAnswer question provider refused)) (.ok fresh))
  | blocked {answerId : Uuid} {r : Except Err Unit}
      (hdb : db'.answers =
        updateWhere (answerRow ctx answerId) (fun a => { a with blocked := true }) db.answers) :
      AnswerWrite ctx fresh now db db' (.performed (.db (.markBlocked answerId)) r)
  | booked {answerId : Uuid} {usage : Usage} {estimated : Bool}
      (hdb : db'.answers = updateWhere (answerRow ctx answerId) (·.finalize usage estimated) db.answers) :
      AnswerWrite ctx fresh now db db' (.performed (.db (.finalizeAnswer answerId usage estimated)) (.ok ()))

theorem reply_write (ctx : AuthContext) (fresh : Uuid) (now : Time) (fault : Option Err) (reference : String)
    (db : Db) (o : AskOp) : AnswerWrite ctx fresh now db (reply env ctx fresh now fault reference db o).2
      (.performed o (reply env ctx fresh now fault reference db o).1) := by
  cases o with
  | receive event => exact .nothing rfl rfl rfl
  | tokenHex => exact .nothing rfl rfl rfl
  | audit action detail =>
    cases fault with
    | some e => exact .nothing rfl rfl rfl
    | none =>
      obtain ⟨entries, h⟩ := @auditLog_db env ctx.orgId ctx.userId action detail now db
      refine .nothing rfl rfl ?_
      show (auditLog env ctx.orgId (some ctx.userId) action detail now db).2.answers = db.answers
      rw [h]
  | db call =>
    cases fault with
    | some e => cases call <;> exact .nothing rfl rfl rfl
    | none =>
      cases call with
      | spendLast24h => exact .nothing rfl rfl rfl
      | questionsThisMonth => exact .nothing rfl rfl rfl
      | platformSpendToday => exact .nothing rfl rfl rfl
      | search queryEmbedding k => exact .nothing rfl rfl rfl
      | retrievalStats => exact .nothing rfl rfl rfl
      | markBlocked answerId => exact .blocked rfl
      | finalizeAnswer answerId usage estimated => exact .booked rfl
      | recordAnswer question provider refused =>
        show AnswerWrite ctx fresh now db
          (Proc.transact (recordAnswerTx ctx question provider refused fresh now) db).2
          (.performed (.db (.recordAnswer question provider refused))
            (Proc.transact (recordAnswerTx ctx question provider refused fresh now) db).1)
        cases ht : recordAnswerTx ctx question provider refused fresh now db with
        | error e =>
          rw [Proc.transact_of_error ht]
          exact .nothing rfl rfl rfl
        | ok r =>
          obtain ⟨hfresh, -, a, hid, horg, -, hcost, hcreated, hblocked, hdb⟩ := recordAnswerTx_ok ht
          rw [Proc.transact_of_ok ht, hfresh]
          exact .recorded hid horg hcreated hblocked hcost (by rw [hdb])

section Writes

variable {settings : Settings} {ctx : AuthContext} {fresh : Uuid} {now : Time} {db db' : Db} {e : AskEvent}

/-- The unblocked answers of a month whose ids `g` selects. -/
def selectedInMonth (g : Uuid → Bool) (org : Uuid) (month : Time) (db : Db) : Nat :=
  db.answers.countP fun a => countsInMonth org month a && g a.id

theorem selectedInMonth_true (month : Time) :
    selectedInMonth (fun _ => true) org month db = unblockedInMonth org month db := by
  simp only [selectedInMonth, unblockedInMonth, Bool.and_true]

theorem selectedInMonth_le (g : Uuid → Bool) (month : Time) :
    selectedInMonth g org month db ≤ unblockedInMonth org month db := by
  refine List.countP_mono_left fun a _ ha => ?_
  exact (Bool.and_eq_true_iff.1 ha).1

/-- A write adds to the unblocked answers of a month at most the one it records. -/
theorem AnswerWrite.month (h : AnswerWrite ctx fresh now db db' e) (org : Uuid) (g : Uuid → Bool) (month : Time) :
    selectedInMonth g org month db' ≤ selectedInMonth g org month db ∨
    (recordedId? e = some fresh ∧ ctx.orgId = org ∧ dateTruncMonth now = dateTruncMonth month ∧ g fresh = true ∧
      selectedInMonth g org month db' = selectedInMonth g org month db + 1) := by
  cases h with
  | nothing hid hcost hdb => exact .inl (by rw [selectedInMonth, selectedInMonth, hdb])
  | @recorded question provider refused a hid horg hcreated hblocked hcost hdb =>
    have hcount : selectedInMonth g org month db' = selectedInMonth g org month db +
        if (countsInMonth org month a && g a.id) = true then 1 else 0 := by
      rw [selectedInMonth, selectedInMonth, hdb, List.countP_append, List.countP_singleton]
    by_cases hc : (countsInMonth org month a && g a.id) = true
    · rw [if_pos hc] at hcount
      simp only [countsInMonth, Bool.and_eq_true, beq_iff_eq] at hc
      refine .inr ⟨rfl, horg ▸ hc.1.1.1, hcreated ▸ hc.1.2, hid ▸ hc.2, hcount⟩
    · rw [if_neg hc] at hcount
      exact .inl hcount.le
  | @blocked answerId r hdb =>
    refine .inl ?_
    rw [selectedInMonth, selectedInMonth, hdb, updateWhere, List.countP_map]
    refine List.countP_mono_left fun a _ ha => ?_
    rw [Function.comp_apply] at ha
    by_cases hp : answerRow ctx answerId a = true
    · rw [if_pos hp] at ha
      simp [countsInMonth] at ha
    · rwa [if_neg hp] at ha
  | @booked answerId usage estimated hdb =>
    refine .inl (le_of_eq ?_)
    rw [selectedInMonth, selectedInMonth, hdb, updateWhere, List.countP_map]
    refine List.countP_congr fun a _ => ?_
    rw [Function.comp_apply]
    split <;> rfl

/-- What a booking does to the answers of 24 hours: nothing, or it replaces the cost of one of them. -/
theorem window_booked {answerId : Uuid} {usage : Usage} {estimated : Bool} (hids : (db.answers.map (·.id)).Nodup)
    (hdb : db'.answers = updateWhere (answerRow ctx answerId) (·.finalize usage estimated) db.answers)
    (org : Uuid) (till : Time) :
    db'.answers.filter (createdIn24h org till) = db.answers.filter (createdIn24h org till) ∨
    (ctx.orgId = org ∧ ∃ a ∈ db.answers, a.id = answerId ∧ createdIn24h org till a = true ∧
      a.finalize usage estimated ∈ db'.answers ∧
      spendIn24h org till db' + a.costUsd = spendIn24h org till db + usage.costUsd) := by
  have hin24 : ∀ a : Answer, createdIn24h org till (a.finalize usage estimated) = createdIn24h org till a :=
    fun _ => rfl
  by_cases htouched : ∃ a ∈ db.answers, createdIn24h org till a = true ∧ a.id = answerId ∧ a.orgId = ctx.orgId
  · obtain ⟨a, ha, hin, rfl, hctx⟩ := htouched
    have horg : a.orgId = org := by
      simp only [createdIn24h, Bool.and_eq_true, beq_iff_eq] at hin
      exact hin.1.1
    refine .inr ⟨hctx ▸ horg, a, ha, rfl, hin, ?_, ?_⟩
    · rw [hdb]
      refine mem_updateWhere.2 ⟨a, ha, ?_⟩
      rw [if_pos (answerRow_iff.2 ⟨rfl, hctx⟩)]
    have hkeys : ((db.answers.filter (createdIn24h org till)).map (·.id)).Nodup :=
      hids.sublist (List.filter_sublist.map _)
    have hrows : updateWhere (answerRow ctx a.id) (·.finalize usage estimated)
        (db.answers.filter (createdIn24h org till)) =
        updateWhere (fun b => b.id == a.id) (·.finalize usage estimated)
          (db.answers.filter (createdIn24h org till)) := by
      refine List.map_congr_left fun b hb => ?_
      have hborg : b.orgId = ctx.orgId := by
        have hbin := (List.mem_filter.1 hb).2
        simp only [createdIn24h, Bool.and_eq_true, beq_iff_eq] at hbin
        rw [hbin.1.1, ← hctx, horg]
      by_cases hid : b.id = a.id
      · rw [if_pos (answerRow_iff.2 ⟨hid, hborg⟩), if_pos (beq_iff_eq.2 hid)]
      · rw [if_neg fun hp => hid (answerRow_iff.1 hp).1, if_neg fun hp => hid (beq_iff_eq.1 hp)]
    have hsum := sum_updateWhere_of_key (w := fun b : Answer => b.costUsd)
      (f := (·.finalize usage estimated)) hkeys (List.mem_filter.2 ⟨ha, hin⟩)
    rw [spendIn24h, spendIn24h, hdb, filter_updateWhere hin24, hrows]
    exact hsum
  · refine .inl ?_
    rw [hdb, filter_updateWhere hin24]
    refine updateWhere_of_forall_not fun b hb => ?_
    rw [← Bool.not_eq_true]
    intro hp
    exact htouched ⟨b, (List.mem_filter.1 hb).1, (List.mem_filter.1 hb).2, answerRow_iff.1 hp⟩

theorem spendIn24h_recorded {a : Answer} (hcost : a.costUsd = 0) (hdb : db'.answers = db.answers ++ [a])
    (till : Time) :
    spendIn24h org till db' = spendIn24h org till db := by
  rw [spendIn24h, spendIn24h, hdb, List.filter_append, List.map_append, List.sum_append]
  by_cases hc : createdIn24h org till a = true
  · simp [hc, hcost]
  · simp [hc]

theorem spendIn24h_blocked {answerId : Uuid}
    (hdb : db'.answers = updateWhere (answerRow ctx answerId) (fun a => { a with blocked := true }) db.answers)
    (till : Time) : spendIn24h org till db' = spendIn24h org till db := by
  have hin24 : ∀ a : Answer, createdIn24h org till { a with blocked := true } = createdIn24h org till a :=
    fun _ => rfl
  have hcosts : ∀ a : Answer, ({ a with blocked := true } : Answer).costUsd = a.costUsd := fun _ => rfl
  rw [spendIn24h, spendIn24h, hdb, filter_updateWhere hin24, map_updateWhere _ hcosts]

/-- A write adds to the spend of 24 hours at most what it books. -/
theorem AnswerWrite.spend (h : AnswerWrite ctx fresh now db db' e) (hids : (db.answers.map (·.id)).Nodup)
    (org : Uuid) (till : Time) :
    spendIn24h org till db' ≤ spendIn24h org till db + if ctx.orgId = org then bookedCost e else 0 := by
  cases h with
  | nothing hid hcost hdb =>
    rw [spendIn24h, spendIn24h, hdb]
    exact le_self_add
  | recorded hid horg hcreated hblocked hcost hdb =>
    rw [spendIn24h_recorded hcost hdb]
    exact le_self_add
  | blocked hdb =>
    rw [spendIn24h_blocked hdb]
    exact le_self_add
  | @booked answerId usage estimated hdb =>
    rcases window_booked hids hdb org till with hsame | ⟨hctx, a, -, -, -, -, hspend⟩
    · rw [spendIn24h, spendIn24h, hsame]
      exact le_self_add
    · rw [if_pos hctx]
      exact le_self_add.trans hspend.le

/-- A write keeps the budget if no 24 hours around an answer that is booked are over it. -/
theorem AnswerWrite.spendWithinBudget (h : AnswerWrite ctx fresh now db db' e)
    (hids : (db.answers.map (·.id)).Nodup) (hb : SpendWithinBudget settings org db)
    (hroom : ∀ answerId usage estimated, e = .performed (.db (.finalizeAnswer answerId usage estimated)) (.ok ()) →
      ctx.orgId = org → ∀ a ∈ db.answers, a.id = answerId → ∀ till, createdIn24h org till a = true →
        spendIn24h org till db ≤ settings.dailyBudgetUsd) : SpendWithinBudget settings org db' := by
  intro till
  cases h with
  | nothing hid hcost hdb =>
    rw [spendIn24h, hdb]
    exact hb till
  | recorded hid horg hcreated hblocked hcost hdb =>
    rw [spendIn24h_recorded hcost hdb, hdb]
    exact (hb till).imp_right (Exists.imp fun b hb => ⟨List.mem_append_left _ hb.1, hb.2⟩)
  | @blocked answerId r hdb =>
    rw [spendIn24h_blocked hdb]
    refine (hb till).imp_right ?_
    rintro ⟨a, ha, hin, hle⟩
    have hrow : ∀ b : Answer, b = (if answerRow ctx answerId a then { a with blocked := true } else a) →
        createdIn24h org till b = createdIn24h org till a ∧ b.costUsd = a.costUsd := by
      rintro b rfl
      split <;> exact ⟨rfl, rfl⟩
    refine ⟨_, ?_, (hrow _ rfl).1.trans hin, ?_⟩
    · rw [hdb]
      exact mem_updateWhere.2 ⟨a, ha, rfl⟩
    · rw [(hrow _ rfl).2]
      exact hle
  | @booked answerId usage estimated hdb =>
    rcases window_booked hids hdb org till with hsame | ⟨hctx, a, ha, hid, hin, hmem, hspend⟩
    · rw [spendIn24h, hsame]
      refine (hb till).imp_right ?_
      rintro ⟨b, hb, hin, hle⟩
      have hb' : b ∈ db'.answers.filter (createdIn24h org till) := by
        rw [hsame]
        exact List.mem_filter.2 ⟨hb, hin⟩
      exact ⟨b, (List.mem_filter.1 hb').1, hin, hle⟩
    · -- the cost of this answer is all that is added, and the spend was within the budget
      have hbudget := hroom answerId usage estimated rfl hctx a ha hid till hin
      refine .inr ⟨a.finalize usage estimated, hmem, hin, ?_⟩
      show spendIn24h org till db' ≤ settings.dailyBudgetUsd + usage.costUsd
      calc spendIn24h org till db' ≤ spendIn24h org till db' + a.costUsd := le_self_add
        _ = spendIn24h org till db + usage.costUsd := hspend
        _ ≤ settings.dailyBudgetUsd + usage.costUsd := add_le_add_left hbudget _

/-- A write leaves the ids and the creation times of the answers, and may add one answer. -/
theorem AnswerWrite.rows (h : AnswerWrite ctx fresh now db db' e) :
    db'.answers.map (fun a => (a.id, a.createdAt)) = db.answers.map (fun a => (a.id, a.createdAt)) ∧
      recordedId? e = none ∨
    recordedId? e = some fresh ∧
      db'.answers.map (fun a => (a.id, a.createdAt)) =
        db.answers.map (fun a => (a.id, a.createdAt)) ++ [(fresh, now)] := by
  cases h with
  | nothing hid hcost hdb => exact .inl ⟨by rw [hdb], hid⟩
  | recorded hid horg hcreated hblocked hcost hdb =>
    refine .inr ⟨rfl, ?_⟩
    rw [hdb, List.map_append, List.map_singleton, hid, hcreated]
  | blocked hdb => exact .inl ⟨by rw [hdb]; exact map_updateWhere _ fun _ => rfl, rfl⟩
  | booked hdb => exact .inl ⟨by rw [hdb]; exact map_updateWhere _ fun _ => rfl, rfl⟩

end Writes

end KnowledgeDesk.Proofs
