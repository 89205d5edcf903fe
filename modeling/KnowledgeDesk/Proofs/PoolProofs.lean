import KnowledgeDesk.Pool

/-!
# A pooled connection has the tenant of its block and no other

The pool with the setting `app.current_org` does what blocks would do that had a tenant each, in any run,
under the policy of 0008; under the one of 0007 it does so too, but for the blocks without a tenant that
come to a recycled connection, which raise.
-/

open Table

namespace KnowledgeDesk.Proofs

open Runs

variable {ρ : Type} {orgId : ρ → Uuid} {rows : List ρ} {strict : Bool}

/-! ## Statements under a policy that answers -/

section

variable {check : Uuid → Except StatementError Bool} {p chosen : ρ → Bool}
  {g : ρ → Except StatementError (ρ × Option ρ)} {row : ρ}

/-- The policy answers on the row, and the statement chooses it or does not. -/
def Tests (orgId : ρ → Uuid) (check : Uuid → Except StatementError Bool) (p chosen : ρ → Bool) (row : ρ) : Prop :=
  ∃ visible, check (orgId row) = .ok visible ∧ (visible && p row) = chosen row

theorem sweep_cons_chosen {r : ρ × Option ρ} (ht : Tests orgId check p chosen row) (hc : chosen row = true)
    (hg : g row = .ok r) : Statement.sweep orgId check p g (row :: rows)
      = (Statement.sweep orgId check p g rows).map fun q => (r.1 :: q.1, r.2.toList ++ q.2) := by
  obtain ⟨visible, hcheck, hv⟩ := ht
  simp only [Statement.sweep, hcheck, bind, Except.bind, hv, hc, hg, if_true]
  cases Statement.sweep orgId check p g rows <;> rfl

theorem sweep_cons_skipped (ht : Tests orgId check p chosen row) (hc : chosen row = false) :
    Statement.sweep orgId check p g (row :: rows)
      = (Statement.sweep orgId check p g rows).map fun q => (q.1, row :: q.2) := by
  obtain ⟨visible, hcheck, hv⟩ := ht
  simp only [Statement.sweep, hcheck, bind, Except.bind, hv, hc, Bool.false_eq_true, if_false]
  cases Statement.sweep orgId check p g rows <;> rfl

theorem sweep_cons_error {e : StatementError} (ht : Tests orgId check p chosen row) (hc : chosen row = true)
    (hg : g row = .error e) : Statement.sweep orgId check p g (row :: rows) = .error e := by
  obtain ⟨visible, hcheck, hv⟩ := ht
  simp only [Statement.sweep, hcheck, bind, Except.bind, hv, hc, hg, if_true]

/-- The statement goes through on all rows it chooses. -/
theorem sweep_ok {h : ρ → ρ × Option ρ} (ht : ∀ row ∈ rows, Tests orgId check p chosen row)
    (hg : ∀ row ∈ rows, chosen row = true → g row = .ok (h row)) :
    Statement.sweep orgId check p g rows = .ok ((rows.filter chosen).map fun row => (h row).1,
      rows.filterMap fun row => if chosen row then (h row).2 else some row) := by
  induction rows with
  | nil => rfl
  | cons row rows ih =>
    have hrest := ih (fun r hr => ht r (List.mem_cons_of_mem _ hr)) fun r hr => hg r (List.mem_cons_of_mem _ hr)
    have htest := ht row List.mem_cons_self
    cases hc : chosen row with
    | true =>
      rw [sweep_cons_chosen htest hc (hg row List.mem_cons_self hc), hrest]
      cases hleft : (h row).2 <;> simp [Except.map, hc, hleft]
    | false =>
      rw [sweep_cons_skipped htest hc, hrest]
      simp [Except.map, hc]

/-- It fails on one of them, and could fail on others in one way only. -/
theorem sweep_error {e : StatementError} (ht : ∀ row ∈ rows, Tests orgId check p chosen row)
    (hg : ∀ row ∈ rows, chosen row = true → (∃ r, g row = .ok r) ∨ g row = .error e)
    (hex : ∃ row ∈ rows, chosen row = true ∧ g row = .error e) :
    Statement.sweep orgId check p g rows = .error e := by
  induction rows with
  | nil => simp at hex
  | cons row rows ih =>
    have hrest := ih (fun r hr => ht r (List.mem_cons_of_mem _ hr)) fun r hr => hg r (List.mem_cons_of_mem _ hr)
    have htest := ht row List.mem_cons_self
    obtain ⟨bad, hbad, hchosen, he⟩ := hex
    rcases List.mem_cons.1 hbad with rfl | hbad
    · exact sweep_cons_error htest hchosen he
    · have hrest := hrest ⟨bad, hbad, hchosen, he⟩
      cases hc : chosen row with
      | true =>
        rcases hg row List.mem_cons_self hc with ⟨r, hr⟩ | hr
        · rw [sweep_cons_chosen htest hc hr, hrest]
          rfl
        · exact sweep_cons_error htest hc hr
      | false =>
        rw [sweep_cons_skipped htest hc, hrest]
        rfl

theorem updateWhere_eq_filterMap {f : ρ → ρ} :
    updateWhere p f rows = rows.filterMap fun row => if p row then some (f row) else some row := by
  rw [updateWhere, ← List.filterMap_eq_map]
  refine List.filterMap_congr fun row _ => ?_
  simp only [Function.comp]
  split <;> rfl

/-- Where the policy answers yes on the block's rows and no on the others, a statement does what the block
may do. -/
theorem execute_eq (b : ConnectBlock) (statement : Statement ρ)
    (hcheck : ∀ row : ρ, check (orgId row) = .ok (b.sees orgId row)) :
    statement.execute orgId check rows = b.outcome orgId rows statement := by
  have ht : ∀ p, ∀ row ∈ rows, Tests orgId check p (fun row => b.sees orgId row && p row) row :=
    fun p row _ => ⟨b.sees orgId row, hcheck row, rfl⟩
  have hwith : ∀ row, Statement.withCheck orgId check row =
      if b.sees orgId row then .ok row else .error .insufficientPrivilege := by
    intro row
    simp [Statement.withCheck, hcheck, bind, Except.bind]
  cases statement with
  | select p =>
    rw [Statement.execute, sweep_ok (h := fun row => (row, some row)) (ht p) fun _ _ _ => rfl]
    simp [ConnectBlock.outcome]
  | insert row =>
    rw [Statement.execute, hwith, ConnectBlock.outcome]
    split <;> rfl
  | update p f =>
    have hg : ∀ row, (Statement.withCheck orgId check (f row)).map (fun row => (row, some row)) =
        if b.sees orgId (f row) then .ok (f row, some (f row)) else .error .insufficientPrivilege := by
      intro row
      rw [hwith]
      split <;> rfl
    rw [Statement.execute, ConnectBlock.outcome]
    by_cases hall : ∀ row ∈ rows, (b.sees orgId row && p row) = true → b.sees orgId (f row) = true
    · rw [sweep_ok (h := fun row => (f row, some (f row))) (ht p) fun row hrow hc => by
        rw [hg, if_pos (hall row hrow hc)], if_pos hall]
      exact congrArg Except.ok (Prod.ext rfl updateWhere_eq_filterMap.symm)
    · rw [if_neg hall]
      simp only [not_forall] at hall
      obtain ⟨row, hrow, hc, hnot⟩ := hall
      refine sweep_error (ht p) (fun row' _ _ => ?_) ⟨row, hrow, hc, by rw [hg, if_neg hnot]⟩
      rw [hg]
      split
      · exact .inl ⟨_, rfl⟩
      · exact .inr rfl
  | delete p =>
    rw [Statement.execute, sweep_ok (h := fun row => (row, none)) (ht p) fun _ _ _ => rfl]
    simp [ConnectBlock.outcome, deleteWhere_eq_filterMap]

/-- Where it raises on every row, so does a statement that tests one. -/
theorem execute_error {e : StatementError} (statement : Statement ρ) (hcheck : ∀ row : ρ, check (orgId row) = .error e)
    (htests : statement.tests rows = true) : statement.execute orgId check rows = .error e := by
  have hsweep : ∀ (p : ρ → Bool) g, rows ≠ [] → Statement.sweep orgId check p g rows = .error e := by
    intro p g hne
    cases rows with
    | nil => exact absurd rfl hne
    | cons row rows => simp [Statement.sweep, hcheck, bind, Except.bind]
  cases statement with
  | insert row => simp [Statement.execute, Statement.withCheck, hcheck, bind, Except.bind, Except.map]
  | select p | update p f | delete p => exact hsweep _ _ (by simpa [Statement.tests] using htests)

/-- One that tests none leaves it all. -/
theorem execute_of_tests (b : ConnectBlock) {statement : Statement ρ} (htests : statement.tests rows = false) :
    statement.execute orgId check rows = b.outcome orgId rows statement := by
  cases statement with
  | insert row => cases htests
  | select p | update p f | delete p =>
    obtain rfl : rows = [] := by simpa [Statement.tests] using htests
    simp [Statement.execute, Statement.sweep, ConnectBlock.outcome, updateWhere, deleteWhere]

end

/-! ## What a connection carries -/

/-- The policy the pool runs under. -/
def policyOf (strict : Bool) : Policy := if strict then orgIsolation0007 else orgIsolation0008

/-- A connection of the pool, and what it is to the blocks: the tenant is in the setting, for the
transaction only, and a tenant that is gone has left an empty text. -/
structure CarriesTenant (c : PooledConn) (slot : Slot) : Prop where
  borrowed : c.borrowed = slot.block.isSome
  inTx : c.currentOrg.inTx = (slot.block.bind (·.orgId)).map some
  pending : c.currentOrg.pending = none
  session : c.currentOrg.session = if slot.recycled then some none else none
  failed : c.status = .inError ↔ ∃ b, slot.block = some b ∧ b.failed = true

/-- What every connection has from `_configure`, whoever borrows it. -/
def Configured (c : PooledConn) : Prop := c.iterativeScan = ⟨some .relaxedOrder, none, none⟩

theorem carries_configured : CarriesTenant .configured ⟨false, none⟩ := by
  refine ⟨rfl, rfl, rfl, rfl, ?_⟩
  simp [PooledConn.configured, PooledConn.endTransaction]

theorem configured_configured : Configured .configured := by
  simp [Configured, PooledConn.configured, PooledConn.endTransaction, SessionSetting.commit, SessionSetting.set,
    SessionSetting.touched, SessionSetting.unset]

variable {c : PooledConn} {slot : Slot} {b : ConnectBlock}

/-- What the setting reads in a block: its tenant, and without one null or an empty text. -/
theorem CarriesTenant.current (h : CarriesTenant c slot) (hb : slot.block = some b) :
    c.currentOrg.current = match b.orgId with
      | some org => some (some org)
      | none => if slot.recycled then some none else none := by
  rw [SessionSetting.current, h.inTx, h.pending, h.session, hb]
  cases horg : b.orgId <;> simp [horg]

/-- What the policy answers on a row. -/
theorem CarriesTenant.policy (h : CarriesTenant c slot) (hb : slot.block = some b) (row : ρ) :
    policyOf strict c.currentOrg.current (orgId row) =
      if strict && slot.recycled && b.orgId.isNone then .error .invalidTextRepresentation
      else .ok (b.sees orgId row) := by
  rw [h.current hb]
  cases horg : b.orgId <;> cases strict <;> cases slot.recycled <;>
    simp [policyOf, orgIsolation0007, orgIsolation0008, orgIdIs, nullifEmpty, OrgText.toUuid, ConnectBlock.sees, horg,
      Except.map]

/-- A statement comes to what it does for the block. -/
theorem CarriesTenant.outcome (h : CarriesTenant c slot) (hb : slot.block = some b) (statement : Statement ρ) :
    c.outcome (policyOf strict) orgId rows statement = slot.outcome strict orgId rows statement b := by
  have hfailed : c.status = .inError ↔ b.failed = true := by simp [h.failed, hb]
  by_cases hb' : b.failed = true
  · simp [PooledConn.outcome, Slot.outcome, hfailed.2 hb', hb']
  rw [PooledConn.outcome, if_neg (mt hfailed.1 hb'), Slot.outcome, if_neg hb']
  by_cases hraises : (strict && slot.recycled && b.orgId.isNone) = true
  · have hcheck : ∀ row : ρ, policyOf strict c.currentOrg.current (orgId row) = .error .invalidTextRepresentation :=
      fun row => by rw [h.policy hb, if_pos hraises]
    cases htests : statement.tests rows with
    | true => rw [execute_error statement hcheck htests, hraises, Bool.true_and, if_pos rfl]
    | false => rw [execute_of_tests b htests, Bool.and_false, if_neg Bool.false_ne_true]
  · rw [Bool.eq_false_iff.2 hraises, Bool.false_and, if_neg Bool.false_ne_true]
    exact execute_eq b statement fun row => by rw [h.policy hb, if_neg hraises]

theorem CarriesTenant.connect (h : CarriesTenant c slot) (hb : slot.block = none) (org : Option Uuid) :
    CarriesTenant (c.connect org) ⟨slot.recycled, some ⟨org, false⟩⟩ := by
  have hok : c.status ≠ .inError := by simp [h.failed, hb]
  have hinTx : c.currentOrg.inTx = none := by rw [h.inTx, hb]; rfl
  cases org with
  | none => exact ⟨rfl, hinTx, h.pending, h.session, by simp [PooledConn.connect, hok]⟩
  | some org => exact ⟨rfl, rfl, h.pending, h.session, by simp [PooledConn.connect]⟩

theorem CarriesTenant.execute (h : CarriesTenant c slot) (hb : slot.block = some b) (o : Outcome ρ) :
    CarriesTenant { c with status := match o with | .ok _ => .inTrans | .error _ => .inError, borrowed := true }
      { slot with block := some { b with failed := match o with | .ok _ => false | .error _ => true } } := by
  refine ⟨rfl, by rw [h.inTx, hb]; rfl, h.pending, h.session, ?_⟩
  cases o <;> simp

/-- The end of a transaction takes the tenant off. -/
theorem CarriesTenant.endTransaction (h : CarriesTenant c slot) (hb : slot.block = some b) (commit : Bool) :
    CarriesTenant (c.endTransaction commit) (slot.endTransaction b (some ⟨none, false⟩)) := by
  have hend : (c.endTransaction commit).currentOrg = c.currentOrg.rollback none := by
    unfold PooledConn.endTransaction
    split
    · exact SessionSetting.commit_of_pending h.pending
    · rfl
  have hidle : (c.endTransaction commit).status = .idle := by
    unfold PooledConn.endTransaction
    split <;> rfl
  have hborrowed : (c.endTransaction commit).borrowed = c.borrowed := by
    unfold PooledConn.endTransaction
    split <;> rfl
  obtain ⟨hinTx, hpending⟩ := SessionSetting.touched_eq_false.1
    (SessionSetting.touched_rollback c.currentOrg none)
  refine ⟨by rw [hborrowed, h.borrowed, hb]; rfl, hend ▸ hinTx, hend ▸ hpending, ?_, ?_⟩
  · rw [hend, SessionSetting.session_rollback, h.session, SessionSetting.touched, h.inTx, h.pending, hb]
    cases hrecycled : slot.recycled <;> cases horg : b.orgId <;> simp [Slot.endTransaction, hrecycled, horg]
  · simp [hidle, Slot.endTransaction]

/-- A block that has nothing open gives its connection back. -/
theorem CarriesTenant.leave (h : CarriesTenant c slot) (hb : slot.block = some ⟨none, false⟩) :
    CarriesTenant { c with borrowed := false } { slot with block := none } := by
  have hinTx : c.currentOrg.inTx = none := by rw [h.inTx, hb]; rfl
  have hok : c.status ≠ .inError := by simp [h.failed, hb]
  exact ⟨rfl, hinTx, h.pending, h.session, by simp [hok]⟩

theorem configured_endTransaction (h : Configured c) (commit : Bool) : Configured (c.endTransaction commit) := by
  have huntouched : c.iterativeScan.touched = false := by rw [h]; rfl
  unfold PooledConn.endTransaction
  split
  · exact (SessionSetting.commit_of_untouched huntouched).trans h
  · exact (SessionSetting.rollback_of_untouched huntouched).trans h

/-! ## Runs -/

/-- A connection of the pool against the slot of the blocks. -/
inductive SlotOf : Option PooledConn → Option Slot → Prop
  | closed : SlotOf none none
  | opened {c : PooledConn} {slot : Slot} (carries : CarriesTenant c slot) (configured : Configured c) :
      SlotOf (some c) (some slot)

/-- An event returns the same. -/
theorem CarriesTenant.returns (h : CarriesTenant c slot) (event : PoolEvent ρ) :
    c.returns (policyOf strict) orgId event = slot.returns strict orgId event := by
  cases event with
  | execute rows statement =>
    rw [PooledConn.returns, Slot.returns, h.borrowed]
    cases hb : slot.block with
    | none => rfl
    | some b => simp [h.outcome hb]
  | opened | borrow org | commit | rollback | leave clean | lost => rfl

/-- An event keeps the two alike. -/
theorem CarriesTenant.step (h : CarriesTenant c slot) (hconf : Configured c) (event : PoolEvent ρ) :
    SlotOf (c.step (policyOf strict) orgId event) (slot.step strict orgId event) := by
  have hborrowed := h.borrowed
  cases hb : slot.block with
  | none =>
    rw [hb, Option.isSome_none] at hborrowed
    cases event with
    | borrow org =>
      simp only [PooledConn.step, Slot.step, hb, hborrowed, Bool.false_eq_true, if_false]
      refine .opened (h.connect hb org) ?_
      cases org <;> exact hconf
    | lost => simpa only [Slot.step, hb] using .closed
    | opened => simpa only [Slot.step, hb] using .opened h hconf
    | execute | commit | rollback | leave =>
      simpa only [PooledConn.step, Slot.step, hb, hborrowed, Bool.false_eq_true, if_false] using .opened h hconf
  | some b =>
    rw [hb, Option.isSome_some] at hborrowed
    cases event with
    | execute rows statement =>
      simp only [PooledConn.step, Slot.step, hb, hborrowed, if_true, h.outcome hb]
      exact .opened (h.execute hb _) hconf
    | commit | rollback =>
      simp only [PooledConn.step, Slot.step, hb, hborrowed, if_true]
      exact .opened (h.endTransaction hb _) (configured_endTransaction hconf _)
    | leave clean =>
      simp only [PooledConn.step, Slot.step, hb, hborrowed, if_true]
      exact .opened ((h.endTransaction hb clean).leave rfl) (configured_endTransaction hconf clean)
    | lost => simpa only [Slot.step, hb] using .closed
    | opened => simpa only [Slot.step, hb] using .opened h hconf
    | borrow org => simpa only [PooledConn.step, Slot.step, hb, hborrowed, if_true] using .opened h hconf

/-- The pool is in a state as the blocks are. -/
def Simulates (s : Pool) (t : Blocks) : Prop := ∀ conn, SlotOf (s conn) (t conn)

variable {s : Pool} {t : Blocks} {conn : Nat}

theorem Simulates.returns (h : Simulates s t) (l : Nat × PoolEvent ρ) :
    Pool.returns (policyOf strict) orgId s l = Blocks.returns strict orgId t l := by
  have hm := h l.1
  rw [Pool.returns, Blocks.returns]
  generalize s l.1 = x at hm
  generalize t l.1 = y at hm
  cases hm with
  | closed => rfl
  | opened hc _ => exact hc.returns l.2

theorem Simulates.step (h : Simulates s t) (l : Nat × PoolEvent ρ) :
    Simulates (Pool.step (policyOf strict) orgId s l) (Blocks.step strict orgId t l) := by
  intro conn
  by_cases he : conn = l.1
  · subst he
    have hm := h l.1
    rw [Pool.step, Blocks.step, Function.update_self, Function.update_self]
    generalize s l.1 = x at hm
    generalize t l.1 = y at hm
    cases hm with
    | closed =>
      cases l.2 with
      | opened => exact .opened carries_configured configured_configured
      | borrow | execute | commit | rollback | leave | lost => exact .closed
    | opened hc hconf => exact hc.step hconf l.2
  · rw [Pool.step, Blocks.step, Function.update_of_ne he, Function.update_of_ne he]
    exact h conn

theorem simulates_run (strict : Bool) (orgId : ρ → Uuid) (ls : List (Nat × PoolEvent ρ)) :
    Simulates (run (Pool.step (policyOf strict) orgId) Pool.start ls)
      (run (Blocks.step strict orgId) Blocks.start ls) := by
  suffices h : ∀ s t, Simulates s t →
      Simulates (run (Pool.step (policyOf strict) orgId) s ls) (run (Blocks.step strict orgId) t ls) from
    h _ _ fun _ => .closed
  induction ls with
  | nil => exact fun s t h => h
  | cons l ls ih => exact fun s t h => ih _ _ (h.step l)

/-- Whatever blocks come and go and whatever becomes of their transactions, each of their statements comes
to what it would for a block that has its tenant from its entry to the end of its first transaction. Only
the policy of 0007 tells a connection that has had a tenant from one that has not: it raises for the
blocks that have none. -/
theorem pool_refines_blocks (strict : Bool) (orgId : ρ → Uuid) (ls : List (Nat × PoolEvent ρ))
    (l : Nat × PoolEvent ρ) :
    Pool.returns (policyOf strict) orgId (run (Pool.step (policyOf strict) orgId) Pool.start ls) l
      = Blocks.returns strict orgId (run (Blocks.step strict orgId) Blocks.start ls) l :=
  (simulates_run strict orgId ls).returns l

/-! ## From the entry of a block to its end -/

/-- The block that has the connection has a tenant in `orgs`. -/
def ServingBlock (conn : Nat) (orgs : Option Uuid → Prop) (t : Blocks) : Prop :=
  ∃ slot b, t conn = some slot ∧ slot.block = some b ∧ orgs b.orgId

/-- The event neither ends the block nor loses its connection. -/
def Stays : PoolEvent ρ → Prop
  | .leave _ | .lost => False
  | _ => True

/-- The event does not end a transaction of the block. -/
def KeepsOpen : PoolEvent ρ → Prop
  | .commit | .rollback => False
  | _ => True

variable {orgs : Option Uuid → Prop}

theorem ServingBlock.step (strict : Bool) (orgId : ρ → Uuid) (h : ServingBlock conn orgs t) {l : Nat × PoolEvent ρ}
    (hl : l.1 = conn → Stays l.2 ∧ (KeepsOpen l.2 ∨ orgs none)) :
    ServingBlock conn orgs (Blocks.step strict orgId t l) := by
  obtain ⟨slot, b, hslot, hb, horgs⟩ := h
  by_cases he : conn = l.1
  · subst he
    obtain ⟨hstays, hopen⟩ := hl rfl
    rw [ServingBlock, Blocks.step, Function.update_self, hslot]
    cases hevent : l.2 with
    | opened | borrow org =>
      simp only [Slot.step, hb]
      exact ⟨slot, b, rfl, hb, horgs⟩
    | execute rows statement =>
      simp only [Slot.step, hb]
      exact ⟨_, _, rfl, rfl, horgs⟩
    | commit | rollback =>
      rw [hevent] at hopen
      simp only [Slot.step, hb]
      exact ⟨_, _, rfl, rfl, hopen.resolve_left id⟩
    | leave clean | lost => exact absurd hstays (by simp [hevent, Stays])
  · exact ⟨slot, b, by rw [Blocks.step, Function.update_of_ne he, hslot], hb, horgs⟩

theorem ServingBlock.run (strict : Bool) (orgId : ρ → Uuid) (h : ServingBlock conn orgs t)
    {ls : List (Nat × PoolEvent ρ)} (hls : ∀ l ∈ ls, l.1 = conn → Stays l.2 ∧ (KeepsOpen l.2 ∨ orgs none)) :
    ServingBlock conn orgs (run (Blocks.step strict orgId) t ls) := by
  induction ls generalizing t with
  | nil => exact h
  | cons l ls ih =>
    exact ih (h.step strict orgId (hls l List.mem_cons_self)) fun l' hl' => hls l' (List.mem_cons_of_mem _ hl')

/-- What a block's statement that goes through returns and leaves, for the organisations that are not the
block's tenant. -/
theorem outcome_foreign {statement : Statement ρ} {returned left : List ρ}
    (h : b.outcome orgId rows statement = .ok (returned, left)) {org : Uuid} (horg : b.orgId ≠ some org) :
    (∀ row ∈ returned, orgId row ≠ org) ∧
      left.filter (fun row => orgId row == org) = rows.filter fun row => orgId row == org := by
  have hsees : ∀ row, b.sees orgId row = true → orgId row ≠ org := by
    rintro row hrow rfl
    cases hb : b.orgId with
    | none => simp [ConnectBlock.sees, hb] at hrow
    | some o =>
      have ho : orgId row = o := by simpa [ConnectBlock.sees, hb] using hrow
      exact horg (by rw [hb, ho])
  have hchosen : ∀ {p : ρ → Bool} row, (b.sees orgId row && p row) = true → orgId row ≠ org :=
    fun row hrow => hsees row (Bool.and_eq_true_iff.1 hrow).1
  cases statement with
  | select p =>
    cases h
    exact ⟨fun row hrow => hchosen row (List.mem_filter.1 hrow).2, rfl⟩
  | insert row =>
    rw [ConnectBlock.outcome] at h
    split at h
    · cases h
      have hrow := hsees row ‹_›
      exact ⟨by simpa using hrow, by simp [List.filter_append, hrow]⟩
    · cases h
  | update p f =>
    rw [ConnectBlock.outcome] at h
    split at h
    · rename_i hall
      cases h
      refine ⟨fun row hrow => ?_, filter_updateWhere_of_disjoint (fun row _ hc => ?_) fun row hrow hc => ?_⟩
      · obtain ⟨row', hrow', rfl⟩ := List.mem_map.1 hrow
        obtain ⟨hmem, hc⟩ := List.mem_filter.1 hrow'
        exact hsees _ (hall row' hmem hc)
      · exact beq_eq_false_iff_ne.2 (hchosen row hc)
      · exact beq_eq_false_iff_ne.2 (hsees _ (hall row hrow hc))
    · cases h
  | delete p =>
    cases h
    exact ⟨fun row hrow => hchosen row (List.mem_filter.1 hrow).2,
      filter_deleteWhere_of_disjoint fun row _ hc => beq_eq_false_iff_ne.2 (hchosen row hc)⟩

/-- From the entry of a block `with connect(org_id)` to its end, whichever connection it is handed and
whatever else happens, a statement that goes through returns no row of another organisation and leaves
the rows of all others as they are; with no `org_id` that is every row. Within the first transaction a
select returns what `rls` lets through, and no less. -/
theorem block_isolated (strict : Bool) (orgId : ρ → Uuid) (ls ls' : List (Nat × PoolEvent ρ)) (conn : Nat)
    (org : Option Uuid) {rows : List ρ} {statement : Statement ρ} {returned left : List ρ}
    (hidle : ∃ c, run (Pool.step (policyOf strict) orgId) Pool.start ls conn = some c ∧ c.borrowed = false)
    (hstays : ∀ l ∈ ls', l.1 = conn → Stays l.2)
    (hreturns : Pool.returns (policyOf strict) orgId
      (run (Pool.step (policyOf strict) orgId) Pool.start (ls ++ (conn, .borrow org) :: ls'))
      (conn, .execute rows statement) = some (.ok (returned, left))) :
    (∀ o, org ≠ some o → (∀ row ∈ returned, orgId row ≠ o) ∧
      left.filter (fun row => orgId row == o) = rows.filter fun row => orgId row == o) ∧
    ((∀ l ∈ ls', l.1 = conn → KeepsOpen l.2) → ∀ o, org = some o → ∀ p, statement = .select p →
      returned = rows.filter (rls o orgId p)) := by
  -- the block has the connection, with its tenant
  have hentered : ∀ orgs : Option Uuid → Prop, orgs org → ServingBlock conn orgs
      (Blocks.step strict orgId (run (Blocks.step strict orgId) Blocks.start ls) (conn, .borrow org)) := by
    intro orgs horgs
    obtain ⟨c, hc, hfree⟩ := hidle
    have hm := simulates_run strict orgId ls conn
    rw [hc] at hm
    generalize ht : run (Blocks.step strict orgId) Blocks.start ls conn = slot at hm
    cases hm with
    | @opened _ slot hcarries _ =>
      have hnone : slot.block = none := by
        have hb := hcarries.borrowed
        rwa [hfree, eq_comm, Option.isSome_eq_false_iff, Option.isNone_iff_eq_none] at hb
      rw [ServingBlock, Blocks.step, Function.update_self, ht]
      simp only [Slot.step, hnone]
      exact ⟨_, _, rfl, rfl, horgs⟩
  have houtcome : ∀ orgs : Option Uuid → Prop, orgs org →
      (∀ l ∈ ls', l.1 = conn → KeepsOpen l.2 ∨ orgs none) →
      ∃ b : ConnectBlock, orgs b.orgId ∧ b.outcome orgId rows statement = .ok (returned, left) := by
    intro orgs horgs hopen
    rw [(simulates_run strict orgId _).returns, run_append, run_cons] at hreturns
    obtain ⟨slot, b, hslot, hb, hb'⟩ :=
      (hentered orgs horgs).run strict orgId fun l hl he => ⟨hstays l hl he, hopen l hl he⟩
    refine ⟨b, hb', ?_⟩
    simp only [Blocks.returns, hslot, Option.bind_some, Slot.returns, hb, Option.map_some, Option.some.injEq,
      Slot.outcome] at hreturns
    split at hreturns
    · cases hreturns
    · split at hreturns
      · cases hreturns
      · exact hreturns
  constructor
  · intro o ho
    obtain ⟨b, hb, hout⟩ := houtcome (· ≠ some o) ho fun _ _ _ => .inr (by simp)
    exact outcome_foreign hout hb
  · rintro hopen o rfl p rfl
    obtain ⟨b, hb, hout⟩ := houtcome (· = some o) rfl fun l hl he => .inl (hopen l hl he)
    simp only [ConnectBlock.outcome, Except.ok.injEq, Prod.mk.injEq] at hout
    rw [← hout.1]
    refine List.filter_congr fun row _ => ?_
    simp [ConnectBlock.sees, rls, hb]

/-- On a connection that has had another tenant. -/
theorem block_isolated_recycled : ([2] : List Uuid) = [1, 2].filter (rls 2 id fun _ => true) :=
  (block_isolated false id
    [(0, .opened), (0, .borrow (some 1)), (0, .execute [1, 2] (.select fun _ => true)), (0, .leave true)]
    [(0, .execute [1, 2] (.update (fun _ => true) id))] 0 (some 2) ⟨_, rfl, rfl⟩ (by simp [Stays])
    (show Pool.returns _ _ _ (0, .execute [1, 2] (.select fun _ => true)) = some (.ok ([2], [1, 2])) from rfl)).2
    (by simp [KeepsOpen]) 2 rfl (fun _ => true) rfl

end KnowledgeDesk.Proofs
