import Mathlib.Data.Option.Basic

/-!
# Settings of a database session

A run-time setting, with a value for the session, a value the transaction has given the session, and a
value for the rest of the transaction only. The end of the transaction takes back what is not kept; a
setting that had no value before is then at its reset value, and no longer unset.
-/

/-- A setting of a session. -/
structure SessionSetting (α : Type*) where
  /-- The value outside of a transaction, if the setting has ever been set. -/
  session : Option α
  /-- What `set_config(_, _, false)` has set in the running transaction. -/
  pending : Option α
  /-- What `set_config(_, _, true)` has set in the running transaction. -/
  inTx : Option α
  deriving DecidableEq

namespace SessionSetting

variable {α : Type*} {s : SessionSetting α} {v reset : α}

/-- Never set. -/
def unset : SessionSetting α := ⟨none, none, none⟩

/-- `current_setting(_, true)`. -/
def current (s : SessionSetting α) : Option α := (s.inTx.or s.pending).or s.session

/-- `set_config(_, v, false)`. -/
def set (v : α) (s : SessionSetting α) : SessionSetting α := ⟨s.session, some v, none⟩

/-- `set_config(_, v, true)`. -/
def setLocal (v : α) (s : SessionSetting α) : SessionSetting α := { s with inTx := some v }

/-- The running transaction has set it. -/
def touched (s : SessionSetting α) : Bool := s.inTx.isSome || s.pending.isSome

/-- The transaction is rolled back. -/
def rollback (reset : α) (s : SessionSetting α) : SessionSetting α :=
  if s.touched then ⟨some (s.session.getD reset), none, none⟩ else s

/-- The transaction commits. -/
def commit (reset : α) (s : SessionSetting α) : SessionSetting α :=
  if s.touched then ⟨some (s.pending.getD (s.session.getD reset)), none, none⟩ else s

@[simp] theorem current_unset : (unset : SessionSetting α).current = none := rfl

@[simp] theorem current_setLocal : (s.setLocal v).current = some v := rfl

@[simp] theorem current_set : (s.set v).current = some v := rfl

@[simp] theorem pending_setLocal : (s.setLocal v).pending = s.pending := rfl

@[simp] theorem session_setLocal : (s.setLocal v).session = s.session := rfl

/-- A transaction that has set the setting for itself only ends alike both ways. -/
theorem commit_of_pending (h : s.pending = none) : s.commit reset = s.rollback reset := by
  simp [commit, rollback, h]

@[simp] theorem touched_rollback (s : SessionSetting α) (reset : α) : (s.rollback reset).touched = false := by
  unfold rollback
  split
  · rfl
  · exact Bool.eq_false_iff.2 ‹_›

theorem touched_eq_false : s.touched = false ↔ s.inTx = none ∧ s.pending = none := by
  simp [touched]

/-- The session has its value back. A setting without one keeps none only if it was not touched. -/
theorem session_rollback :
    (s.rollback reset).session = if s.touched then some (s.session.getD reset) else s.session := by
  unfold rollback
  split <;> rfl

/-- A setting that the transaction has not set is as it was, whichever way the transaction ends. -/
theorem rollback_of_untouched (h : s.touched = false) : s.rollback reset = s := by
  simp [rollback, h]

theorem commit_of_untouched (h : s.touched = false) : s.commit reset = s := by
  simp [commit, h]

end SessionSetting
