import KnowledgeDesk.Lib.Runs
import KnowledgeDesk.Lib.Transaction
import Mathlib.Logic.Function.Basic

/-!
# Transactions at READ COMMITTED, statement by statement

A transaction is a tree of statements (`Prog`). A statement reads what is committed when it runs, under
the transaction's own writes. A write locks the rows it touches, and waits while another transaction
holds one of them; what it does to them is fixed when it runs and lands at the commit. Any number of
sessions run transactions, in any interleaving (`step`). Run alone a transaction is the function of the
store that `serial` says.
-/

namespace ReadCommitted

/-- A transaction: its statements in order, each choosing what follows by what it saw. -/
inductive Prog (σ κ ε α : Type) where
  | done (a : α)
  | abort (e : ε)
  | select (k : σ → Prog σ κ ε α)
  /-- The rows it locks, what it does to the store, and what follows, all by what it sees. -/
  | write (rows : σ → List κ) (effect : σ → σ → σ) (k : σ → Prog σ κ ε α)

variable {σ κ ε α π : Type}

/-- What is left of the transaction is its commit. -/
def Prog.isDone : Prog σ κ ε α → Bool
  | .done _ => true
  | _ => false

theorem Prog.isDone_iff {p : Prog σ κ ε α} : p.isDone = true ↔ ∃ a, p = .done a := by
  cases p <;> simp [Prog.isDone]

/-- The next statement reads. -/
def Prog.isSelect : Prog σ κ ε α → Bool
  | .select _ => true
  | _ => false

/-- The transaction run alone. -/
def Prog.serial : Prog σ κ ε α → Tx σ ε α
  | .done a, s => .ok (a, s)
  | .abort e, _ => .error e
  | .select k, s => (k s).serial s
  | .write _ effect k, s => (k s).serial (effect s s)

/-- The transaction with its locks as those of another table of locks. -/
def Prog.relock {κ' : Type} (f : κ → κ') : Prog σ κ ε α → Prog σ κ' ε α
  | .done a => .done a
  | .abort e => .abort e
  | .select k => .select fun view => (k view).relock f
  | .write rows effect k => .write (fun view => (rows view).map f) effect fun view => (k view).relock f

/-- A transaction under way: the call it is for, the id drawn for it, the statements left, and its
uncommitted writes as a function of the store they will be committed to. -/
structure Session (σ κ ε α π : Type) where
  call : π
  drawn : Nat
  prog : Prog σ κ ε α
  pending : σ → σ

/-- The committed store, the sessions, the row locks with their holders, and the next id to draw. -/
structure State (σ κ ε α π : Type) where
  store : σ
  sessions : Nat → Option (Session σ κ ε α π)
  locked : List (κ × Nat)
  drawn : Nat

/-- What can happen: a call starts its transaction, a session runs its next statement, commits or rolls
back, or its connection is lost. -/
inductive Label (π : Type) where
  | start (i : Nat) (call : π)
  | advance (i : Nat)
  | kill (i : Nat)

namespace State

/-- The locks a session holds. -/
def locksOf (s : State σ κ ε α π) (i : Nat) : List κ := (s.locked.filter fun l => l.2 == i).map (·.1)

/-- No other session holds one of the rows. -/
def free [BEq κ] (s : State σ κ ε α π) (i : Nat) (rows : List κ) : Bool :=
  s.locked.all fun l => l.2 == i || !rows.contains l.1

/-- The step is a read of the session. -/
def reads (s : State σ κ ε α π) (i : Nat) : Label π → Bool
  | .advance j => j == i && (s.sessions i).any (·.prog.isSelect)
  | _ => false

/-- The session ends, with the store as given. -/
def close (s : State σ κ ε α π) (i : Nat) (store : σ) : State σ κ ε α π :=
  { s with
    store
    sessions := Function.update s.sessions i none
    locked := s.locked.filter fun l => l.2 != i }

/-- The session goes on with a transaction. -/
def resume (s : State σ κ ε α π) (i : Nat) (t : Session σ κ ε α π) : State σ κ ε α π :=
  { s with sessions := Function.update s.sessions i (some t) }

end State

/-- One step of the sessions, where a call runs the transaction `program`. A write whose rows are locked
by another session waits. -/
def step [BEq κ] (program : π → Nat → Prog σ κ ε α) (s : State σ κ ε α π) : Label π → State σ κ ε α π
  | .start i call =>
    match s.sessions i with
    | some _ => s
    | none => { s with drawn := s.drawn + 1 }.resume i ⟨call, s.drawn, program call s.drawn, id⟩
  | .advance i =>
    match s.sessions i with
    | none => s
    | some t => match t.prog with
      | .done _ => s.close i (t.pending s.store)
      | .abort _ => s.close i s.store
      | .select k => s.resume i { t with prog := k (t.pending s.store) }
      | .write rows effect k =>
        let view := t.pending s.store
        if s.free i (rows view) then
          { s with locked := (rows view).map (fun r => (r, i)) ++ s.locked }.resume i
            { t with prog := k view, pending := effect view ∘ t.pending }
        else s
  | .kill i => s.close i s.store

/-- A store with no transaction under way. -/
def atRest (store : σ) (drawn : Nat) : State σ κ ε α π := ⟨store, fun _ => none, [], drawn⟩

/-! ## What a transaction can commit -/

/-- However the statements go, a commit leaves locks and pending writes that satisfy `Q`. -/
def Prog.Commits (Q : List κ → (σ → σ) → Prop) : Prog σ κ ε α → List κ → (σ → σ) → Prop
  | .done _, locks, pending => Q locks pending
  | .abort _, _, _ => True
  | .select k, locks, pending => ∀ view, (k view).Commits Q locks pending
  | .write rows effect k, locks, pending =>
    ∀ view, (k view).Commits Q (rows view ++ locks) (effect view ∘ pending)

/-- The invariant of the sessions, when the transactions' commits satisfy `Q`. -/
structure SessionsInv (Q : π → Nat → List κ → (σ → σ) → Prop) (s : State σ κ ε α π) : Prop where
  commits : ∀ i t, s.sessions i = some t → t.prog.Commits (Q t.call t.drawn) (s.locksOf i) t.pending
  idle : ∀ i, s.sessions i = none → s.locksOf i = []
  below : ∀ i t, s.sessions i = some t → t.drawn < s.drawn
  apart : ∀ i j t u, s.sessions i = some t → s.sessions j = some u → t.drawn = u.drawn → i = j

theorem sessionsInv_atRest {Q : π → Nat → List κ → (σ → σ) → Prop} (store : σ) (n : Nat) :
    SessionsInv Q (atRest store n : State σ κ ε α π) :=
  ⟨fun _ _ h => by simp [atRest] at h, fun _ _ => rfl, fun _ _ h => by simp [atRest] at h,
    fun _ _ _ _ h => by simp [atRest] at h⟩

theorem locksOf_close (s : State σ κ ε α π) (i j : Nat) (store : σ) :
    (s.close i store).locksOf j = if j = i then [] else s.locksOf j := by
  simp only [State.locksOf, State.close, List.filter_filter]
  split
  · rename_i hj
    subst hj
    rw [List.map_eq_nil_iff, List.filter_eq_nil_iff]
    intro l _
    simp only [Bool.and_eq_true, bne_iff_ne, beq_iff_eq, not_and, ne_eq]
    exact fun h1 h2 => h2 h1
  · rename_i hj
    congr 1
    refine List.filter_congr fun l _ => ?_
    by_cases hl : l.2 = j
    · simp [hl, hj]
    · simp [hl]

theorem locksOf_lock (s : State σ κ ε α π) (i j : Nat) (rows : List κ) :
    State.locksOf { s with locked := rows.map (fun r => (r, i)) ++ s.locked } j =
      if j = i then rows ++ s.locksOf j else s.locksOf j := by
  simp only [State.locksOf, List.filter_append, List.map_append]
  split
  · rename_i hj
    subst hj
    congr 1
    induction rows with
    | nil => rfl
    | cons r rows ih => simpa using ih
  · rename_i hj
    have hnone : (rows.map fun r => (r, i)).filter (fun l => l.2 == j) = [] := by
      rw [List.filter_eq_nil_iff]
      intro l hl
      obtain ⟨r, -, rfl⟩ := List.mem_map.1 hl
      simpa using fun h => hj h.symm
    rw [hnone, List.map_nil, List.nil_append]

variable {Q : π → Nat → List κ → (σ → σ) → Prop}

/-- Ending a session keeps the invariant. -/
theorem SessionsInv.close {s : State σ κ ε α π} (h : SessionsInv Q s) (i : Nat) (store : σ) :
    SessionsInv Q (s.close i store) := by
  have hold : ∀ j t, (s.close i store).sessions j = some t → j ≠ i ∧ s.sessions j = some t := by
    intro j t hj
    by_cases hji : j = i
    · subst hji
      simp [State.close] at hj
    · exact ⟨hji, by simpa [State.close, hji] using hj⟩
  refine ⟨fun j t hj => ?_, fun j hj => ?_, fun j t hj => h.below j t (hold j t hj).2,
    fun j k t u hj hk => h.apart j k t u (hold j t hj).2 (hold k u hk).2⟩
  · obtain ⟨hji, hs⟩ := hold j t hj
    rw [locksOf_close, if_neg hji]
    exact h.commits j t hs
  · rw [locksOf_close]
    split
    · rfl
    · rename_i hji
      exact h.idle j (by simpa [State.close, hji] using hj)

/-- A session that goes on, with further locks, keeps the invariant. -/
theorem SessionsInv.resume {s : State σ κ ε α π} (h : SessionsInv Q s) {i : Nat}
    {t : Session σ κ ε α π} (t' : Session σ κ ε α π) (ht : s.sessions i = some t) (rows : List κ)
    (hdrawn : t'.drawn = t.drawn)
    (hc : t'.prog.Commits (Q t'.call t'.drawn) (rows ++ s.locksOf i) t'.pending) :
    SessionsInv Q (State.resume { s with locked := rows.map (fun r => (r, i)) ++ s.locked } i t') := by
  have hlocks : ∀ j, (State.resume { s with locked := rows.map (fun r => (r, i)) ++ s.locked } i t').locksOf j
      = if j = i then rows ++ s.locksOf j else s.locksOf j := fun j => locksOf_lock s i j rows
  have hold : ∀ j u, (State.resume { s with locked := rows.map (fun r => (r, i)) ++ s.locked } i
      t').sessions j = some u → (j = i ∧ u = t') ∨ (j ≠ i ∧ s.sessions j = some u) := by
    intro j u hj
    by_cases hji : j = i
    · subst hji
      exact .inl ⟨rfl, by simpa [State.resume, eq_comm] using hj⟩
    · exact .inr ⟨hji, by simpa [State.resume, hji] using hj⟩
  have hsame : ∀ j u, (State.resume { s with locked := rows.map (fun r => (r, i)) ++ s.locked } i
      t').sessions j = some u → ∃ u₀, s.sessions j = some u₀ ∧ u₀.drawn = u.drawn := by
    intro j u hj
    rcases hold j u hj with ⟨rfl, rfl⟩ | ⟨-, hu⟩
    · exact ⟨t, ht, hdrawn.symm⟩
    · exact ⟨u, hu, rfl⟩
  refine ⟨fun j u hj => ?_, fun j hj => ?_, fun j u hj => ?_, fun j k u v hj hk he => ?_⟩
  · rw [hlocks]
    rcases hold j u hj with ⟨rfl, rfl⟩ | ⟨hji, hu⟩
    · rwa [if_pos rfl]
    · rw [if_neg hji]
      exact h.commits j u hu
  · have hji : j ≠ i := by
      rintro rfl
      simp [State.resume] at hj
    rw [hlocks, if_neg hji]
    exact h.idle j (by simpa [State.resume, hji] using hj)
  · obtain ⟨u₀, hu₀, hd⟩ := hsame j u hj
    exact hd ▸ h.below j u₀ hu₀
  · obtain ⟨u₀, hu₀, hd⟩ := hsame j u hj
    obtain ⟨v₀, hv₀, hd'⟩ := hsame k v hk
    exact h.apart j k u₀ v₀ hu₀ hv₀ (hd.trans (he.trans hd'.symm))

/-- A new session keeps the invariant. -/
theorem SessionsInv.start {s : State σ κ ε α π} (h : SessionsInv Q s) {i : Nat}
    (hi : s.sessions i = none) {call : π} {prog : Prog σ κ ε α}
    (hc : prog.Commits (Q call s.drawn) [] id) :
    SessionsInv Q (State.resume { s with drawn := s.drawn + 1 } i ⟨call, s.drawn, prog, id⟩) := by
  have hold : ∀ j u, (State.resume { s with drawn := s.drawn + 1 } i
      ⟨call, s.drawn, prog, id⟩).sessions j = some u →
      (j = i ∧ u = ⟨call, s.drawn, prog, id⟩) ∨ (j ≠ i ∧ s.sessions j = some u) := by
    intro j u hj
    by_cases hji : j = i
    · subst hji
      exact .inl ⟨rfl, by simpa [State.resume, eq_comm] using hj⟩
    · exact .inr ⟨hji, by simpa [State.resume, hji] using hj⟩
  refine ⟨fun j u hj => ?_, fun j hj => ?_, fun j u hj => ?_, fun j k u v hj hk he => ?_⟩
  · rcases hold j u hj with ⟨rfl, rfl⟩ | ⟨-, hu⟩
    · change prog.Commits (Q call s.drawn) (s.locksOf j) id
      rwa [h.idle j hi]
    · exact h.commits j u hu
  · by_cases hji : j = i
    · subst hji
      exact h.idle j hi
    · exact h.idle j (by simpa [State.resume, hji] using hj)
  · rcases hold j u hj with ⟨-, rfl⟩ | ⟨-, hu⟩
    · exact Nat.lt_succ_self _
    · exact Nat.lt_succ_of_lt (h.below j u hu)
  · rcases hold j u hj with ⟨rfl, rfl⟩ | ⟨-, hu⟩ <;> rcases hold k v hk with ⟨rfl, rfl⟩ | ⟨-, hv⟩
    · rfl
    · have := h.below k v hv
      simp only at he
      omega
    · have := h.below j u hu
      simp only at he
      omega
    · exact h.apart j k u v hu hv he

/-- Every step keeps the invariant of the sessions. -/
theorem sessionsInv_step [BEq κ] {program : π → Nat → Prog σ κ ε α}
    (hprog : ∀ call n, (program call n).Commits (Q call n) [] id) {s : State σ κ ε α π}
    (h : SessionsInv Q s) (l : Label π) : SessionsInv Q (step program s l) := by
  cases l with
  | start i call =>
    simp only [step]
    split
    · exact h
    · rename_i hi
      exact h.start hi (hprog call s.drawn)
  | advance i =>
    simp only [step]
    split
    · exact h
    · rename_i t ht
      have hc := h.commits i t ht
      split
      · exact h.close i _
      · exact h.close i _
      · rename_i k hk
        rw [hk] at hc
        exact h.resume { t with prog := k (t.pending s.store) } ht [] rfl (hc _)
      · rename_i rows effect k hk
        rw [hk] at hc
        split
        · exact h.resume { t with
            prog := k (t.pending s.store)
            pending := effect (t.pending s.store) ∘ t.pending } ht _ rfl (hc _)
        · exact h
  | kill i => exact h.close i _

/-- The committed store changes at commits only, by the pending writes of the session that commits. -/
theorem store_step [BEq κ] (program : π → Nat → Prog σ κ ε α) (s : State σ κ ε α π) (l : Label π) :
    ((step program s l).store = s.store ∧
      ∀ i t a, l = .advance i → s.sessions i = some t → t.prog ≠ .done a) ∨
    ∃ i t a, l = .advance i ∧ s.sessions i = some t ∧ t.prog = .done a ∧
      step program s l = s.close i (t.pending s.store) := by
  cases l with
  | start i call =>
    refine .inl ⟨?_, by simp⟩
    simp only [step]
    split <;> rfl
  | advance i =>
    cases ht : s.sessions i with
    | none =>
      refine .inl ⟨by simp [step, ht], ?_⟩
      rintro j u a hl hu
      obtain rfl := Label.advance.inj hl
      simp [ht] at hu
    | some t =>
      have hno : (∀ a, t.prog ≠ .done a) → ∀ j u a,
          (Label.advance i : Label π) = .advance j → s.sessions j = some u → u.prog ≠ .done a := by
        rintro hp j u a hl hu
        obtain rfl := Label.advance.inj hl
        obtain rfl := Option.some.inj (ht.symm.trans hu)
        exact hp a
      cases hp : t.prog with
      | done a => exact .inr ⟨i, t, a, rfl, ht, hp, by simp [step, ht, hp]⟩
      | abort e => exact .inl ⟨by simp [step, ht, hp, State.close], hno (by simp [hp])⟩
      | select k => exact .inl ⟨by simp [step, ht, hp, State.resume], hno (by simp [hp])⟩
      | write rows effect k =>
        refine .inl ⟨?_, hno (by simp [hp])⟩
        simp only [step, ht, hp]
        split <;> rfl
  | kill i => exact .inl ⟨rfl, by simp⟩

theorem drawn_le_step [BEq κ] (program : π → Nat → Prog σ κ ε α) (s : State σ κ ε α π) (l : Label π) :
    s.drawn ≤ (step program s l).drawn := by
  cases l with
  | start i call =>
    simp only [step]
    split
    · exact le_refl _
    · exact Nat.le_succ _
  | advance i =>
    simp only [step]
    repeat' split
    all_goals exact le_refl _
  | kill i => exact le_refl _

/-- A session after a step is as before, which it is not after a read of its own, or it is new, or it is
one statement further. -/
theorem session_cases [BEq κ] {program : π → Nat → Prog σ κ ε α} {s : State σ κ ε α π} {l : Label π}
    {i : Nat} {t : Session σ κ ε α π} (h : (step program s l).sessions i = some t) :
    (s.sessions i = some t ∧ s.reads i l = false) ∨
    (l = .start i t.call ∧ t = ⟨t.call, s.drawn, program t.call s.drawn, id⟩) ∨
    (∃ t₀ k, l = .advance i ∧ s.sessions i = some t₀ ∧ t₀.prog = .select k ∧
      t = { t₀ with prog := k (t₀.pending s.store) }) ∨
    ∃ t₀ rows effect k, l = .advance i ∧ s.sessions i = some t₀ ∧ t₀.prog = .write rows effect k ∧
      t = { t₀ with
        prog := k (t₀.pending s.store)
        pending := effect (t₀.pending s.store) ∘ t₀.pending } := by
  have hclose : ∀ j store, (s.close j store).sessions i = some t → i ≠ j ∧ s.sessions i = some t := by
    intro j store hj
    by_cases hij : i = j
    · subst hij
      simp [State.close] at hj
    · exact ⟨hij, by simpa [State.close, hij] using hj⟩
  have hother : ∀ j, i ≠ j → s.reads i (.advance j) = false := by
    intro j hij
    simp [State.reads, Ne.symm hij]
  cases l with
  | start j call =>
    simp only [step] at h
    split at h
    · exact .inl ⟨h, rfl⟩
    · by_cases hij : i = j
      · subst hij
        simp only [State.resume, Function.update_self, Option.some.injEq] at h
        subst h
        exact .inr (.inl ⟨rfl, rfl⟩)
      · exact .inl ⟨by simpa [State.resume, hij] using h, rfl⟩
  | kill j => exact .inl ⟨(hclose j _ h).2, rfl⟩
  | advance j =>
    cases hj : s.sessions j with
    | none =>
      simp only [step, hj] at h
      refine .inl ⟨h, hother j ?_⟩
      rintro rfl
      simp [hj] at h
    | some t₀ =>
      by_cases hij : i = j
      · subst hij
        cases hp : t₀.prog with
        | done a | abort e =>
          simp only [step, hj, hp] at h
          exact absurd rfl (hclose i _ h).1
        | select k =>
          simp only [step, hj, hp, State.resume, Function.update_self, Option.some.injEq] at h
          exact .inr (.inr (.inl ⟨t₀, k, rfl, hj, hp, h.symm⟩))
        | write rows effect k =>
          simp only [step, hj, hp] at h
          split at h
          · simp only [State.resume, Function.update_self, Option.some.injEq] at h
            exact .inr (.inr (.inr ⟨t₀, rows, effect, k, rfl, hj, hp, h.symm⟩))
          · obtain rfl : t₀ = t := Option.some.inj (hj.symm.trans h)
            exact .inl ⟨hj, by simp [State.reads, hj, hp, Prog.isSelect]⟩
      · refine .inl ⟨?_, hother j hij⟩
        simp only [step, hj] at h
        repeat' split at h
        all_goals simpa [State.close, State.resume, hij] using h

/-- A session after a step is one from before, or the one that starts. -/
theorem session_step [BEq κ] {program : π → Nat → Prog σ κ ε α} {s : State σ κ ε α π} {l : Label π}
    {i : Nat} {t : Session σ κ ε α π} (h : (step program s l).sessions i = some t) :
    (∃ t₀, s.sessions i = some t₀ ∧ t₀.call = t.call ∧ t₀.drawn = t.drawn) ∨
      (l = .start i t.call ∧ t.drawn = s.drawn) := by
  rcases session_cases h with ⟨ht, -⟩ | ⟨hl, ht⟩ | ⟨t₀, k, -, ht₀, -, rfl⟩ | ⟨t₀, _, _, _, -, ht₀, -, rfl⟩
  · exact .inl ⟨t, ht, rfl, rfl⟩
  · exact .inr ⟨hl, by rw [ht]⟩
  · exact .inl ⟨t₀, ht₀, rfl, rfl⟩
  · exact .inl ⟨t₀, ht₀, rfl, rfl⟩

/-! ## What a commit has last read -/

/-- The transaction reads before it writes, and commits only after a last read that showed `R`: `written`
says that it has begun to write, `shown` what its last read so far has shown. -/
def Prog.ReadsFirst (R : σ → Prop) : Prog σ κ ε α → Bool → Prop → Prop
  | .done _, _, shown => shown
  | .abort _, _, _ => True
  | .select k, written, _ => written = false ∧ ∀ view, (k view).ReadsFirst R false (R view)
  | .write _ _ k, _, shown => ∀ view, (k view).ReadsFirst R true shown

/-- Where the session stands in such a transaction: unless it has still to read, its last read has shown
what holds (`holds`) as long as nothing has been committed since that makes it out of date. -/
def Session.ReadUpToDate (R : σ → Prop) (holds : Prop) (outdated : Bool) (t : Session σ κ ε α π) : Prop :=
  ∃ written shown, t.prog.ReadsFirst R written shown ∧ (written = false → t.pending = id) ∧
    (shown → outdated = false → holds)

end ReadCommitted
