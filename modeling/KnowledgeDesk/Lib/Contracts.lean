import KnowledgeDesk.Lib.ReadCommitted

/-!
# What a transaction may count on between two of its statements

Between two statements of a transaction at READ COMMITTED other sessions commit. A contract says what
such commits leave of the store while the transaction holds its locks, what is assumed of a statement
when it runs, and what the writes have to be when they are committed. A session meets its contract at
every step of every run in which each commit is one the others count on.
-/

namespace ReadCommitted

variable {σ κ ε α π : Type}

/-- The contract of a transaction. -/
structure Contract (σ κ ε α : Type) where
  /-- What holds of every committed store. -/
  inv : σ → Prop
  /-- What the commits of others may do to the store while these locks are held. -/
  rely : List κ → σ → σ → Prop
  /-- What is assumed of a write when it runs. -/
  allowed : Prog σ κ ε α → σ → Prop
  /-- What holds of the locks and the pending writes at the commit. -/
  commits : List κ → (σ → σ) → σ → Prop
  rely_refl : ∀ locks s, rely locks s s
  rely_trans : ∀ locks s₁ s₂ s₃, rely locks s₁ s₂ → rely locks s₂ s₃ → rely locks s₁ s₃

/-- However the others commit between the statements, what is left of the transaction commits as its
contract says. -/
def Prog.Meets (c : Contract σ κ ε α) : Prog σ κ ε α → List κ → (σ → σ) → σ → Prop
  | .done _, locks, pending, s => ∀ s', c.inv s' → c.rely locks s s' → c.commits locks pending s'
  | .abort _, _, _, _ => True
  | .select k, locks, pending, s => ∀ s', c.inv s' → c.rely locks s s' →
      (k (pending s')).Meets c locks pending s'
  | .write rows effect k, locks, pending, s => ∀ s', c.inv s' → c.rely locks s s' →
      c.allowed (.write rows effect k) s' →
      (k (pending s')).Meets c (rows (pending s') ++ locks) (effect (pending s') ∘ pending) s'

/-- A contract that is met stays met when others commit. -/
theorem Prog.Meets.interfere {c : Contract σ κ ε α} {p : Prog σ κ ε α} {locks : List κ} {pending : σ → σ}
    {s s' : σ} (h : p.Meets c locks pending s) (hr : c.rely locks s s') : p.Meets c locks pending s' := by
  cases p with
  | done a => exact fun s'' hi hr' => h s'' hi (c.rely_trans _ _ _ _ hr hr')
  | abort e => trivial
  | select k => exact fun s'' hi hr' => h s'' hi (c.rely_trans _ _ _ _ hr hr')
  | write rows effect k => exact fun s'' hi hr' => h s'' hi (c.rely_trans _ _ _ _ hr hr')

/-- Every session meets its contract. -/
def Met (c : π → Nat → Contract σ κ ε α) (s : State σ κ ε α π) : Prop :=
  ∀ i t, s.sessions i = some t → t.prog.Meets (c t.call t.drawn) (s.locksOf i) t.pending s.store

/-- What a step that is a commit makes of the store is what the other sessions count on. -/
def Respects (c : π → Nat → Contract σ κ ε α) (s : State σ κ ε α π) (store : σ) (i : Nat) : Prop :=
  ∀ j u, j ≠ i → s.sessions j = some u → (c u.call u.drawn).rely (s.locksOf j) s.store store

section Step

variable {c : π → Nat → Contract σ κ ε α} {s : State σ κ ε α π}

theorem met_atRest (store : σ) (n : Nat) : Met c (atRest store n : State σ κ ε α π) :=
  fun _ _ h => by simp [atRest] at h

/-- The store changes under the sessions. -/
theorem Met.store (h : Met c s) {store : σ}
    (hr : ∀ i t, s.sessions i = some t → (c t.call t.drawn).rely (s.locksOf i) s.store store) :
    Met c { s with store } :=
  fun i t ht => (h i t ht).interfere (hr i t ht)

theorem Met.close (h : Met c s) {i : Nat} {store : σ} (hr : Respects c s store i) :
    Met c (s.close i store) := by
  intro j u hj
  have hji : j ≠ i := by
    rintro rfl
    simp [State.close] at hj
  have hu : s.sessions j = some u := by simpa [State.close, hji] using hj
  rw [locksOf_close, if_neg hji]
  exact (h j u hu).interfere (hr j u hji hu)

theorem Met.resume (h : Met c s) {i : Nat} {t : Session σ κ ε α π} (rows : List κ)
    (ht : t.prog.Meets (c t.call t.drawn) (rows ++ s.locksOf i) t.pending s.store) :
    Met c (State.resume { s with locked := rows.map (fun r => (r, i)) ++ s.locked } i t) := by
  intro j u hj
  have hlocks : (State.resume { s with locked := rows.map (fun r => (r, i)) ++ s.locked } i t).locksOf j =
      if j = i then rows ++ s.locksOf j else s.locksOf j := locksOf_lock s i j rows
  rw [hlocks]
  by_cases hji : j = i
  · subst hji
    obtain rfl : t = u := by simpa [State.resume] using hj
    rw [if_pos rfl]
    exact ht
  · have hu : s.sessions j = some u := by simpa [State.resume, hji] using hj
    rw [if_neg hji]
    exact h j u hu

/-- The writes a step runs are as the contracts assume. -/
def Allowed [BEq κ] (c : π → Nat → Contract σ κ ε α) (s : State σ κ ε α π) : Label π → Prop
  | .advance i => ∀ t rows effect k, s.sessions i = some t → t.prog = .write rows effect k →
      s.free i (rows (t.pending s.store)) = true → (c t.call t.drawn).allowed t.prog s.store
  | _ => True

/-- Every step keeps the contracts, if what it commits is what the others count on. -/
theorem met_step [BEq κ] {program : π → Nat → Prog σ κ ε α}
    (hstart : ∀ call n store, (program call n).Meets (c call n) [] id store)
    (hidle : ∀ i, s.sessions i = none → s.locksOf i = []) (h : Met c s)
    (hinv : ∀ i t, s.sessions i = some t → (c t.call t.drawn).inv s.store) {l : Label π}
    (hallowed : Allowed c s l)
    (hcommit : ∀ i t a, l = .advance i → s.sessions i = some t → t.prog = .done a →
      Respects c s (t.pending s.store) i) :
    Met c (step program s l) := by
  have hsame : ∀ i, Respects c s s.store i := fun i j u _ _ => (c u.call u.drawn).rely_refl _ _
  cases l with
  | start i call =>
    simp only [step]
    split
    · exact h
    · rename_i hi
      have hmet : Met c { s with drawn := s.drawn + 1 } := h
      refine hmet.resume [] ?_
      have hnone : State.locksOf { s with drawn := s.drawn + 1 } i = [] := hidle i hi
      rw [hnone]
      exact hstart call s.drawn s.store
  | advance i =>
    simp only [step]
    split
    · exact h
    · rename_i t ht
      have hmeets := h i t ht
      split
      · rename_i a hp
        exact h.close (hcommit i t a rfl ht hp)
      · exact h.close (hsame i)
      · rename_i k hp
        rw [hp] at hmeets
        refine h.resume [] ?_
        exact hmeets s.store (hinv i t ht) ((c t.call t.drawn).rely_refl _ _)
      · rename_i rows effect k hp
        have hall := fun hfree => hallowed t rows effect k ht hp hfree
        rw [hp] at hmeets hall
        split
        · rename_i hfree
          refine h.resume _ ?_
          exact hmeets s.store (hinv i t ht) ((c t.call t.drawn).rely_refl _ _) (hall hfree)
        · exact h
  | kill i => exact h.close (hsame i)

end Step

/-- Of what a commit leaves nothing need be said. -/
theorem Prog.commits_trivial (p : Prog σ κ ε α) (locks : List κ) (pending : σ → σ) :
    p.Commits (fun _ _ => True) locks pending := by
  induction p generalizing locks pending with
  | done a => trivial
  | abort e => trivial
  | select k ih => exact fun view => ih view locks pending
  | write rows effect k ih => exact fun view => ih view (rows view ++ locks) (effect view ∘ pending)

/-! ## Locks exclude each other -/

/-- No two sessions hold locks that conflict. -/
def Exclusive [BEq κ] (s : State σ κ ε α π) : Prop :=
  ∀ i j, i ≠ j → ∀ a ∈ s.locksOf i, ∀ b ∈ s.locksOf j, (a == b) = false

theorem mem_locksOf {s : State σ κ ε α π} {i : Nat} {a : κ} : a ∈ s.locksOf i ↔ (a, i) ∈ s.locked := by
  simp only [State.locksOf, List.mem_map, List.mem_filter, beq_iff_eq]
  constructor
  · rintro ⟨⟨b, j⟩, ⟨hl, rfl⟩, rfl⟩
    exact hl
  · intro h
    exact ⟨(a, i), ⟨h, rfl⟩, rfl⟩

section Exclusive

variable [BEq κ] {s : State σ κ ε α π}

theorem exclusive_atRest (store : σ) (n : Nat) : Exclusive (atRest store n : State σ κ ε α π) :=
  fun _ _ _ a ha => by simp [State.locksOf, atRest] at ha

/-- The locks a session may take conflict with no lock of another. -/
theorem free_apart {i j : Nat} (hij : i ≠ j) {rows : List κ} (h : s.free i rows = true) {a b : κ}
    (ha : a ∈ s.locksOf j) (hb : b ∈ rows) : (a == b) = false := by
  have hl := List.all_eq_true.1 h (a, j) (mem_locksOf.1 ha)
  have hji : (j == i) = false := beq_false_of_ne (Ne.symm hij)
  rw [hji, Bool.false_or, Bool.not_eq_true', List.contains_eq_any_beq] at hl
  simpa using List.any_eq_false.1 hl b hb

theorem Exclusive.close (h : Exclusive s) (i : Nat) (store : σ) : Exclusive (s.close i store) := by
  intro j k hjk a ha b hb
  rw [locksOf_close] at ha hb
  split at ha
  · cases ha
  · split at hb
    · cases hb
    · exact h j k hjk a ha b hb

theorem Exclusive.resume (hsymm : ∀ a b : κ, (a == b) = (b == a)) (h : Exclusive s) {i : Nat}
    (t : Session σ κ ε α π) {rows : List κ} (hfree : s.free i rows = true) :
    Exclusive (State.resume { s with locked := rows.map (fun r => (r, i)) ++ s.locked } i t) := by
  have hlocks : ∀ j, (State.resume { s with locked := rows.map (fun r => (r, i)) ++ s.locked } i t).locksOf j =
      if j = i then rows ++ s.locksOf j else s.locksOf j := fun j => locksOf_lock s i j rows
  intro j k hjk a ha b hb
  rw [hlocks] at ha hb
  by_cases hji : j = i
  · have hki : k ≠ i := fun hki => hjk (hji.trans hki.symm)
    rw [if_pos hji] at ha
    rw [if_neg hki] at hb
    rcases List.mem_append.1 ha with ha | ha
    · rw [hsymm]
      exact free_apart (Ne.symm hki) hfree hb ha
    · exact h j k hjk a ha b hb
  · rw [if_neg hji] at ha
    by_cases hki : k = i
    · rw [if_pos hki] at hb
      rcases List.mem_append.1 hb with hb | hb
      · exact free_apart (Ne.symm hji) hfree ha hb
      · exact h j k hjk a ha b hb
    · rw [if_neg hki] at hb
      exact h j k hjk a ha b hb

/-- Every step keeps the locks apart. -/
theorem exclusive_step (hsymm : ∀ a b : κ, (a == b) = (b == a)) (program : π → Nat → Prog σ κ ε α)
    (h : Exclusive s) (l : Label π) : Exclusive (step program s l) := by
  cases l with
  | start i call =>
    simp only [step]
    split
    · exact h
    · exact h
  | advance i =>
    simp only [step]
    split
    · exact h
    · split
      · exact h.close i _
      · exact h.close i _
      · exact h
      · split
        · rename_i hfree
          exact h.resume hsymm _ hfree
        · exact h
  | kill i => exact h.close i _

end Exclusive

end ReadCommitted
