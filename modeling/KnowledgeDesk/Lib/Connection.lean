import KnowledgeDesk.Lib.Transaction

/-!
# Connections

A connection that is not in autocommit mode: its first statement opens a transaction, which stays open until
it is committed or rolled back. A transaction block is a transaction where none is open; in an open one it is
a savepoint, whose end commits nothing. Leaving the connection commits, leaving it by an exception rolls back.
-/

/-- The transaction of a connection. -/
inductive Txn (σ : Type)
  | idle
  /-- A transaction is open, and sees this store. -/
  | started (s : σ)
  /-- A statement has failed in it. -/
  | failed

/-- A connection: the store others see, and its transaction. -/
structure Connection (σ : Type) where
  stored : σ
  txn : Txn σ

/-- What a client does on a connection. -/
abbrev Client (σ ε α : Type) := Proc (Connection σ) ε α

namespace Connection

variable {σ ε α β : Type}

/-- The store the next statement sees. -/
def view (c : Connection σ) : Option σ :=
  match c.txn with
  | .idle => some c.stored
  | .started s => some s
  | .failed => none

/-- A statement. In a failed transaction it raises `aborted`. -/
def execute (aborted : ε) (t : Tx σ ε α) : Client σ ε α := fun c =>
  match c.view with
  | none => (.error aborted, c)
  | some s => match t s with
    | .ok (a, s') => (.ok a, { c with txn := .started s' })
    | .error e => (.error e, { c with txn := .failed })

/-- The store after the end of the transaction. -/
def finished (c : Connection σ) : σ :=
  match c.txn with
  | .started s => s
  | _ => c.stored

/-- `conn.commit()`. -/
def commit : Client σ ε Unit := fun c => (.ok (), ⟨c.finished, .idle⟩)

/-- `with conn.transaction(): body`. -/
def transaction (aborted : ε) (body : Client σ ε α) : Client σ ε α := fun c =>
  match c.txn with
  | .failed => (.error aborted, c)
  | .idle => match body ⟨c.stored, .started c.stored⟩ with
    | (.ok a, c') => (.ok a, ⟨c'.finished, .idle⟩)
    | (.error e, c') => (.error e, ⟨c'.stored, .idle⟩)
  | .started s => match body c with
    | (.ok a, c') => match c'.txn with
      | .failed => (.error aborted, c')
      | _ => (.ok a, c')
    | (.error e, c') => (.error e, ⟨c'.stored, .started s⟩)

/-- `with connect() as conn: body`. -/
def withConnection (body : Client σ ε α) : Proc σ ε α := fun s =>
  match body ⟨s, .idle⟩ with
  | (.ok a, c) => (.ok a, c.finished)
  | (.error e, c) => (.error e, c.stored)

/-! ## Sessions inside a transaction -/

/-- Inside a transaction the session does to the transaction's store what `t` does, and nothing to what
others see. -/
structure Acts (p : Client σ ε α) (t : Tx σ ε α) : Prop where
  ok : ∀ stored {s s' a}, t s = .ok (a, s') → p ⟨stored, .started s⟩ = (.ok a, ⟨stored, .started s'⟩)
  error : ∀ stored {s e}, t s = .error e → ∃ txn, p ⟨stored, .started s⟩ = (.error e, ⟨stored, txn⟩)

theorem acts_pure (a : α) : Acts (pure a : Client σ ε α) fun s => .ok (a, s) := by
  refine ⟨fun stored s s' b h => ?_, fun stored s e h => ?_⟩
  · obtain ⟨rfl, rfl⟩ := Prod.mk.inj (Except.ok.inj h)
    rfl
  · cases h

theorem acts_execute (aborted : ε) (t : Tx σ ε α) : Acts (execute aborted t) t := by
  refine ⟨fun stored s s' a h => ?_, fun stored s e h => ⟨.failed, ?_⟩⟩
  · simp only [execute, view, h]
  · simp only [execute, view, h]

theorem Acts.bind {p : Client σ ε α} {t : Tx σ ε α} {f : α → Client σ ε β} {g : α → Tx σ ε β}
    (hp : Acts p t) (hf : ∀ a, Acts (f a) (g a)) :
    Acts (p >>= f) fun s => t s >>= fun r => g r.1 r.2 := by
  refine ⟨fun stored s s' b h => ?_, fun stored s e h => ?_⟩
  · cases ht : t s with
    | error e => rw [ht] at h; cases h
    | ok r =>
      rw [ht] at h
      rw [Proc.bind_of_ok (hp.ok stored ht)]
      exact (hf r.1).ok stored h
  · cases ht : t s with
    | error e' =>
      rw [ht] at h
      cases h
      obtain ⟨txn, hp⟩ := hp.error stored ht
      exact ⟨txn, Proc.bind_of_error hp⟩
    | ok r =>
      rw [ht] at h
      rw [Proc.bind_of_ok (hp.ok stored ht)]
      exact (hf r.1).error stored h

/-- A transaction block inside a transaction commits nothing. -/
theorem Acts.transaction (aborted : ε) {p : Client σ ε α} {t : Tx σ ε α} (h : Acts p t) :
    Acts (transaction aborted p) t := by
  refine ⟨fun stored s s' a ht => ?_, fun stored s e ht => ⟨.started s, ?_⟩⟩
  · simp only [Connection.transaction, h.ok stored ht]
  · obtain ⟨txn, hp⟩ := h.error stored ht
    simp only [Connection.transaction, hp]

/-- Outside of one it is a transaction. -/
theorem transaction_idle (aborted : ε) {p : Client σ ε α} {t : Tx σ ε α} (h : Acts p t) (s : σ) :
    transaction aborted p ⟨s, .idle⟩ = match t s with
      | .ok (a, s') => (.ok a, ⟨s', .idle⟩)
      | .error e => (.error e, ⟨s, .idle⟩) := by
  cases ht : t s with
  | ok r => simp only [transaction, h.ok s ht, finished]
  | error e =>
    obtain ⟨txn, hp⟩ := h.error s ht
    simp only [transaction, hp]

/-- What follows a statement runs in its transaction, whatever blocks it has, and is kept or lost with it. -/
theorem withConnection_execute {aborted : ε} {first : Tx σ ε α} {s s₁ : σ} {a : α}
    (hfirst : first s = .ok (a, s₁))
    {f : α → Client σ ε β} {t : Tx σ ε β} (h : Acts (f a) t) :
    withConnection (execute aborted first >>= f) s = match t s₁ with
      | .ok (b, s') => (.ok b, s')
      | .error e => (.error e, s) := by
  have hstart : execute aborted first ⟨s, .idle⟩ = (.ok a, ⟨s, .started s₁⟩) := by
    simp only [execute, view, hfirst]
  rw [withConnection, Proc.bind_of_ok hstart]
  cases ht : t s₁ with
  | ok r => simp only [h.ok s ht, finished]
  | error e =>
    obtain ⟨txn, hp⟩ := h.error s ht
    simp only [hp]

/-- What a statement and a commit have done stays, whatever follows. -/
theorem withConnection_commit {aborted : ε} {first : Tx σ ε α} {s s₁ : σ} {a : α}
    (hfirst : first s = .ok (a, s₁))
    (rest : Client σ ε β) :
    withConnection (execute aborted first >>= fun _ => commit >>= fun _ => rest) s =
      withConnection rest s₁ := by
  have hstart : execute aborted first ⟨s, .idle⟩ = (.ok a, ⟨s, .started s₁⟩) := by
    simp only [execute, view, hfirst]
  have hcommit : @commit σ ε ⟨s, .started s₁⟩ = (.ok (), ⟨s₁, .idle⟩) := rfl
  rw [withConnection, Proc.bind_of_ok hstart, Proc.bind_of_ok hcommit]
  rfl

end Connection
