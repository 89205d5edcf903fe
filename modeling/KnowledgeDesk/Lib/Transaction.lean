import Mathlib.Data.Set.Basic

/-!
# Transactions and the methods made of them

A transaction (`Tx`) is a function of the store: it commits a result and a new store, or aborts with
an error and leaves no trace. A method (`Proc`) runs transactions one after another: what was
committed before an error stays committed. `Proc` has exceptions with handlers and finalizers, as
the `try` statement of the modelled language has.
-/

/-- A transaction on the store `σ`: commits a result and a new store, or aborts. -/
abbrev Tx (σ ε α : Type) := σ → Except ε (α × σ)

/-- A method: its outcome, and the store as its committed transactions left it. -/
def Proc (σ ε α : Type) := σ → Except ε α × σ

namespace Proc

variable {σ ε α β : Type}

def ok (a : α) : Proc σ ε α := fun s => (.ok a, s)

def bind (m : Proc σ ε α) (f : α → Proc σ ε β) : Proc σ ε β := fun s =>
  match m s with
  | (.ok a, s') => f a s'
  | (.error e, s') => (.error e, s')

instance : Monad (Proc σ ε) where
  pure := ok
  bind := bind

/-- `raise`. -/
def raise (e : ε) : Proc σ ε α := fun s => (.error e, s)

/-- One transaction as a method: an abort leaves the store as it was. -/
def transact (t : Tx σ ε α) : Proc σ ε α := fun s =>
  match t s with
  | .ok (a, s') => (.ok a, s')
  | .error e => (.error e, s)

/-- `try: m except: h`, where `h e = none` for an exception the clause does not catch. -/
def tryExcept (m : Proc σ ε α) (h : ε → Option (Proc σ ε α)) : Proc σ ε α := fun s =>
  match m s with
  | (.ok a, s') => (.ok a, s')
  | (.error e, s') => match h e with
    | none => (.error e, s')
    | some k => k s'

/-- `try: m finally: f`. An exception of the finalizer replaces the outcome. -/
def tryFinally (m : Proc σ ε α) (f : Proc σ ε Unit) : Proc σ ε α := fun s =>
  match m s with
  | (r, s') => match f s' with
    | (.ok (), s'') => (r, s'')
    | (.error e, s'') => (.error e, s'')

/-- The store as it is, read without changing it. -/
def read (f : σ → α) : Proc σ ε α := fun s => (.ok (f s), s)

/-- `for x in l: f x`. -/
def forEach {ι : Type} (l : List ι) (f : ι → Proc σ ε Unit) : Proc σ ε Unit :=
  match l with
  | [] => ok ()
  | x :: l => bind (f x) fun _ => forEach l f

@[simp] theorem pure_apply (a : α) (s : σ) : (pure a : Proc σ ε α) s = (.ok a, s) := rfl

@[simp] theorem raise_apply (e : ε) (s : σ) : (raise e : Proc σ ε α) s = (.error e, s) := rfl

@[simp] theorem read_apply (f : σ → α) (s : σ) : (read f : Proc σ ε α) s = (.ok (f s), s) := rfl

theorem bind_apply (m : Proc σ ε α) (f : α → Proc σ ε β) (s : σ) :
    (m >>= f) s = match m s with
      | (.ok a, s') => f a s'
      | (.error e, s') => (.error e, s') := rfl

theorem bind_of_ok {m : Proc σ ε α} {f : α → Proc σ ε β} {s s' : σ} {a : α}
    (h : m s = (.ok a, s')) : (m >>= f) s = f a s' := by
  rw [bind_apply, h]

theorem bind_of_error {m : Proc σ ε α} {f : α → Proc σ ε β} {s s' : σ} {e : ε}
    (h : m s = (.error e, s')) : (m >>= f) s = (.error e, s') := by
  rw [bind_apply, h]

theorem bind_pure_fst {m : Proc σ ε α} {s : σ} {a : α} (g : α → β) (h : (m s).1 = .ok a) :
    ((m >>= fun a => pure (g a)) s).1 = .ok (g a) := by
  rw [bind_apply]
  rcases hm : m s with ⟨r, s'⟩
  rw [hm] at h
  have hr : r = .ok a := h
  rw [hr]
  rfl

theorem forEach_cons {ι : Type} (x : ι) (l : List ι) (f : ι → Proc σ ε Unit) :
    forEach (x :: l) f = f x >>= fun _ => forEach l f := rfl

theorem bind_assoc {γ : Type} (m : Proc σ ε α) (f : α → Proc σ ε β) (g : β → Proc σ ε γ) :
    m >>= f >>= g = m >>= fun a => f a >>= g := by
  funext s
  rw [bind_apply, bind_apply, bind_apply]
  rcases m s with ⟨_ | a, s'⟩
  · rfl
  · rfl

/-- A loop over two lists in sequence is two loops in sequence. -/
theorem forEach_append {ι : Type} (l l' : List ι) (f : ι → Proc σ ε Unit) :
    forEach (l ++ l') f = forEach l f >>= fun _ => forEach l' f := by
  induction l with
  | nil => rfl
  | cons x l ih => rw [List.cons_append, forEach_cons, forEach_cons, ih, bind_assoc]

theorem transact_of_ok {t : Tx σ ε α} {s s' : σ} {a : α} (h : t s = .ok (a, s')) :
    transact t s = (.ok a, s') := by
  rw [transact, h]

theorem transact_of_error {t : Tx σ ε α} {s : σ} {e : ε} (h : t s = .error e) :
    transact t s = (.error e, s) := by
  rw [transact, h]

end Proc
