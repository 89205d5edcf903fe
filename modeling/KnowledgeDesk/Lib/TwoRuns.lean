import KnowledgeDesk.Lib.Transaction

/-!
# Two runs of a method

For statements about what a method can tell apart: from stores that `R` relates, a method that `Agrees`
has the same outcome, and one that `Respects` leaves related stores too, so that what follows it cannot
tell them apart either. `Keeps` is the frame rule: a part of the store that a method does not change.
-/

namespace Proc

variable {σ ε α β ι : Type}

/-- The method has the same outcome in related stores. -/
def Agrees (R : σ → σ → Prop) (m : Proc σ ε α) : Prop :=
  ∀ s₁ s₂, R s₁ s₂ → (m s₁).1 = (m s₂).1

/-- The method has the same outcome in related stores, and leaves related stores. -/
def Respects (R : σ → σ → Prop) (m : Proc σ ε α) : Prop :=
  ∀ s₁ s₂, R s₁ s₂ → (m s₁).1 = (m s₂).1 ∧ R (m s₁).2 (m s₂).2

/-- From every store in `I`, the method leaves the part `f` of the store as it was. -/
def Keeps (I : σ → Prop) (f : σ → β) (m : Proc σ ε α) : Prop := ∀ s, I s → f (m s).2 = f s

/-- The method changes nothing. -/
def ReadOnly (m : Proc σ ε α) : Prop := ∀ s, (m s).2 = s

section Agrees

variable {R : σ → σ → Prop}

theorem Respects.agrees {m : Proc σ ε α} (h : Respects R m) : Agrees R m :=
  fun s₁ s₂ hs => (h s₁ s₂ hs).1

theorem Respects.pure (a : α) : Respects R (Pure.pure a : Proc σ ε α) := fun _ _ hs => ⟨rfl, hs⟩

theorem Respects.raise (e : ε) : Respects R (Proc.raise e : Proc σ ε α) := fun _ _ hs => ⟨rfl, hs⟩

theorem Respects.read {f : σ → α} (h : ∀ s₁ s₂, R s₁ s₂ → f s₁ = f s₂) :
    Respects R (Proc.read f : Proc σ ε α) :=
  fun s₁ s₂ hs => ⟨congrArg Except.ok (h s₁ s₂ hs), hs⟩

/-- The methods after `m` agree on the outcome of `m` and on the stores it leaves. -/
theorem Respects.bind_agrees {m : Proc σ ε α} {k : α → Proc σ ε β} (hm : Respects R m)
    (hk : ∀ a, Agrees R (k a)) : Agrees R (m >>= k) := by
  intro s₁ s₂ hs
  obtain ⟨hr, hs'⟩ := hm s₁ s₂ hs
  rw [bind_apply, bind_apply]
  rcases h₁ : m s₁ with ⟨r₁, t₁⟩
  rcases h₂ : m s₂ with ⟨r₂, t₂⟩
  simp only [h₁, h₂] at hr hs'
  subst hr
  cases r₁ with
  | ok a => exact hk a t₁ t₂ hs'
  | error e => rfl

theorem Respects.bind {m : Proc σ ε α} {k : α → Proc σ ε β} (hm : Respects R m)
    (hk : ∀ a, Respects R (k a)) : Respects R (m >>= k) := by
  intro s₁ s₂ hs
  obtain ⟨hr, hs'⟩ := hm s₁ s₂ hs
  rw [bind_apply, bind_apply]
  rcases h₁ : m s₁ with ⟨r₁, t₁⟩
  rcases h₂ : m s₂ with ⟨r₂, t₂⟩
  simp only [h₁, h₂] at hr hs'
  subst hr
  cases r₁ with
  | ok a => exact hk a t₁ t₂ hs'
  | error e => exact ⟨rfl, hs'⟩

/-- A transaction that commits or aborts alike in related stores, with the same result. -/
theorem Agrees.transact {t : Tx σ ε α}
    (h : ∀ s₁ s₂, R s₁ s₂ → (t s₁).map Prod.fst = (t s₂).map Prod.fst) :
    Agrees R (Proc.transact t) := by
  have hfst : ∀ s, (Proc.transact t s).1 = (t s).map Prod.fst := by
    intro s
    rw [Proc.transact]
    cases t s <;> rfl
  intro s₁ s₂ hs
  rw [hfst, hfst, h s₁ s₂ hs]

end Agrees

section Keeps

variable {I : σ → Prop} {f : σ → β}

theorem ReadOnly.pure (a : α) : ReadOnly (Pure.pure a : Proc σ ε α) := fun _ => rfl

theorem ReadOnly.raise (e : ε) : ReadOnly (Proc.raise e : Proc σ ε α) := fun _ => rfl

theorem ReadOnly.read (f : σ → α) : ReadOnly (Proc.read f : Proc σ ε α) := fun _ => rfl

theorem ReadOnly.bind {γ : Type} {m : Proc σ ε α} {k : α → Proc σ ε γ} (hm : ReadOnly m)
    (hk : ∀ a, ReadOnly (k a)) : ReadOnly (m >>= k) := by
  intro s
  have hs := hm s
  rw [bind_apply]
  rcases h : m s with ⟨r, t⟩
  rw [h] at hs
  cases r with
  | ok a => exact (hk a t).trans hs
  | error e => exact hs

theorem ReadOnly.keeps {m : Proc σ ε α} (h : ReadOnly m) : Keeps I f m := fun s _ => by rw [h s]

/-- What follows a method that only reads finds the store as it was. -/
theorem ReadOnly.bind_keeps {γ : Type} {m : Proc σ ε α} {k : α → Proc σ ε γ} (hm : ReadOnly m)
    (hk : ∀ a, Keeps I f (k a)) : Keeps I f (m >>= k) := by
  intro s hs
  have hsame := hm s
  rw [bind_apply]
  rcases h : m s with ⟨r, t⟩
  rw [h] at hsame
  obtain rfl : t = s := hsame
  cases r with
  | ok a => exact hk a t hs
  | error e => rfl

/-- What follows a method that keeps `f` may use the outcome it continues from. -/
theorem Keeps.bind {γ : Type} {m : Proc σ ε α} {k : α → Proc σ ε γ} (hm : Keeps I f m)
    (hk : ∀ s a s', I s → m s = (.ok a, s') → f (k a s').2 = f s') : Keeps I f (m >>= k) := by
  intro s hs
  have hkept := hm s hs
  rw [bind_apply]
  rcases h : m s with ⟨r, t⟩
  rw [h] at hkept
  cases r with
  | ok a => exact (hk s a t hs h).trans hkept
  | error e => exact hkept

theorem Keeps.forEach {l : List ι} {g : ι → Proc σ ε Unit}
    (h : ∀ x ∈ l, Keeps (fun _ => True) f (g x)) : Keeps (fun _ => True) f (Proc.forEach l g) := by
  induction l with
  | nil => exact fun _ _ => rfl
  | cons x l ih =>
    rw [forEach_cons]
    refine (h x List.mem_cons_self).bind fun s a s' _ _ => ?_
    exact ih (fun y hy => h y (List.mem_cons_of_mem x hy)) s' trivial

theorem Keeps.transact {t : Tx σ ε α} (h : ∀ s a s', I s → t s = .ok (a, s') → f s' = f s) :
    Keeps I f (Proc.transact t) := by
  intro s hs
  rw [Proc.transact]
  split
  · rename_i a s' hok
    exact h s a s' hs hok
  · rfl

end Keeps

end Proc
