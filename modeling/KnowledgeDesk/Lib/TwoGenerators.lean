import KnowledgeDesk.Lib.Generator
import Mathlib.Data.List.Forall2

/-!
# Two runs of generators

For statements about what the consumer of a generator can tell apart: two statements, each under a
handler of its own, are `Twin` if from related states they yield values that are alike one by one, have
related outcomes (the same exception, or results that `A` relates), and end in related states. A state is
that of the local variables and that of the handler.
-/

namespace Stmt

open Gen

variable {Op : Type} {Reply : Op → Type} {φ ε lam α α' β β' ι σ : Type}

/-- The handlers of two runs, and when a value of one run is like a value of the other. -/
structure Pairing (Op : Type) (Reply : Op → Type) (φ σ : Type) where
  left : (o : Op) → σ → Reply o × σ
  right : (o : Op) → σ → Reply o × σ
  alike : φ → φ → Prop

/-- The same exception, or results that `A` relates. -/
def RelOutcome (A : α → α' → Prop) : Except ε α → Except ε α' → Prop
  | .ok a, .ok b => A a b
  | .error e, .error e' => e = e'
  | _, _ => False

/-- From states that `S` relates, the statements yield alike, have outcomes that `A` relates, and end in
states that `T` relates. -/
def Twin (p : Pairing Op Reply φ σ) (S : lam × σ → lam × σ → Prop) (m : Stmt Op Reply φ ε lam α)
    (n : Stmt Op Reply φ ε lam α') (A : α → α' → Prop) (T : lam × σ → lam × σ → Prop) : Prop :=
  ∀ x y, S x y → ∀ vs r k t vs' r' k' t', Plays p.left m x.1 x.2 vs r k t →
    Plays p.right n y.1 y.2 vs' r' k' t' →
      List.Forall₂ p.alike vs vs' ∧ RelOutcome A r r' ∧ T (k, t) (k', t')

theorem Plays.unique {handle : (o : Op) → σ → Reply o × σ} {m : Stmt Op Reply φ ε lam α} {l k k' : lam}
    {s t t' : σ} {vs vs' : List φ} {r r' : Except ε α} (h : Plays handle m l s vs r k t)
    (h' : Plays handle m l s vs' r' k' t') : vs = vs' ∧ r = r' ∧ k = k' ∧ t = t' := by
  have he := h.symm.trans h'
  simp only [Prod.mk.injEq] at he
  obtain ⟨rfl, ⟨rfl, rfl⟩, rfl⟩ := he
  exact ⟨rfl, rfl, rfl, rfl⟩

/-- Two statements in sequence play one after the other, unless the first one raises. -/
theorem Plays.of_bind {handle : (o : Op) → σ → Reply o × σ} {m : Stmt Op Reply φ ε lam β}
    {f : β → Stmt Op Reply φ ε lam α} {l k : lam} {s t : σ} {vs : List φ} {r : Except ε α}
    (h : Plays handle (m >>= f) l s vs r k t) :
    (∃ vs₁ vs₂ b l' s', vs = vs₁ ++ vs₂ ∧ Plays handle m l s vs₁ (.ok b) l' s' ∧
      Plays handle (f b) l' s' vs₂ r k t) ∨
    ∃ e, r = .error e ∧ Plays handle m l s vs (.error e) k t := by
  rcases hm : (m l).exec handle s with ⟨vs₁, ⟨r₁, l'⟩, s'⟩
  have hplays : Plays handle m l s vs₁ r₁ l' s' := hm
  cases r₁ with
  | ok b =>
    rcases hf : (f b l').exec handle s' with ⟨vs₂, ⟨r₂, l''⟩, s''⟩
    obtain ⟨rfl, rfl, rfl, rfl⟩ := h.unique (hplays.bind hf)
    exact .inl ⟨vs₁, vs₂, b, l', s', rfl, hplays, hf⟩
  | error e =>
    obtain ⟨rfl, rfl, rfl, rfl⟩ := h.unique (hplays.bind_error f)
    exact .inr ⟨e, rfl, hplays⟩

section Rules

variable {p : Pairing Op Reply φ σ} {S T U : lam × σ → lam × σ → Prop} {A : α → α' → Prop} {B : β → β' → Prop}

/-- Statements that end at once, yielding nothing. -/
theorem twin_ret {m : Stmt Op Reply φ ε lam α} {n : Stmt Op Reply φ ε lam α'} {r : lam → Except ε α}
    {r' : lam → Except ε α'} (f f' : lam → lam) (hm : ∀ l s, Plays p.left m l s [] (r l) (f l) s)
    (hn : ∀ l s, Plays p.right n l s [] (r' l) (f' l) s)
    (h : ∀ x y, S x y → RelOutcome A (r x.1) (r' y.1) ∧ T (f x.1, x.2) (f' y.1, y.2)) :
    Twin p S m n A T := by
  intro x y hs vs r₁ k t vs' r₂ k' t' h₁ h₂
  obtain ⟨rfl, rfl, rfl, rfl⟩ := h₁.unique (hm x.1 x.2)
  obtain ⟨rfl, rfl, rfl, rfl⟩ := h₂.unique (hn y.1 y.2)
  exact ⟨.nil, h x y hs⟩

theorem twin_pure {a : α} {b : α'} (h : A a b) :
    Twin p S (pure a : Stmt Op Reply φ ε lam α) (pure b) A S :=
  twin_ret id id (fun _ _ => plays_pure a) (fun _ _ => plays_pure b) fun _ _ hs => ⟨h, hs⟩

theorem twin_raise (e : ε) :
    Twin p S (raise e : Stmt Op Reply φ ε lam α) (raise e : Stmt Op Reply φ ε lam α') A S :=
  twin_ret id id (fun _ _ => plays_raise e) (fun _ _ => plays_raise e)
    fun _ _ hs => ⟨rfl, hs⟩

theorem twin_locals {L : lam → lam → Prop} (h : ∀ x y, S x y → L x.1 y.1) :
    Twin p S (locals : Stmt Op Reply φ ε lam lam) locals L S :=
  twin_ret id id (fun _ _ => plays_locals) (fun _ _ => plays_locals)
    fun x y hs => ⟨h x y hs, hs⟩

theorem twin_assign {f f' : lam → lam} (h : ∀ x y, S x y → T (f x.1, x.2) (f' y.1, y.2)) :
    Twin p S (assign f : Stmt Op Reply φ ε lam Unit) (assign f') (fun _ _ => True) T :=
  twin_ret f f' (fun _ _ => plays_assign f) (fun _ _ => plays_assign f') fun x y hs => ⟨trivial, h x y hs⟩

theorem twin_perform {o o' : Op} {A : Reply o → Reply o' → Prop}
    (h : ∀ x y, S x y → A (p.left o x.2).1 (p.right o' y.2).1 ∧
      T (x.1, (p.left o x.2).2) (y.1, (p.right o' y.2).2)) :
    Twin p S (perform o : Stmt Op Reply φ ε lam (Reply o)) (perform o') A T := by
  intro x y hs vs r k t vs' r' k' t' h₁ h₂
  obtain ⟨rfl, rfl, rfl, rfl⟩ := h₁.unique (plays_perform o)
  obtain ⟨rfl, rfl, rfl, rfl⟩ := h₂.unique (plays_perform o')
  exact ⟨.nil, h x y hs⟩

theorem twin_yield {closed : ε} {v w : φ} (h : p.alike v w) :
    Twin p S (yield closed v : Stmt Op Reply φ ε lam Unit) (yield closed w) (fun _ _ => True) S := by
  intro x y hs vs r k t vs' r' k' t' h₁ h₂
  obtain ⟨rfl, rfl, rfl, rfl⟩ := h₁.unique (plays_yield closed v)
  obtain ⟨rfl, rfl, rfl, rfl⟩ := h₂.unique (plays_yield closed w)
  exact ⟨.cons h .nil, trivial, hs⟩

/-- Sequencing: `T` is what holds of the states in between, or at an exception of the first statements. -/
theorem Twin.bind {m : Stmt Op Reply φ ε lam α} {n : Stmt Op Reply φ ε lam α'}
    {f : α → Stmt Op Reply φ ε lam β} {g : α' → Stmt Op Reply φ ε lam β'} (h : Twin p S m n A T)
    (hS : ∀ x y, T x y → U x y) (hf : ∀ a b, A a b → Twin p T (f a) (g b) B U) :
    Twin p S (m >>= f) (n >>= g) B U := by
  intro x y hs vs r k t vs' r' k' t' h₁ h₂
  rcases h₁.of_bind with ⟨vs₁, vs₂, a, l₁, s₁, rfl, hm, hfa⟩ | ⟨e, rfl, hm⟩ <;>
    rcases h₂.of_bind with ⟨vs₁', vs₂', b, l₁', s₁', rfl, hn, hgb⟩ | ⟨e', rfl, hn⟩
  · obtain ⟨hvs, hr, hs'⟩ := h x y hs _ _ _ _ _ _ _ _ hm hn
    obtain ⟨hvs', hr', ht⟩ := hf a b hr _ _ hs' _ _ _ _ _ _ _ _ hfa hgb
    exact ⟨List.rel_append hvs hvs', hr', ht⟩
  · exact (h x y hs _ _ _ _ _ _ _ _ hm hn).2.1.elim
  · exact (h x y hs _ _ _ _ _ _ _ _ hm hn).2.1.elim
  · obtain ⟨hvs, hr, hs'⟩ := h x y hs _ _ _ _ _ _ _ _ hm hn
    exact ⟨hvs, hr, hS _ _ hs'⟩

theorem twin_forEach {body body' : ι → Stmt Op Reply φ ε lam Unit}
    (h : ∀ i, Twin p S (body i) (body' i) (fun _ _ => True) S) (xs : List ι) :
    Twin p S (forEach xs body) (forEach xs body') (fun _ _ => True) S := by
  induction xs with
  | nil => exact twin_pure trivial
  | cons i xs ih => exact (h i).bind (fun _ _ hs => hs) fun _ _ _ => ih

/-- The same clause in both runs. -/
theorem Twin.tryExcept {m n : Stmt Op Reply φ ε lam α} {A : α → α → Prop} (h : Twin p S m n A T)
    {handler : ε → Option (Stmt Op Reply φ ε lam α)} (hS : ∀ x y, T x y → U x y)
    (hsome : ∀ e k, handler e = some k → Twin p T k k A U) :
    Twin p S (tryExcept m handler) (tryExcept n handler) A U := by
  intro x y hs vs r k t vs' r' k' t' h₁ h₂
  rcases hm : (m x.1).exec p.left x.2 with ⟨ms, ⟨mr, ml⟩, mt⟩
  rcases hn : (n y.1).exec p.right y.2 with ⟨ns, ⟨nr, nl⟩, nt⟩
  have hmp : Plays p.left m x.1 x.2 ms mr ml mt := hm
  have hnp : Plays p.right n y.1 y.2 ns nr nl nt := hn
  obtain ⟨hvs, hr, hs'⟩ := h x y hs _ _ _ _ _ _ _ _ hmp hnp
  match mr, nr, hr with
  | .ok a, .ok b, hr =>
    obtain ⟨rfl, rfl, rfl, rfl⟩ := h₁.unique (hmp.tryExcept_ok handler)
    obtain ⟨rfl, rfl, rfl, rfl⟩ := h₂.unique (hnp.tryExcept_ok handler)
    exact ⟨hvs, hr, hS _ _ hs'⟩
  | .error e, .error e', hr =>
    obtain rfl : e = e' := hr
    cases hh : handler e with
    | none =>
      obtain ⟨rfl, rfl, rfl, rfl⟩ := h₁.unique (hmp.tryExcept_none hh)
      obtain ⟨rfl, rfl, rfl, rfl⟩ := h₂.unique (hnp.tryExcept_none hh)
      exact ⟨hvs, rfl, hS _ _ hs'⟩
    | some c =>
      rcases hc : (c ml).exec p.left mt with ⟨cs, ⟨cr, cl⟩, ct⟩
      rcases hd : (c nl).exec p.right nt with ⟨ds, ⟨dr, dl⟩, dt⟩
      obtain ⟨hvs', hr', ht⟩ := hsome e c hh _ _ hs' _ _ _ _ _ _ _ _ hc hd
      obtain ⟨rfl, rfl, rfl, rfl⟩ := h₁.unique (hmp.tryExcept_error hh hc)
      obtain ⟨rfl, rfl, rfl, rfl⟩ := h₂.unique (hnp.tryExcept_error hh hd)
      exact ⟨List.rel_append hvs hvs', hr', ht⟩

theorem Twin.tryFinally {m n : Stmt Op Reply φ ε lam α} {A : α → α → Prop} (h : Twin p S m n A T)
    {block block' : Stmt Op Reply φ ε lam Unit} (hb : Twin p T block block' (fun _ _ => True) U) :
    Twin p S (tryFinally m block) (tryFinally n block') A U := by
  intro x y hs vs r k t vs' r' k' t' h₁ h₂
  rcases hm : (m x.1).exec p.left x.2 with ⟨ms, ⟨mr, ml⟩, mt⟩
  rcases hn : (n y.1).exec p.right y.2 with ⟨ns, ⟨nr, nl⟩, nt⟩
  rcases hc : (block ml).exec p.left mt with ⟨cs, ⟨cr, cl⟩, ct⟩
  rcases hd : (block' nl).exec p.right nt with ⟨ds, ⟨dr, dl⟩, dt⟩
  have hmp : Plays p.left m x.1 x.2 ms mr ml mt := hm
  have hnp : Plays p.right n y.1 y.2 ns nr nl nt := hn
  obtain ⟨hvs, hr, hs'⟩ := h x y hs _ _ _ _ _ _ _ _ hmp hnp
  obtain ⟨hvs', hr', ht⟩ := hb _ _ hs' _ _ _ _ _ _ _ _ hc hd
  obtain ⟨rfl, rfl, rfl, rfl⟩ := h₁.unique (hmp.tryFinally hc)
  obtain ⟨rfl, rfl, rfl, rfl⟩ := h₂.unique (hnp.tryFinally hd)
  refine ⟨List.rel_append hvs hvs', ?_, ht⟩
  match cr, dr, hr' with
  | .ok _, .ok _, _ => exact hr
  | .error e, .error e', he => exact he

end Rules

end Stmt
