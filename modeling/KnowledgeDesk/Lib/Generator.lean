import Mathlib.Data.List.Basic

/-!
# Generators

A generator (`Gen`) performs operations, to which its surroundings reply, and yields values, at each of
which its consumer asks for the next one or closes it. Its statements (`Stmt`) have local variables and
exceptions: closing raises at the `yield`, a `try` statement catches what its clause names, and a
`finally` block runs in any case. `Reaches` is what can happen to a generator, `exec` is its run under a
handler of the operations by a consumer who takes everything, and `Spec` is a Hoare logic whose
assertions speak of the events so far and of the local variables.
-/

/-- How a generator is resumed at a `yield`. -/
inductive Signal where
  | next | close
  deriving DecidableEq, Repr

/-- A generator that performs `Op`s, yields `φ`s and returns an `α`. -/
inductive Gen (Op : Type) (Reply : Op → Type) (φ α : Type) where
  | ret (a : α)
  | perform (o : Op) (k : Reply o → Gen Op Reply φ α)
  | emit (f : φ) (k : Signal → Gen Op Reply φ α)

namespace Gen

variable {Op : Type} {Reply : Op → Type} {φ α β σ : Type}

/-- What happens to a generator: a reply to an operation, or a signal at a `yield`. -/
inductive Event (Op : Type) (Reply : Op → Type) (φ : Type) where
  | performed (o : Op) (r : Reply o)
  | yielded (f : φ) (s : Signal)

def bind (g : Gen Op Reply φ α) (f : α → Gen Op Reply φ β) : Gen Op Reply φ β :=
  match g with
  | .ret a => f a
  | .perform o k => .perform o fun r => (k r).bind f
  | .emit v k => .emit v fun s => (k s).bind f

/-! ## What can happen -/

/-- The events `es` lead from one generator to another. -/
inductive Reaches : Gen Op Reply φ α → List (Event Op Reply φ) → Gen Op Reply φ α → Prop
  | refl (g : Gen Op Reply φ α) : Reaches g [] g
  | performed {o : Op} {k : Reply o → Gen Op Reply φ α} {r : Reply o} {es : List (Event Op Reply φ)}
      {g : Gen Op Reply φ α} : Reaches (k r) es g → Reaches (.perform o k) (.performed o r :: es) g
  | yielded {f : φ} {k : Signal → Gen Op Reply φ α} {s : Signal} {es : List (Event Op Reply φ)}
      {g : Gen Op Reply φ α} : Reaches (k s) es g → Reaches (.emit f k) (.yielded f s :: es) g

/-- The generator runs to its end. -/
def Path (g : Gen Op Reply φ α) (es : List (Event Op Reply φ)) (a : α) : Prop := Reaches g es (.ret a)

theorem Reaches.trans {g g' g'' : Gen Op Reply φ α} {es es' : List (Event Op Reply φ)}
    (h : Reaches g es g') (h' : Reaches g' es' g'') : Reaches g (es ++ es') g'' := by
  induction h with
  | refl g => exact h'
  | performed _ ih => exact .performed (ih h')
  | yielded _ ih => exact .yielded (ih h')

theorem path_ret {a b : α} {es : List (Event Op Reply φ)} :
    Path (.ret a : Gen Op Reply φ α) es b ↔ es = [] ∧ a = b := by
  constructor
  · intro h
    cases h
    exact ⟨rfl, rfl⟩
  · rintro ⟨rfl, rfl⟩
    exact .refl _

theorem path_perform {o : Op} {k : Reply o → Gen Op Reply φ α} {es : List (Event Op Reply φ)} {a : α} :
    Path (.perform o k) es a ↔ ∃ r es', es = .performed o r :: es' ∧ Path (k r) es' a := by
  constructor
  · intro h
    cases h with
    | performed h => exact ⟨_, _, rfl, h⟩
  · rintro ⟨r, es', rfl, h⟩
    exact .performed h

theorem path_emit {f : φ} {k : Signal → Gen Op Reply φ α} {es : List (Event Op Reply φ)} {a : α} :
    Path (.emit f k) es a ↔ ∃ s es', es = .yielded f s :: es' ∧ Path (k s) es' a := by
  constructor
  · intro h
    cases h with
    | yielded h => exact ⟨_, _, rfl, h⟩
  · rintro ⟨s, es', rfl, h⟩
    exact .yielded h

/-- A run of two generators in sequence is a run of the first and one of the second. -/
theorem path_bind {g : Gen Op Reply φ α} {f : α → Gen Op Reply φ β} :
    ∀ {es : List (Event Op Reply φ)} {b : β}, Path (g.bind f) es b →
      ∃ es₁ a es₂, es = es₁ ++ es₂ ∧ Path g es₁ a ∧ Path (f a) es₂ b := by
  induction g with
  | ret a => exact fun {es b} h => ⟨[], a, es, rfl, .refl _, h⟩
  | perform o k ih =>
    intro es b h
    obtain ⟨r, es', rfl, hk⟩ := path_perform.1 h
    obtain ⟨es₁, a, es₂, rfl, h₁, h₂⟩ := ih r hk
    exact ⟨_ :: es₁, a, es₂, rfl, .performed h₁, h₂⟩
  | emit v k ih =>
    intro es b h
    obtain ⟨s, es', rfl, hk⟩ := path_emit.1 h
    obtain ⟨es₁, a, es₂, rfl, h₁, h₂⟩ := ih s hk
    exact ⟨_ :: es₁, a, es₂, rfl, .yielded h₁, h₂⟩

/-- Every generator can come to an end, if every operation can be replied to. -/
theorem exists_path (hreply : ∀ o, Nonempty (Reply o)) (g : Gen Op Reply φ α) : ∃ es a, Path g es a := by
  induction g with
  | ret a => exact ⟨[], a, .refl _⟩
  | perform o k ih =>
    obtain ⟨r⟩ := hreply o
    obtain ⟨es, a, h⟩ := ih r
    exact ⟨_, a, .performed h⟩
  | emit v k ih =>
    obtain ⟨es, a, h⟩ := ih .next
    exact ⟨_, a, .yielded h⟩

/-! ## What comes before an operation -/

section Each

variable {R : List (Event Op Reply φ) → Op → Prop} {h : List (Event Op Reply φ)}

/-- Each operation of the history is performed after what `R` wants to have happened before it. -/
def Each (R : List (Event Op Reply φ) → Op → Prop) (h : List (Event Op Reply φ)) : Prop :=
  ∀ h₁ o r h₂, h = h₁ ++ .performed o r :: h₂ → R h₁ o

theorem each_nil : Each R ([] : List (Event Op Reply φ)) := by
  intro h₁ o r h₂ he
  cases h₁ <;> cases he

theorem Each.snoc (hh : Each R h) {e : Event Op Reply φ} (he : ∀ o r, e = .performed o r → R h o) :
    Each R (h ++ [e]) := by
  intro h₁ o r h₂ heq
  rcases List.eq_nil_or_concat h₂ with rfl | ⟨h₂', e', rfl⟩
  · obtain ⟨rfl, he'⟩ := List.append_inj' heq rfl
    exact he o r (List.cons.inj he').1
  · rw [List.concat_eq_append, ← List.cons_append, ← List.append_assoc] at heq
    exact hh h₁ o r h₂' (List.append_inj' heq rfl).1

theorem Each.performed {o : Op} {r : Reply o} (hh : Each R h) (ho : R h o) :
    Each R (h ++ [(.performed o r : Event Op Reply φ)]) := by
  refine hh.snoc fun o' r' he => ?_
  cases he
  exact ho

theorem Each.yielded (hh : Each R h) (f : φ) (s : Signal) :
    Each R (h ++ [(.yielded f s : Event Op Reply φ)]) :=
  hh.snoc fun _ _ he => by cases he

/-- What all complete histories have before an operation, has happened when a generator comes to it. -/
theorem Each.of_reaches (hreply : ∀ o, Nonempty (Reply o)) {g : Gen Op Reply φ α}
    (hg : ∀ es a, Path g es a → Each R es) {es : List (Event Op Reply φ)} {o : Op}
    {k : Reply o → Gen Op Reply φ α} (h : Reaches g es (.perform o k)) : R es o := by
  obtain ⟨r⟩ := hreply o
  obtain ⟨es', a, hpath⟩ := exists_path hreply (k r)
  exact hg _ a (h.trans (.performed hpath)) es o r es' rfl

end Each

/-! ## Runs under a handler -/

/-- The run of a generator whose operations `handle` replies to and whose consumer takes every value:
what it yields, what it returns, and the state of the handler after it. -/
def exec (handle : (o : Op) → σ → Reply o × σ) : Gen Op Reply φ α → σ → List φ × α × σ
  | .ret a, s => ([], a, s)
  | .perform o k, s => (k (handle o s).1).exec handle (handle o s).2
  | .emit v k, s =>
    let (vs, a, s') := (k .next).exec handle s
    (v :: vs, a, s')

theorem exec_bind (handle : (o : Op) → σ → Reply o × σ) (g : Gen Op Reply φ α)
    (f : α → Gen Op Reply φ β) : ∀ s, (g.bind f).exec handle s =
      let (vs, a, s') := g.exec handle s
      let (ws, b, s'') := (f a).exec handle s'
      (vs ++ ws, b, s'') := by
  induction g with
  | ret a => exact fun s => rfl
  | perform o k ih => exact fun s => ih _ _
  | emit v k ih =>
    intro s
    show (v :: (((k .next).bind f).exec handle s).1, _, _) = _
    rw [ih .next s]
    rfl

end Gen

/-! ## Statements -/

/-- A statement: from the local variables, a generator that returns an outcome and the variables as they
are after it. An exception does not undo an assignment. -/
def Stmt (Op : Type) (Reply : Op → Type) (φ ε lam α : Type) : Type :=
  lam → Gen Op Reply φ (Except ε α × lam)

namespace Stmt

open Gen

variable {Op : Type} {Reply : Op → Type} {φ ε lam α β ι σ : Type}

def bind (m : Stmt Op Reply φ ε lam α) (f : α → Stmt Op Reply φ ε lam β) : Stmt Op Reply φ ε lam β := fun l =>
  (m l).bind fun r => match r with
    | (.ok a, l') => f a l'
    | (.error e, l') => .ret (.error e, l')

instance : Monad (Stmt Op Reply φ ε lam) where
  pure a := fun l => .ret (.ok a, l)
  bind := bind

/-- `raise`. -/
def raise (e : ε) : Stmt Op Reply φ ε lam α := fun l => .ret (.error e, l)

/-- The local variables. -/
def locals : Stmt Op Reply φ ε lam lam := fun l => .ret (.ok l, l)

/-- An assignment. -/
def assign (f : lam → lam) : Stmt Op Reply φ ε lam Unit := fun l => .ret (.ok (), f l)

/-- An operation. -/
def perform (o : Op) : Stmt Op Reply φ ε lam (Reply o) := fun l => .perform o fun r => .ret (.ok r, l)

/-- `yield v`, which raises `closed` when the consumer closes the generator there. -/
def yield (closed : ε) (v : φ) : Stmt Op Reply φ ε lam Unit := fun l => .emit v fun s =>
  match s with
  | .next => .ret (.ok (), l)
  | .close => .ret (.error closed, l)

/-- `try: m except: h`, where `h e = none` for an exception the clause does not catch. -/
def tryExcept (m : Stmt Op Reply φ ε lam α) (h : ε → Option (Stmt Op Reply φ ε lam α)) :
    Stmt Op Reply φ ε lam α := fun l =>
  (m l).bind fun r => match r with
    | (.ok a, l') => .ret (.ok a, l')
    | (.error e, l') => match h e with
      | none => .ret (.error e, l')
      | some k => k l'

/-- `try: m finally: f`. An exception of the block replaces the outcome. -/
def tryFinally (m : Stmt Op Reply φ ε lam α) (f : Stmt Op Reply φ ε lam Unit) :
    Stmt Op Reply φ ε lam α := fun l =>
  (m l).bind fun r => (f r.2).bind fun r' => match r' with
    | (.ok (), l'') => .ret (r.1, l'')
    | (.error e, l'') => .ret (.error e, l'')

/-- `for x in xs: body x`. -/
def forEach (xs : List ι) (body : ι → Stmt Op Reply φ ε lam Unit) : Stmt Op Reply φ ε lam Unit :=
  match xs with
  | [] => pure ()
  | x :: xs => bind (body x) fun _ => forEach xs body

/-! ## The logic -/

/-- From every history and variables that satisfy `P`, whatever happens, the statement ends with a
history, an outcome and variables that satisfy `Q`. -/
def Spec (P : List (Event Op Reply φ) → lam → Prop) (m : Stmt Op Reply φ ε lam α)
    (Q : List (Event Op Reply φ) → Except ε α → lam → Prop) : Prop :=
  ∀ h l, P h l → ∀ es r l', Path (m l) es (r, l') → Q (h ++ es) r l'

section Rules

variable {P P' : List (Event Op Reply φ) → lam → Prop} {Q Q' : List (Event Op Reply φ) → Except ε α → lam → Prop}

theorem Spec.imp {m : Stmt Op Reply φ ε lam α} (hm : Spec P m Q) (hP : ∀ h l, P' h l → P h l)
    (hQ : ∀ h r l, Q h r l → Q' h r l) : Spec P' m Q' :=
  fun h l hp es r l' hpath => hQ _ _ _ (hm h l (hP h l hp) es r l' hpath)

theorem spec_ret {r : Except ε α} {f : lam → lam} (h : ∀ h l, P h l → Q h r (f l)) :
    Spec P (fun l => .ret (r, f l) : Stmt Op Reply φ ε lam α) Q := by
  intro h₀ l hp es r' l' hpath
  obtain ⟨rfl, he⟩ := path_ret.1 hpath
  obtain ⟨rfl, rfl⟩ := Prod.mk.inj he
  rw [List.append_nil]
  exact h h₀ l hp

theorem spec_pure {a : α} (h : ∀ h l, P h l → Q h (.ok a) l) :
    Spec P (pure a : Stmt Op Reply φ ε lam α) Q := spec_ret (f := id) h

theorem spec_raise {e : ε} (h : ∀ h l, P h l → Q h (.error e) l) :
    Spec P (raise e : Stmt Op Reply φ ε lam α) Q := spec_ret (f := id) h

theorem spec_locals {Q : List (Event Op Reply φ) → Except ε lam → lam → Prop}
    (h : ∀ h l, P h l → Q h (.ok l) l) : Spec P (locals : Stmt Op Reply φ ε lam lam) Q := by
  intro h₀ l hp es r l' hpath
  obtain ⟨rfl, he⟩ := path_ret.1 hpath
  obtain ⟨rfl, rfl⟩ := Prod.mk.inj he
  rw [List.append_nil]
  exact h h₀ l hp

theorem spec_assign {Q : List (Event Op Reply φ) → Except ε Unit → lam → Prop} {f : lam → lam}
    (h : ∀ h l, P h l → Q h (.ok ()) (f l)) : Spec P (assign f : Stmt Op Reply φ ε lam Unit) Q :=
  spec_ret h

theorem spec_perform {o : Op} {Q : List (Event Op Reply φ) → Except ε (Reply o) → lam → Prop}
    (h : ∀ h l r, P h l → Q (h ++ [.performed o r]) (.ok r) l) :
    Spec P (perform o : Stmt Op Reply φ ε lam (Reply o)) Q := by
  intro h₀ l hp es r' l' hpath
  obtain ⟨r, es', rfl, hk⟩ := path_perform.1 hpath
  obtain ⟨rfl, he⟩ := path_ret.1 hk
  obtain ⟨rfl, rfl⟩ := Prod.mk.inj he
  exact h h₀ l r hp

theorem spec_yield {closed : ε} {v : φ} {Q : List (Event Op Reply φ) → Except ε Unit → lam → Prop}
    (hnext : ∀ h l, P h l → Q (h ++ [.yielded v .next]) (.ok ()) l)
    (hclose : ∀ h l, P h l → Q (h ++ [.yielded v .close]) (.error closed) l) :
    Spec P (yield closed v : Stmt Op Reply φ ε lam Unit) Q := by
  intro h₀ l hp es r' l' hpath
  obtain ⟨s, es', rfl, hk⟩ := path_emit.1 hpath
  cases s with
  | next =>
    obtain ⟨rfl, he⟩ := path_ret.1 hk
    obtain ⟨rfl, rfl⟩ := Prod.mk.inj he
    exact hnext h₀ l hp
  | close =>
    obtain ⟨rfl, he⟩ := path_ret.1 hk
    obtain ⟨rfl, rfl⟩ := Prod.mk.inj he
    exact hclose h₀ l hp

/-- Sequencing: `R` is what holds between the statements. -/
theorem spec_bind {m : Stmt Op Reply φ ε lam β} {f : β → Stmt Op Reply φ ε lam α}
    {R : List (Event Op Reply φ) → Except ε β → lam → Prop} (hm : Spec P m R)
    (hf : ∀ b, Spec (fun h l => R h (.ok b) l) (f b) Q) (he : ∀ h e l, R h (.error e) l → Q h (.error e) l) :
    Spec P (m >>= f) Q := by
  intro h l hp es r l' hpath
  obtain ⟨es₁, ⟨r₁, l₁⟩, es₂, rfl, h₁, h₂⟩ := path_bind hpath
  have hR := hm h l hp es₁ r₁ l₁ h₁
  rw [← List.append_assoc]
  cases r₁ with
  | ok b => exact hf b _ _ hR es₂ r l' h₂
  | error e =>
    obtain ⟨rfl, heq⟩ := path_ret.1 h₂
    obtain ⟨rfl, rfl⟩ := Prod.mk.inj heq
    rw [List.append_nil]
    exact he _ _ _ hR

theorem spec_tryExcept {m : Stmt Op Reply φ ε lam α} {handler : ε → Option (Stmt Op Reply φ ε lam α)}
    {R : List (Event Op Reply φ) → Except ε α → lam → Prop} (hm : Spec P m R)
    (hok : ∀ h a l, R h (.ok a) l → Q h (.ok a) l)
    (hnone : ∀ h e l, handler e = none → R h (.error e) l → Q h (.error e) l)
    (hsome : ∀ e k, handler e = some k → Spec (fun h l => R h (.error e) l) k Q) :
    Spec P (tryExcept m handler) Q := by
  intro h l hp es r l' hpath
  obtain ⟨es₁, ⟨r₁, l₁⟩, es₂, rfl, h₁, h₂⟩ := path_bind hpath
  have hR := hm h l hp es₁ r₁ l₁ h₁
  rw [← List.append_assoc]
  cases r₁ with
  | ok a =>
    obtain ⟨rfl, heq⟩ := path_ret.1 h₂
    obtain ⟨rfl, rfl⟩ := Prod.mk.inj heq
    rw [List.append_nil]
    exact hok _ _ _ hR
  | error e =>
    cases hh : handler e with
    | none =>
      simp only [hh] at h₂
      obtain ⟨rfl, heq⟩ := path_ret.1 h₂
      obtain ⟨rfl, rfl⟩ := Prod.mk.inj heq
      rw [List.append_nil]
      exact hnone _ _ _ hh hR
    | some k =>
      simp only [hh] at h₂
      exact hsome e k hh _ _ hR es₂ r l' h₂

/-- The block runs after every outcome `r₀` of the statement. -/
theorem spec_tryFinally {m : Stmt Op Reply φ ε lam α} {block : Stmt Op Reply φ ε lam Unit}
    {R : List (Event Op Reply φ) → Except ε α → lam → Prop} (hm : Spec P m R)
    (hblock : ∀ r₀, Spec (fun h l => R h r₀ l) block fun h r l => Q h (r.bind fun _ => r₀) l) :
    Spec P (tryFinally m block) Q := by
  intro h l hp es r l' hpath
  obtain ⟨es₁, ⟨r₁, l₁⟩, es₂, rfl, h₁, h₂⟩ := path_bind hpath
  obtain ⟨es₃, ⟨r₂, l₂⟩, es₄, rfl, h₃, h₄⟩ := path_bind h₂
  have hR := hm h l hp es₁ r₁ l₁ h₁
  have hQ := hblock r₁ _ _ hR es₃ r₂ l₂ h₃
  rw [← List.append_assoc, ← List.append_assoc]
  cases r₂ with
  | ok u =>
    obtain ⟨rfl, heq⟩ := path_ret.1 h₄
    obtain ⟨rfl, rfl⟩ := Prod.mk.inj heq
    rw [List.append_nil]
    exact hQ
  | error e =>
    obtain ⟨rfl, heq⟩ := path_ret.1 h₄
    obtain ⟨rfl, rfl⟩ := Prod.mk.inj heq
    rw [List.append_nil]
    exact hQ

/-- The loop rule: `I` is the invariant, indexed by what is left of the list. -/
theorem spec_forEach {body : ι → Stmt Op Reply φ ε lam Unit}
    {I : List ι → List (Event Op Reply φ) → lam → Prop}
    {Q : List (Event Op Reply φ) → Except ε Unit → lam → Prop}
    (hbody : ∀ x xs, Spec (I (x :: xs)) (body x) fun h r l => match r with
      | .ok () => I xs h l
      | .error e => Q h (.error e) l)
    (hdone : ∀ h l, I [] h l → Q h (.ok ()) l) : ∀ xs, Spec (I xs) (forEach xs body) Q := by
  intro xs
  induction xs with
  | nil => exact spec_pure hdone
  | cons x xs ih => exact spec_bind (hbody x xs) (fun _ => ih) fun h e l hq => hq

end Rules

/-- Whatever happens, the statement leaves the assertion true, also when it raises. -/
def Keeps (I : List (Event Op Reply φ) → lam → Prop) (m : Stmt Op Reply φ ε lam α) : Prop :=
  Spec I m fun h _ l => I h l

section Keeps

variable {I : List (Event Op Reply φ) → lam → Prop}

theorem keeps_pure (a : α) : Keeps I (pure a : Stmt Op Reply φ ε lam α) := spec_pure fun _ _ hi => hi

theorem keeps_raise (e : ε) : Keeps I (raise e : Stmt Op Reply φ ε lam α) := spec_raise fun _ _ hi => hi

theorem keeps_assign {f : lam → lam} (h : ∀ h l, I h l → I h (f l)) :
    Keeps I (assign f : Stmt Op Reply φ ε lam Unit) := spec_assign h

theorem keeps_perform {o : Op} (h : ∀ h l r, I h l → I (h ++ [.performed o r]) l) :
    Keeps I (perform o : Stmt Op Reply φ ε lam (Reply o)) := spec_perform h

theorem keeps_yield {closed : ε} {v : φ} (h : ∀ h l s, I h l → I (h ++ [.yielded v s]) l) :
    Keeps I (yield closed v : Stmt Op Reply φ ε lam Unit) :=
  spec_yield (fun h' l => h h' l .next) fun h' l => h h' l .close

theorem Keeps.bind {m : Stmt Op Reply φ ε lam β} {f : β → Stmt Op Reply φ ε lam α} (hm : Keeps I m)
    (hf : ∀ b, Keeps I (f b)) : Keeps I (m >>= f) :=
  spec_bind hm hf fun _ _ _ hi => hi

theorem keeps_forEach {body : ι → Stmt Op Reply φ ε lam Unit} (h : ∀ x, Keeps I (body x)) (xs : List ι) :
    Keeps I (forEach xs body) := by
  induction xs with
  | nil => exact keeps_pure ()
  | cons x xs ih => exact (h x).bind fun _ => ih

/-- A statement that keeps the assertion, followed by one that starts from it. -/
theorem Keeps.spec_bind {m : Stmt Op Reply φ ε lam β} {f : β → Stmt Op Reply φ ε lam α}
    {Q : List (Event Op Reply φ) → Except ε α → lam → Prop} (hm : Keeps I m) (hf : ∀ b, Spec I (f b) Q)
    (he : ∀ h e l, I h l → Q h (.error e) l) : Spec I (m >>= f) Q :=
  Stmt.spec_bind hm hf he

end Keeps

/-! ## Runs under a handler -/

section Plays

variable {handle : (o : Op) → σ → Reply o × σ} {s s' s'' : σ} {l l' l'' : lam} {vs ws : List φ}

/-- Under the handler, from the variables `l` and the state `s`, the statement yields `vs` and ends with the
outcome `r`, the variables `l'` and the state `s'`. -/
def Plays (handle : (o : Op) → σ → Reply o × σ) (m : Stmt Op Reply φ ε lam α) (l : lam) (s : σ) (vs : List φ)
    (r : Except ε α) (l' : lam) (s' : σ) : Prop :=
  (m l).exec handle s = (vs, (r, l'), s')

theorem plays_pure (a : α) :
    Plays handle (pure a : Stmt Op Reply φ ε lam α) l s [] (.ok a) l s := rfl

theorem plays_raise (e : ε) :
    Plays handle (raise e : Stmt Op Reply φ ε lam α) l s [] (.error e) l s := rfl

theorem plays_locals : Plays handle (locals : Stmt Op Reply φ ε lam lam) l s [] (.ok l) l s := rfl

theorem plays_assign (f : lam → lam) :
    Plays handle (assign f : Stmt Op Reply φ ε lam Unit) l s [] (.ok ()) (f l) s := rfl

theorem plays_perform (o : Op) :
    Plays handle (perform o : Stmt Op Reply φ ε lam (Reply o)) l s [] (.ok (handle o s).1) l (handle o s).2 :=
  rfl

theorem plays_yield (closed : ε) (v : φ) :
    Plays handle (yield closed v : Stmt Op Reply φ ε lam Unit) l s [v] (.ok ()) l s := rfl

theorem Plays.bind {m : Stmt Op Reply φ ε lam β} {f : β → Stmt Op Reply φ ε lam α} {b : β} {r : Except ε α}
    (hm : Plays handle m l s vs (.ok b) l' s') (hf : Plays handle (f b) l' s' ws r l'' s'') :
    Plays handle (m >>= f) l s (vs ++ ws) r l'' s'' := by
  show ((m l).bind _).exec handle s = _
  unfold Plays at hm hf
  rw [exec_bind, hm]
  show (vs ++ ((f b l').exec handle s').1, _, _) = _
  rw [hf]

theorem Plays.bind_error {m : Stmt Op Reply φ ε lam β} (f : β → Stmt Op Reply φ ε lam α) {e : ε}
    (hm : Plays handle m l s vs (.error e) l' s') : Plays handle (m >>= f) l s vs (.error e) l' s' := by
  show ((m l).bind _).exec handle s = _
  unfold Plays at hm
  rw [exec_bind, hm]
  show (vs ++ [], _, _) = _
  rw [List.append_nil]

theorem Plays.tryExcept_ok {m : Stmt Op Reply φ ε lam α} (h : ε → Option (Stmt Op Reply φ ε lam α)) {a : α}
    (hm : Plays handle m l s vs (.ok a) l' s') : Plays handle (tryExcept m h) l s vs (.ok a) l' s' := by
  show ((m l).bind _).exec handle s = _
  unfold Plays at hm
  rw [exec_bind, hm]
  show (vs ++ [], _, _) = _
  rw [List.append_nil]

theorem Plays.tryExcept_none {m : Stmt Op Reply φ ε lam α} {h : ε → Option (Stmt Op Reply φ ε lam α)} {e : ε}
    (hm : Plays handle m l s vs (.error e) l' s') (hh : h e = none) :
    Plays handle (tryExcept m h) l s vs (.error e) l' s' := by
  show ((m l).bind _).exec handle s = _
  unfold Plays at hm
  rw [exec_bind, hm]
  simp only [hh]
  show (vs ++ [], (Except.error e, l'), s') = _
  rw [List.append_nil]

theorem Plays.tryExcept_error {m k : Stmt Op Reply φ ε lam α} {h : ε → Option (Stmt Op Reply φ ε lam α)}
    {e : ε} {r : Except ε α} (hm : Plays handle m l s vs (.error e) l' s') (hk : h e = some k)
    (hplays : Plays handle k l' s' ws r l'' s'') :
    Plays handle (tryExcept m h) l s (vs ++ ws) r l'' s'' := by
  show ((m l).bind _).exec handle s = _
  unfold Plays at hm hplays
  rw [exec_bind, hm]
  simp only [hk]
  rw [hplays]

theorem Plays.tryFinally {m : Stmt Op Reply φ ε lam α} {block : Stmt Op Reply φ ε lam Unit} {r : Except ε α}
    {r' : Except ε Unit} (hm : Plays handle m l s vs r l' s') (hb : Plays handle block l' s' ws r' l'' s'') :
    Plays handle (tryFinally m block) l s (vs ++ ws) (r'.bind fun _ => r) l'' s'' := by
  show ((m l).bind _).exec handle s = _
  unfold Plays at hm hb
  rw [exec_bind, hm]
  dsimp only
  rw [exec_bind, hb]
  cases r' with
  | ok u => simp [Gen.exec, Except.bind]
  | error e => simp [Gen.exec, Except.bind]

end Plays

end Stmt
