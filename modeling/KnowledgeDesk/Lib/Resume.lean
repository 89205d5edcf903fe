import Mathlib.Logic.Basic

/-!
# Computations in atomic steps

A computation that shares a store with others: between two of its steps the store may become any other.
A step is given what comes in from outside, and goes on by what it has found in the store. Of a
computation it is said what each of its steps does (`Each`), which errors it does not end in (`Avoids`),
that it has done nothing when it ends in such an error (`Undoes`), that one of its steps leaves a mark
(`Marks`), and that its steps are those of a more abstract machine (`Refines`). `Path` is what can happen
to it.
-/

/-- A computation. -/
inductive Resume (ι σ ε α : Type) where
  | done (r : Except ε α)
  | step (f : ι → σ → σ) (k : ι → σ → Resume ι σ ε α)

namespace Resume

variable {ι σ ε α β : Type}

def bind : Resume ι σ ε α → (α → Resume ι σ ε β) → Resume ι σ ε β
  | done (.ok a), g => g a
  | done (.error e), _ => done (.error e)
  | step f k, g => step f fun i s => (k i s).bind g

instance : Monad (Resume ι σ ε) where
  pure a := done (.ok a)
  bind := bind

/-- What is done at once, or raises. -/
def lift (r : Except ε α) : Resume ι σ ε α := done r

/-- `raise`. -/
def raise (e : ε) : Resume ι σ ε α := done (.error e)

/-- One step. -/
def act (t : ι → σ → Except ε α × σ) : Resume ι σ ε α := step (fun i s => (t i s).2) fun i s => done (t i s).1

@[simp] theorem pure_eq (a : α) : (pure a : Resume ι σ ε α) = done (.ok a) := rfl

@[simp] theorem done_ok_bind (a : α) (g : α → Resume ι σ ε β) : (done (.ok a) >>= g : Resume ι σ ε β) = g a := rfl

@[simp] theorem done_error_bind (e : ε) (g : α → Resume ι σ ε β) :
    (done (.error e) >>= g : Resume ι σ ε β) = done (.error e) := rfl

@[simp] theorem step_bind (f : ι → σ → σ) (k : ι → σ → Resume ι σ ε α) (g : α → Resume ι σ ε β) :
    (step f k >>= g : Resume ι σ ε β) = step f fun i s => k i s >>= g := rfl

/-! ## What can happen -/

/-- A step that has been taken: what came in, and the store before and after it. -/
structure Taken (ι σ : Type) where
  input : ι
  before : σ
  after : σ

/-- The computation takes these steps, at whatever stores, and this is left of it. -/
inductive Path : Resume ι σ ε α → List (Taken ι σ) → Resume ι σ ε α → Prop
  | nil (r : Resume ι σ ε α) : Path r [] r
  | step {f : ι → σ → σ} {k : ι → σ → Resume ι σ ε α} {i : ι} {s : σ} {ts : List (Taken ι σ)}
      {r : Resume ι σ ε α} (rest : Path (k i s) ts r) : Path (step f k) (⟨i, s, f i s⟩ :: ts) r

theorem path_done {r : Except ε α} {ts : List (Taken ι σ)} {r' : Resume ι σ ε α} (h : Path (done r) ts r') :
    ts = [] ∧ r' = done r := by
  cases h
  exact ⟨rfl, rfl⟩

theorem path_act {t : ι → σ → Except ε α × σ} {ts : List (Taken ι σ)} {a : α}
    (h : Path (act t) ts (done (.ok a))) : ∃ i s, ts = [⟨i, s, (t i s).2⟩] ∧ (t i s).1 = .ok a := by
  cases h with
  | @step _ _ i s ts _ rest =>
    obtain ⟨rfl, hr⟩ := path_done rest
    exact ⟨i, s, rfl, (done.inj hr).symm⟩

/-- A computation and what comes after it: it has not returned, or it has, and the rest has followed. -/
theorem path_bind {r : Resume ι σ ε α} {g : α → Resume ι σ ε β} {ts : List (Taken ι σ)} {r'' : Resume ι σ ε β}
    (h : Path (r >>= g) ts r'') :
    (∃ r', Path r ts r' ∧ (∀ a, r' ≠ done (.ok a)) ∧ r'' = r' >>= g) ∨
      ∃ a ts₁ ts₂, ts = ts₁ ++ ts₂ ∧ Path r ts₁ (done (.ok a)) ∧ Path (g a) ts₂ r'' := by
  induction r generalizing ts with
  | done r => cases r with
    | ok a => exact .inr ⟨a, [], ts, rfl, .nil _, h⟩
    | error e =>
      obtain ⟨rfl, rfl⟩ := path_done h
      exact .inl ⟨_, .nil _, by simp, rfl⟩
  | step f k ih =>
    cases h with
    | nil => exact .inl ⟨_, .nil _, by simp, rfl⟩
    | @step _ _ i s ts _ rest =>
      rcases ih i s rest with ⟨r', hpath, hr', rfl⟩ | ⟨a, ts₁, ts₂, rfl, hpath, hrest⟩
      · exact .inl ⟨r', .step hpath, hr', rfl⟩
      · exact .inr ⟨a, _, ts₂, rfl, .step hpath, hrest⟩

theorem bind_ne_ok {r : Resume ι σ ε α} (hr : ∀ a, r ≠ done (.ok a)) (g : α → Resume ι σ ε β) (b : β) :
    r >>= g ≠ done (.ok b) := by
  rcases r with (e | a) | ⟨f, k⟩
  · simp
  · exact absurd rfl (hr a)
  · simp

theorem bind_ne_error {r : Resume ι σ ε α} (hok : ∀ a, r ≠ done (.ok a)) (herror : ∀ e, r ≠ done (.error e))
    (g : α → Resume ι σ ε β) (e : ε) : r >>= g ≠ done (.error e) := by
  rcases r with (e' | a) | ⟨f, k⟩
  · exact absurd rfl (herror e')
  · exact absurd rfl (hok a)
  · simp

/-! ## What each step does -/

/-- Each step does to the store what `P` says. -/
def Each (P : ι → σ → σ → Prop) : Resume ι σ ε α → Prop
  | done _ => True
  | step f k => ∀ i s, P i s (f i s) ∧ (k i s).Each P

section Each

variable {P P' : ι → σ → σ → Prop}

theorem Each.bind {r : Resume ι σ ε α} {g : α → Resume ι σ ε β} (hr : r.Each P) (hg : ∀ a, (g a).Each P) :
    (r >>= g).Each P := by
  induction r with
  | done r => cases r with
    | ok a => exact hg a
    | error e => trivial
  | step f k ih => exact fun i s => ⟨(hr i s).1, ih i s (hr i s).2⟩

theorem each_lift (r : Except ε α) : (lift r : Resume ι σ ε α).Each P := trivial

theorem each_act {t : ι → σ → Except ε α × σ} (h : ∀ i s, P i s (t i s).2) : (act t).Each P :=
  fun i s => ⟨h i s, trivial⟩

theorem Each.mono {r : Resume ι σ ε α} (hr : r.Each P) (h : ∀ i s s', P i s s' → P' i s s') : r.Each P' := by
  induction r with
  | done r => trivial
  | step f k ih => exact fun i s => ⟨h _ _ _ (hr i s).1, ih i s (hr i s).2⟩

theorem Each.path {r r' : Resume ι σ ε α} (hr : r.Each P) {ts : List (Taken ι σ)} (h : Path r ts r') :
    ∀ t ∈ ts, P t.input t.before t.after := by
  induction h with
  | nil => simp
  | @step f k i s ts r' _ ih =>
    intro t ht
    rcases List.mem_cons.1 ht with rfl | ht
    · exact (hr i s).1
    · exact ih (hr i s).2 t ht

end Each

/-! ## Errors -/

section Errors

variable {E : ε → Prop} {Q : σ → σ → Prop}

/-- It does not end in an error of `E`. -/
def Avoids (E : ε → Prop) : Resume ι σ ε α → Prop
  | done r => ∀ e, r = .error e → ¬ E e
  | step _ k => ∀ i s, (k i s).Avoids E

/-- Where it ends in an error of `E`, each of its steps has done to the store what `Q` says. -/
def Undoes (E : ε → Prop) (Q : σ → σ → Prop) : Resume ι σ ε α → Prop
  | done _ => True
  | step f k => ∀ i s, (k i s).Avoids E ∨ (Q s (f i s) ∧ (k i s).Undoes E Q)

theorem Avoids.bind {r : Resume ι σ ε α} {g : α → Resume ι σ ε β} (hr : r.Avoids E) (hg : ∀ a, (g a).Avoids E) :
    (r >>= g).Avoids E := by
  induction r with
  | done r => cases r with
    | ok a => exact hg a
    | error e =>
      intro e' he
      cases he
      exact hr e rfl
  | step f k ih => exact fun i s => ih i s (hr i s)

theorem avoids_pure (a : α) : (pure a : Resume ι σ ε α).Avoids E := nofun

theorem avoids_act {t : ι → σ → Except ε α × σ} (h : ∀ i s e, (t i s).1 = .error e → ¬ E e) : (act t).Avoids E :=
  fun i s e he => h i s e he

theorem undoes_act {t : ι → σ → Except ε α × σ} (h : ∀ i s e, (t i s).1 = .error e → E e → Q s (t i s).2) :
    (act t).Undoes E Q := by
  intro i s
  cases ht : (t i s).1 with
  | ok a => exact .inl (fun e he => by cases he.symm.trans ht)
  | error e =>
    by_cases hE : E e
    · exact .inr ⟨h i s e ht hE, trivial⟩
    · refine .inl fun e' he => ?_
      cases he.symm.trans ht
      exact hE

theorem Each.undoes {r : Resume ι σ ε α} (hr : r.Each fun _ => Q) : r.Undoes E Q := by
  induction r with
  | done r => trivial
  | step f k ih => exact fun i s => .inr ⟨(hr i s).1, ih i s (hr i s).2⟩

/-- What goes before does to the store what `Q` says. -/
theorem Each.undoes_bind {r : Resume ι σ ε α} {g : α → Resume ι σ ε β} (hr : r.Each fun _ => Q)
    (hg : ∀ a, (g a).Undoes E Q) : (r >>= g).Undoes E Q := by
  induction r with
  | done r => cases r with
    | ok a => exact hg a
    | error e => trivial
  | step f k ih => exact fun i s => .inr ⟨(hr i s).1, ih i s (hr i s).2⟩

/-- What comes after does not end so. -/
theorem Undoes.bind {r : Resume ι σ ε α} {g : α → Resume ι σ ε β} (hr : r.Undoes E Q)
    (hg : ∀ a, (g a).Avoids E) : (r >>= g).Undoes E Q := by
  have havoids : ∀ r : Resume ι σ ε α, r.Avoids E → (r >>= g).Avoids E := fun r hr => hr.bind hg
  induction r with
  | done r => cases r with
    | ok a =>
      have hga := hg a
      show (g a).Undoes E Q
      generalize g a = r at hga
      cases r with
      | done r => trivial
      | step f k => exact fun i s => .inl (hga i s)
    | error e => trivial
  | step f k ih =>
    intro i s
    rcases hr i s with h | ⟨hq, h⟩
    · exact .inl (havoids _ h)
    · exact .inr ⟨hq, ih i s h⟩

theorem Avoids.path {r r' : Resume ι σ ε α} (hr : r.Avoids E) {ts : List (Taken ι σ)} (h : Path r ts r') :
    r'.Avoids E := by
  induction h with
  | nil => exact hr
  | step _ ih => exact ih (hr _ _)

theorem Undoes.path {r : Resume ι σ ε α} (hr : r.Undoes E Q) {ts : List (Taken ι σ)} {e : ε}
    (h : Path r ts (done (.error e))) (he : E e) : ∀ t ∈ ts, Q t.before t.after := by
  generalize hend : done (.error e) = r' at h
  induction h with
  | nil => simp
  | @step f k i s ts r' rest ih =>
    subst hend
    rcases hr i s with havoids | ⟨hq, hundoes⟩
    · exact absurd he (havoids.path rest e rfl)
    · intro t ht
      rcases List.mem_cons.1 ht with rfl | ht
      · exact hq
      · exact ih hundoes rfl t ht

end Errors

/-! ## Marks -/

section Marks

variable {Q : σ → σ → Prop} {mark : List (Taken ι σ) → Taken ι σ → Prop}

/-- How far a computation has come that leaves one mark: before it, it has not returned, and after it, it
does not raise. A mark may depend on the steps before it; what the others do to the store is `Q`. -/
inductive Marked (Q : σ → σ → Prop) (mark : List (Taken ι σ) → Taken ι σ → Prop) (ts : List (Taken ι σ))
    (r' : Resume ι σ ε α) : Prop
  | before (hts : ∀ t ∈ ts, Q t.before t.after) (hr' : ∀ a, r' ≠ done (.ok a))
  | after {ts₁ : List (Taken ι σ)} {t : Taken ι σ} {ts₂ : List (Taken ι σ)} (hts : ts = ts₁ ++ t :: ts₂)
      (hothers : ∀ u ∈ ts₁ ++ ts₂, Q u.before u.after) (hmark : mark ts₁ t) (hr' : ∀ e, r' ≠ done (.error e))

/-- It leaves one mark. -/
def Marks (Q : σ → σ → Prop) (mark : List (Taken ι σ) → Taken ι σ → Prop) (r : Resume ι σ ε α) : Prop :=
  ∀ ts r', Path r ts r' → Marked Q mark ts r'

theorem marks_error (e : ε) : (done (.error e) : Resume ι σ ε α).Marks Q mark := by
  intro ts r' h
  obtain ⟨rfl, rfl⟩ := path_done h
  exact .before (by simp) (by simp)

theorem marks_act {t : ι → σ → Except ε α × σ}
    (h : ∀ i s, (∀ e, (t i s).1 ≠ .error e) ∧ mark [] ⟨i, s, (t i s).2⟩) : (act t).Marks Q mark := by
  intro ts r' hpath
  cases hpath with
  | nil => exact .before (by simp) (by simp [act])
  | @step _ _ i s ts _ rest =>
    obtain ⟨rfl, rfl⟩ := path_done rest
    obtain ⟨hok, hmark⟩ := h i s
    exact .after rfl (by simp) hmark fun e he => hok e (done.inj he)

/-- What comes before the mark does to the store what `Q` says. -/
theorem Each.marks_bind {r : Resume ι σ ε α} {g : α → Resume ι σ ε β} (hr : r.Each fun _ => Q)
    (hg : ∀ a ts, Path r ts (done (.ok a)) → (g a).Marks Q fun ts' => mark (ts ++ ts')) :
    (r >>= g).Marks Q mark := by
  intro ts r'' h
  rcases path_bind h with ⟨r', hpath, hne, rfl⟩ | ⟨a, ts₁, ts₂, rfl, hpath, hrest⟩
  · exact .before (hr.path hpath) (bind_ne_ok hne g)
  · have hbefore := hr.path hpath
    cases hg a ts₁ hpath ts₂ r'' hrest with
    | before hts hr' =>
      refine .before (fun t ht => ?_) hr'
      rcases List.mem_append.1 ht with ht | ht
      · exact hbefore t ht
      · exact hts t ht
    | @after ts₂ t ts₃ hts hothers hmark hr' =>
      subst hts
      refine .after (List.append_assoc ..).symm (fun u hu => ?_) hmark hr'
      rw [List.append_assoc] at hu
      rcases List.mem_append.1 hu with hu | hu
      · exact hbefore u hu
      · exact hothers u hu

/-- What comes after the mark does to the store what `Q` says, and does not raise. -/
theorem Marks.bind {r : Resume ι σ ε α} {g : α → Resume ι σ ε β} (hr : r.Marks Q mark)
    (hg : ∀ a, (g a).Each fun _ => Q) (hreturns : ∀ a, (g a).Avoids fun _ => True) :
    (r >>= g).Marks Q mark := by
  intro ts r'' h
  rcases path_bind h with ⟨r', hpath, hne, rfl⟩ | ⟨a, ts₁, ts₂, rfl, hpath, hrest⟩
  · cases hr ts r' hpath with
    | before hts _ => exact .before hts (bind_ne_ok hne g)
    | after hts hothers hmark hr' => exact .after hts hothers hmark (bind_ne_error hne hr' g)
  · have hafter := (hg a).path hrest
    cases hr ts₁ _ hpath with
    | before _ hr' => exact absurd rfl (hr' a)
    | @after ts₀ t ts₁ hts hothers hmark _ =>
      subst hts
      have happend : ts₀ ++ t :: ts₁ ++ ts₂ = ts₀ ++ t :: (ts₁ ++ ts₂) := by simp
      refine .after happend (fun u hu => ?_) hmark fun e he => ?_
      · rw [← List.append_assoc] at hu
        rcases List.mem_append.1 hu with hu | hu
        · exact hothers u hu
        · exact hafter u hu
      · subst he
        exact (hreturns a).path hrest e rfl trivial

end Marks

/-! ## Refinement -/

section Refines

variable {τ Λ : Type} {shows : τ → σ → Prop} {holds : Λ → τ → Prop} {moves : τ → τ → Prop}

/-- Each step is a move of a more abstract machine, whose states `τ` show the store. What the computation
knows of the machine's state is `loc`, which holds whatever others do in between; at its end it knows
what `Q` says. -/
def Refines (shows : τ → σ → Prop) (holds : Λ → τ → Prop) (moves : τ → τ → Prop) :
    Resume ι σ ε α → Λ → (α → Λ → Prop) → Prop
  | done (.ok a), loc, Q => Q a loc
  | done (.error _), _, _ => True
  | step f k, loc, Q => ∀ i s t, shows t s → holds loc t →
      ∃ t' loc', moves t t' ∧ shows t' (f i s) ∧ holds loc' t' ∧ (k i s).Refines shows holds moves loc' Q

theorem refines_lift {r : Except ε α} {loc : Λ} {Q : α → Λ → Prop} (h : ∀ a, r = .ok a → Q a loc) :
    (lift r : Resume ι σ ε α).Refines shows holds moves loc Q := by
  cases r with
  | ok a => exact h a rfl
  | error e => trivial

theorem refines_act {f : ι → σ → Except ε α × σ} {loc : Λ} {Q : α → Λ → Prop}
    (h : ∀ i s t, shows t s → holds loc t → ∃ t' loc', moves t t' ∧ shows t' (f i s).2 ∧ holds loc' t' ∧
      ∀ a, (f i s).1 = .ok a → Q a loc') : (act f).Refines shows holds moves loc Q := by
  intro i s t hs hl
  obtain ⟨t', loc', hmoves, hshows, hholds, hQ⟩ := h i s t hs hl
  exact ⟨t', loc', hmoves, hshows, hholds, refines_lift hQ⟩

theorem Refines.bind {r : Resume ι σ ε α} {g : α → Resume ι σ ε β} {loc : Λ} {Q : α → Λ → Prop}
    {R : β → Λ → Prop} (hr : r.Refines shows holds moves loc Q)
    (hg : ∀ a loc', Q a loc' → (g a).Refines shows holds moves loc' R) :
    (r >>= g).Refines shows holds moves loc R := by
  induction r generalizing loc with
  | done r => cases r with
    | ok a => exact hg a loc hr
    | error e => trivial
  | step f k ih =>
    intro i s t hs hl
    obtain ⟨t', loc', hmoves, hshows, hholds, hk⟩ := hr i s t hs hl
    exact ⟨t', loc', hmoves, hshows, hholds, ih i s hk⟩

end Refines

end Resume
