import Mathlib.Data.List.Basic
import Mathlib.Order.Basic

/-!
# Runs of a labelled machine

A machine is a total function `step : σ → ι → σ`: a label that is not enabled leaves the state as it
is, so every list of labels is a run, and a statement about all lists is a statement about all
interleavings. Two things are said of a run: a predicate holds in every state it visits
(`Throughout`), and every label of it is taken in a state that allows the label (`EachStep`).
-/

namespace Runs

variable {σ ι : Type*} {step : σ → ι → σ}

/-- The state after the labels `ls`, taken in order from `s`. -/
def run (step : σ → ι → σ) (s : σ) (ls : List ι) : σ := ls.foldl step s

/-- `P` holds in every state the run `ls` visits from `s`, the first and the last included. -/
def Throughout (step : σ → ι → σ) (P : σ → Prop) : σ → List ι → Prop
  | s, [] => P s
  | s, l :: ls => P s ∧ Throughout step P (step s l) ls

/-- Every label of the run is taken in a state for which `C` allows it. -/
def EachStep (step : σ → ι → σ) (C : σ → ι → Prop) : σ → List ι → Prop
  | _, [] => True
  | s, l :: ls => C s l ∧ EachStep step C (step s l) ls

instance decidableThroughout {P : σ → Prop} [DecidablePred P] :
    ∀ (s : σ) (ls : List ι), Decidable (Throughout step P s ls)
  | s, [] => inferInstanceAs (Decidable (P s))
  | s, l :: ls =>
    have : Decidable (Throughout step P (step s l) ls) := decidableThroughout (step s l) ls
    inferInstanceAs (Decidable (P s ∧ Throughout step P (step s l) ls))

instance decidableEachStep {C : σ → ι → Prop} [∀ s l, Decidable (C s l)] :
    ∀ (s : σ) (ls : List ι), Decidable (EachStep step C s ls)
  | _, [] => isTrue trivial
  | s, l :: ls =>
    have : Decidable (EachStep step C (step s l) ls) := decidableEachStep (step s l) ls
    inferInstanceAs (Decidable (C s l ∧ EachStep step C (step s l) ls))

@[simp] theorem run_nil (s : σ) : run step s [] = s := rfl

@[simp] theorem run_cons (s : σ) (l : ι) (ls : List ι) :
    run step s (l :: ls) = run step (step s l) ls := rfl

theorem run_append (s : σ) (ls ls' : List ι) :
    run step s (ls ++ ls') = run step (run step s ls) ls' := by
  simp [run, List.foldl_append]

theorem Throughout.first {P : σ → Prop} {s : σ} {ls : List ι} (h : Throughout step P s ls) : P s := by
  cases ls with
  | nil => exact h
  | cons l ls => exact h.1

/-- The visited states are the ends of the prefixes of the run. -/
theorem throughout_iff_prefixes {P : σ → Prop} {s : σ} {ls : List ι} :
    Throughout step P s ls ↔ ∀ ls₁ ls₂, ls = ls₁ ++ ls₂ → P (run step s ls₁) := by
  induction ls generalizing s with
  | nil =>
    refine ⟨fun h ls₁ ls₂ he => ?_, fun h => h [] [] rfl⟩
    obtain ⟨rfl, rfl⟩ := List.append_eq_nil_iff.1 he.symm
    exact h
  | cons l ls ih =>
    constructor
    · rintro ⟨h0, h⟩ ls₁ ls₂ he
      cases ls₁ with
      | nil => exact h0
      | cons l' ls₁ =>
        obtain ⟨rfl, rfl⟩ := List.cons.inj he
        exact ih.1 h ls₁ ls₂ rfl
    · intro h
      refine ⟨h [] _ rfl, ih.2 fun ls₁ ls₂ he => ?_⟩
      exact h (l :: ls₁) ls₂ (by rw [he, List.cons_append])

/-- A predicate that holds throughout a run holds at its end. -/
theorem Throughout.last {P : σ → Prop} {s : σ} {ls : List ι} (h : Throughout step P s ls) :
    P (run step s ls) :=
  throughout_iff_prefixes.1 h ls [] (List.append_nil ls).symm

theorem Throughout.mono {P Q : σ → Prop} {s : σ} {ls : List ι} (h : Throughout step P s ls)
    (hPQ : ∀ s, P s → Q s) : Throughout step Q s ls := by
  induction ls generalizing s with
  | nil => exact hPQ s h
  | cons l ls ih => exact ⟨hPQ s h.1, ih h.2⟩

theorem EachStep.mono {C D : σ → ι → Prop} (hCD : ∀ s l, C s l → D s l) {s : σ} {ls : List ι}
    (h : EachStep step C s ls) : EachStep step D s ls := by
  induction ls generalizing s with
  | nil => trivial
  | cons l ls ih => exact ⟨hCD s l h.1, ih h.2⟩

theorem eachStep_and {C D : σ → ι → Prop} {s : σ} {ls : List ι} :
    EachStep step (fun s l => C s l ∧ D s l) s ls ↔ EachStep step C s ls ∧ EachStep step D s ls := by
  induction ls generalizing s with
  | nil => simp [EachStep]
  | cons l ls ih =>
    simp only [EachStep, ih]
    tauto

theorem eachStep_append {C : σ → ι → Prop} {s : σ} {ls ls' : List ι} :
    EachStep step C s (ls ++ ls') ↔ EachStep step C s ls ∧ EachStep step C (run step s ls) ls' := by
  induction ls generalizing s with
  | nil => simp [EachStep]
  | cons l ls ih => simp [EachStep, ih, and_assoc]

/-- Conditions that agree where the invariant holds allow the same runs. -/
theorem eachStep_congr {I : σ → Prop} {C D : σ → ι → Prop} (hI : ∀ s l, I s → I (step s l))
    (hCD : ∀ s l, I s → (C s l ↔ D s l)) {s : σ} {ls : List ι} (hi : I s) :
    EachStep step C s ls ↔ EachStep step D s ls := by
  induction ls generalizing s with
  | nil => exact Iff.rfl
  | cons l ls ih => exact and_congr (hCD s l hi) (ih (hI s l hi))

/-- A condition on the labels alone holds at each step iff it holds of every label. -/
theorem eachStep_label {C : ι → Prop} {s : σ} {ls : List ι} :
    EachStep step (fun _ l => C l) s ls ↔ ∀ l ∈ ls, C l := by
  induction ls generalizing s with
  | nil => simp [EachStep]
  | cons l ls ih => simp [EachStep, ih]

theorem eachStep_of_labels {C : σ → ι → Prop} {s : σ} {ls : List ι} (h : ∀ l ∈ ls, ∀ s, C s l) :
    EachStep step C s ls :=
  (eachStep_label.2 h).mono fun s _ hl => hl s

/-- The invariant rule under a condition on the steps: what every allowed step keeps holds
throughout a run of allowed steps. -/
theorem throughout_of_eachStep {P : σ → Prop} {C : σ → ι → Prop}
    (hstep : ∀ s l, P s → C s l → P (step s l)) {s : σ} {ls : List ι} (h0 : P s)
    (h : EachStep step C s ls) : Throughout step P s ls := by
  induction ls generalizing s with
  | nil => exact h0
  | cons l ls ih => exact ⟨h0, ih (hstep s l h0 h.1) h.2⟩

/-- The invariant rule: what every step keeps holds throughout every run. -/
theorem throughout_inv {P : σ → Prop} (hstep : ∀ s l, P s → P (step s l)) {s : σ} (h0 : P s)
    (ls : List ι) : Throughout step P s ls := by
  induction ls generalizing s with
  | nil => exact h0
  | cons l ls ih => exact ⟨h0, ih (hstep s l h0)⟩

theorem run_inv {P : σ → Prop} (hstep : ∀ s l, P s → P (step s l)) {s : σ} (h0 : P s)
    (ls : List ι) : P (run step s ls) :=
  (throughout_inv hstep h0 ls).last

/-- The exactness rule: where only labels allowed by `L` occur, and `C` says of each step whether it
keeps `P` (given the invariant `I`), a run keeps `P` throughout iff `C` allows each of its steps. -/
theorem throughout_iff_eachStep_of_labels {I P : σ → Prop} {C : σ → ι → Prop} {L : ι → Prop}
    (hI : ∀ s l, I s → L l → I (step s l)) (hP : ∀ s l, I s → P s → L l → (P (step s l) ↔ C s l))
    {s : σ} {ls : List ι} (hi : I s) (hp : P s) (hL : ∀ l ∈ ls, L l) :
    Throughout step P s ls ↔ EachStep step C s ls := by
  induction ls generalizing s with
  | nil => simp [Throughout, EachStep, hp]
  | cons l ls ih =>
    have hl := hL l List.mem_cons_self
    have hls := fun l' h => hL l' (List.mem_cons_of_mem l h)
    constructor
    · rintro ⟨-, h⟩
      exact ⟨(hP s l hi hp hl).1 h.first, (ih (hI s l hi hl) h.first hls).1 h⟩
    · rintro ⟨hc, h⟩
      have hp' := (hP s l hi hp hl).2 hc
      exact ⟨hp, (ih (hI s l hi hl) hp' hls).2 h⟩

/-- The exactness rule for every run. -/
theorem throughout_iff_eachStep {I P : σ → Prop} {C : σ → ι → Prop}
    (hI : ∀ s l, I s → I (step s l)) (hP : ∀ s l, I s → P s → (P (step s l) ↔ C s l))
    {s : σ} {ls : List ι} (hi : I s) (hp : P s) :
    Throughout step P s ls ↔ EachStep step C s ls :=
  throughout_iff_eachStep_of_labels (L := fun _ => True) (fun s l h _ => hI s l h)
    (fun s l h h' _ => hP s l h h') hi hp fun _ _ => trivial

/-- The exactness rule for a quantity that no step raises: a run ends with what it started with iff
every step keeps it. -/
theorem run_eq_iff_eachStep {β : Type*} [PartialOrder β] {f : σ → β} {I : σ → Prop}
    {C : σ → ι → Prop} {L : ι → Prop} (hI : ∀ s l, I s → L l → I (step s l))
    (hle : ∀ s l, I s → L l → f (step s l) ≤ f s) (hC : ∀ s l, I s → L l → (f (step s l) = f s ↔ C s l))
    {s : σ} {ls : List ι} (hi : I s) (hL : ∀ l ∈ ls, L l) :
    f (run step s ls) ≤ f s ∧ (f (run step s ls) = f s ↔ EachStep step C s ls) := by
  induction ls generalizing s with
  | nil => simp [EachStep]
  | cons l ls ih =>
    have hl := hL l List.mem_cons_self
    obtain ⟨hlast, hiff⟩ := ih (hI s l hi hl) fun l' h => hL l' (List.mem_cons_of_mem l h)
    have hfirst := hle s l hi hl
    refine ⟨hlast.trans hfirst, ?_⟩
    rw [EachStep, ← hiff, ← hC s l hi hl]
    constructor
    · intro he
      have heq : f (step s l) = f s := le_antisymm hfirst (he ▸ hlast)
      exact ⟨heq, he.trans heq.symm⟩
    · rintro ⟨heq, he⟩
      exact he.trans heq

/-! ## A note kept along the run -/

section Noted

variable {ν : Type*} {note : σ → ι → ν → ν}

/-- The machine with a note kept of its run: how the note changes at a step, `note` says by the state the
step is taken in. -/
def noted (step : σ → ι → σ) (note : σ → ι → ν → ν) : σ × ν → ι → σ × ν :=
  fun p l => (step p.1 l, note p.1 l p.2)

/-- Keeping a note does not change the run. -/
theorem throughout_noted {P : σ → Prop} {s : σ} {n : ν} {ls : List ι}
    (h : Throughout (noted step note) (fun p => P p.1) (s, n) ls) : Throughout step P s ls := by
  induction ls generalizing s n with
  | nil => exact h
  | cons l ls ih => exact ⟨h.1, ih h.2⟩

/-- A condition that does not consult the note. -/
theorem eachStep_noted {C : σ → ι → Prop} {s : σ} {n : ν} {ls : List ι} (h : EachStep step C s ls) :
    EachStep (noted step note) (fun p l => C p.1 l) (s, n) ls := by
  induction ls generalizing s n with
  | nil => trivial
  | cons l ls ih => exact ⟨h.1, ih h.2⟩

/-- The invariant rule under a condition that consults the note. -/
theorem throughout_of_noted {P : σ → Prop} {I : σ × ν → Prop} {C : σ × ν → ι → Prop}
    (hstep : ∀ p l, I p → C p l → I (noted step note p l)) (hP : ∀ p, I p → P p.1) {s : σ} {n : ν}
    {ls : List ι} (h0 : I (s, n)) (h : EachStep (noted step note) C (s, n) ls) : Throughout step P s ls :=
  throughout_noted ((throughout_of_eachStep hstep h0 h).mono hP)

end Noted

end Runs
