import Mathlib.Data.Nat.Init
import Mathlib.Order.Basic

/-!
# What a machine comes to

A machine `step : σ → ι → σ` on an endless input. `Leads C P Q`: from a state in `P`, and on any input in
`C`, it comes to a state in `Q`. The rules are those of chaining, of a measure that goes down, of waiting
for a label that must come, and of a state that recurs until the input is past some point.
-/

namespace LeadsTo

variable {σ ι : Type*} {step : σ → ι → σ} {s : σ} {ls : Nat → ι} {C D : (Nat → ι) → Prop} {P P' Q Q' R : σ → Prop}

/-- The state after the first `n` labels. -/
def after (step : σ → ι → σ) (s : σ) (ls : Nat → ι) : Nat → σ
  | 0 => s
  | n + 1 => step (after step s ls n) (ls n)

/-- The input from the `n`th label on. -/
def later (ls : Nat → ι) (n : Nat) : Nat → ι := fun k => ls (n + k)

/-- What holds of an input holds of the rest of it. -/
def Tail (C : (Nat → ι) → Prop) : Prop := ∀ ls n, C ls → C (later ls n)

/-- From a state in `P`, and on any input in `C`, the machine comes to a state in `Q`. -/
def Leads (step : σ → ι → σ) (C : (Nat → ι) → Prop) (P Q : σ → Prop) : Prop :=
  ∀ s, P s → ∀ ls, C ls → ∃ n, Q (after step s ls n)

@[simp] theorem later_zero : later ls 0 = ls := by
  funext k
  rw [later, Nat.zero_add]

@[simp] theorem later_later (n m : Nat) : later (later ls n) m = later ls (n + m) := by
  funext k
  rw [later, later, later, Nat.add_assoc]

theorem after_add (n m : Nat) : after step s ls (n + m) = after step (after step s ls n) (later ls n) m := by
  induction m with
  | zero => rfl
  | succ m ih => rw [Nat.add_succ, after, ih, after, later]

/-- The invariant rule. -/
theorem after_inv (hstep : ∀ s l, P s → P (step s l)) (hs : P s) (n : Nat) : P (after step s ls n) := by
  induction n with
  | zero => exact hs
  | succ n ih => exact hstep _ _ ih

namespace Leads

theorem of_imp (h : ∀ s, P s → Q s) : Leads step C P Q := fun s hs _ _ => ⟨0, h s hs⟩

/-- One step. -/
theorem next (h : ∀ s ls, P s → C ls → Q (step s (ls 0))) : Leads step C P Q :=
  fun s hs ls hls => ⟨1, h s ls hs hls⟩

theorem mono (h : Leads step C P Q) (hP : ∀ s, P' s → P s) (hQ : ∀ s, Q s → Q' s) : Leads step C P' Q' := by
  intro s hs ls hls
  obtain ⟨n, hn⟩ := h s (hP s hs) ls hls
  exact ⟨n, hQ _ hn⟩

/-- The same on fewer inputs. -/
theorem restrict (h : Leads step C P Q) (hD : ∀ ls, D ls → C ls) : Leads step D P Q :=
  fun s hs ls hls => h s hs ls (hD ls hls)

theorem trans (hC : Tail C) (h : Leads step C P Q) (h' : Leads step C Q R) : Leads step C P R := by
  intro s hs ls hls
  obtain ⟨n, hn⟩ := h s hs ls hls
  obtain ⟨m, hm⟩ := h' _ hn _ (hC ls n hls)
  exact ⟨n + m, (after_add n m).symm ▸ hm⟩

theorem or (h : Leads step C P R) (h' : Leads step C Q R) : Leads step C (fun s => P s ∨ Q s) R :=
  fun s hs ls hls => hs.elim (fun hs => h s hs ls hls) fun hs => h' s hs ls hls

theorem exists_left {κ : Sort*} {P : κ → σ → Prop} (h : ∀ k, Leads step C (P k) Q) :
    Leads step C (fun s => ∃ k, P k s) Q := by
  rintro s ⟨k, hs⟩ ls hls
  exact h k s hs ls hls

/-- A measure that goes down until `Q`. -/
theorem of_decreasing (hC : Tail C) (f : σ → Nat)
    (h : ∀ k, Leads step C (fun s => P s ∧ f s = k) fun s => Q s ∨ (P s ∧ f s < k)) : Leads step C P Q := by
  have hbelow : ∀ k, Leads step C (fun s => P s ∧ f s < k) Q := by
    intro k
    induction k with
    | zero => exact fun s hs => absurd hs.2 (Nat.not_lt_zero _)
    | succ k ih =>
      intro s hs ls hls
      rcases Nat.lt_succ_iff_lt_or_eq.1 hs.2 with hlt | heq
      · exact ih s ⟨hs.1, hlt⟩ ls hls
      · exact trans hC (h k) ((of_imp fun _ => id).or ih) s ⟨hs.1, heq⟩ ls hls
  exact fun s hs => hbelow (f s + 1) s ⟨hs, Nat.lt_succ_self _⟩

/-- Waiting: `P` stays until `Q`, and a label that takes `P` to `Q` is sure to come. -/
theorem wait (hstep : ∀ s l, P s → P (step s l) ∨ Q (step s l))
    (hcomes : ∀ ls, C ls → ∃ n, ∀ s, P s → Q (step s (ls n))) : Leads step C P Q := by
  intro s hs ls hls
  obtain ⟨n, hn⟩ := hcomes ls hls
  have hstays : ∀ m, (∃ k, Q (after step s ls k)) ∨ P (after step s ls m) := by
    intro m
    induction m with
    | zero => exact .inr hs
    | succ m ih =>
      rcases ih with hq | hp
      · exact .inl hq
      · exact (hstep _ (ls m) hp).symm.imp (fun hq => ⟨m + 1, hq⟩) id
  rcases hstays n with hq | hp
  · exact hq
  · exact ⟨n + 1, hn _ hp⟩

/-- `P` comes round again and again until `Q`, and on an input that is far enough it leads to `Q`. -/
theorem of_recurring (hC : Tail C) (hD : Tail D) (hfar : ∀ ls, C ls → ∃ n, D (later ls n))
    (hround : ∀ s, P s → ∀ ls, C ls → ∃ n, Q (after step s ls n) ∨ (0 < n ∧ P (after step s ls n)))
    (hlast : Leads step D P Q) : Leads step C P Q := by
  have hwithin : ∀ n s, P s → ∀ ls, C ls → D (later ls n) → ∃ m, Q (after step s ls m) := by
    intro n
    induction n using Nat.strong_induction_on with
    | _ n ih =>
      intro s hs ls hls hd
      obtain ⟨k, hk | ⟨hpos, hk⟩⟩ := hround s hs ls hls
      · exact ⟨k, hk⟩
      · have hrest : ∃ m, Q (after step (after step s ls k) (later ls k) m) := by
          rcases Nat.lt_or_ge k n with hlt | hge
          · refine ih (n - k) (Nat.sub_lt (Nat.zero_lt_of_lt hlt) hpos) _ hk _ (hC ls k hls) ?_
            rwa [later_later, Nat.add_sub_cancel' (Nat.le_of_lt hlt)]
          · have hd' := hD _ (k - n) hd
            rw [later_later, Nat.add_sub_cancel' hge] at hd'
            exact hlast _ hk _ hd'
        obtain ⟨m, hm⟩ := hrest
        exact ⟨k + m, (after_add k m).symm ▸ hm⟩
  intro s hs ls hls
  obtain ⟨n, hn⟩ := hfar ls hls
  exact hwithin n s hs ls hls hn

end Leads

end LeadsTo
