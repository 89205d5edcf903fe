import Mathlib.Data.List.Basic

/-!
# Programs that receive and send

A program on a state of its own either is done, or waits for a message, or sends one. `exec` runs it for so
many steps on the messages that are there to be received. A program `Wraps` another one if it does the same
but for what it makes of each message that passes through it, which may depend on the ones it has
received before.
-/

namespace Interactive

/-- What a program does next. -/
inductive Action (In Out σ : Type) where
  | done
  | receive (k : In → σ)
  | send (m : Out) (s : σ)

/-- A program. -/
abbrev Program (In Out σ : Type) := σ → Action In Out σ

variable {In In' Out Out' σ σ' τ : Type}

/-- The state the first `n` steps lead to, the messages not received, and what has happened: `none` is a
message received, `some m` the message `m` sent. A program that waits for a message when there are no more
of them does not go on. -/
def exec (p : Program In Out σ) : Nat → σ → List In → σ × List In × List (Option Out)
  | 0, s, ms => (s, ms, [])
  | n + 1, s, ms => match p s, ms with
    | .done, ms => (s, ms, [])
    | .receive _, [] => (s, [], [])
    | .receive k, m :: ms => let r := exec p n (k m) ms; (r.1, r.2.1, none :: r.2.2)
    | .send m s', ms => let r := exec p n s' ms; (r.1, r.2.1, some m :: r.2.2)

/-- What has been sent. -/
def sent (log : List (Option Out)) : List Out := log.filterMap id

/-- The messages received are the first ones. -/
theorem exec_rest (p : Program In Out σ) (n : Nat) (s : σ) (ms : List In) :
    (exec p n s ms).2.1 = ms.drop ((exec p n s ms).2.2.countP (·.isNone)) := by
  induction n generalizing s ms with
  | zero => rfl
  | succ n ih =>
    unfold exec
    cases p s with
    | done => rfl
    | receive k => cases ms with
      | nil => rfl
      | cons m ms => simpa [List.countP_cons] using ih (k m) ms
    | send m s' => simpa [List.countP_cons] using ih s' ms

/-- The messages as a program gets them that is given `f t m` for a message `m` that comes in at `t`. -/
def transduce (f : τ → In' → τ × In) : τ → List In' → List In
  | _, [] => []
  | t, m :: ms => (f t m).2 :: transduce f (f t m).1 ms

/-- `p'` does what `p` does, on messages that have gone through `f`, and sends what `g` makes of the messages
that `p` sends. -/
def Wraps (f : τ → In' → τ × In) (g : Out → Out') (embed : σ → τ → σ') (p' : Program In' Out' σ')
    (p : Program In Out σ) : Prop :=
  ∀ s t, p' (embed s t) = match p s with
    | .done => .done
    | .receive k => .receive fun m => embed (k (f t m).2) (f t m).1
    | .send m s' => .send (g m) (embed s' t)

/-- A run of the wrapping program is one of the program it wraps. -/
theorem Wraps.exec {f : τ → In' → τ × In} {g : Out → Out'} {embed : σ → τ → σ'} {p' : Program In' Out' σ'}
    {p : Program In Out σ} (h : Wraps f g embed p' p) (n : Nat) (s : σ) (t : τ) (ms : List In') :
    (exec p' n (embed s t) ms).2.2 = (exec p n s (transduce f t ms)).2.2.map (·.map g) := by
  induction n generalizing s t ms with
  | zero => rfl
  | succ n ih =>
    have hp := h s t
    unfold Interactive.exec
    cases hs : p s with
    | done =>
      rw [hs] at hp
      simp only [hp, List.map_nil]
    | receive k =>
      rw [hs] at hp
      cases ms with
      | nil => simp only [hp, transduce, List.map_nil]
      | cons m ms => simp only [hp, transduce, ih, List.map_cons, Option.map_none]
    | send m s' =>
      rw [hs] at hp
      simp only [hp, ih, List.map_cons, Option.map_some]

end Interactive
