import Mathlib.Algebra.Order.Field.Basic
import Mathlib.Tactic.Linarith
import Mathlib.Tactic.Ring

/-!
# Token buckets

A bucket of at most `cap` tokens fills at `rate` tokens per unit of time; a call takes one token if
there is one. `level` is what a call finds. A call that finds less than one token moves the bucket's time
and changes no later level; any calls take, over an interval, at most what was there and what flowed in.
-/

namespace TokenBucket

variable {K : Type} [Field K] [LinearOrder K]

/-- The tokens at a time. -/
structure Bucket (K : Type) where
  tokens : K
  last : K

variable {cap rate now : K}

/-- What a call finds; a bucket that is not there is full. -/
def level (cap rate : K) (b : Option (Bucket K)) (now : K) : K :=
  match b with
  | none => cap
  | some b => min cap (b.tokens + (now - b.last) * rate)

/-- The bucket after a call. -/
def take (cap rate now : K) (b : Option (Bucket K)) : Bucket K :=
  ⟨if 1 ≤ level cap rate b now then level cap rate b now - 1 else level cap rate b now, now⟩

/-- What the calls at these times find, one after the other. -/
def levels (cap rate : K) : Option (Bucket K) → List K → List K
  | _, [] => []
  | b, t :: ts => level cap rate b t :: levels cap rate (some (take cap rate t b)) ts

theorem level_le_cap (b : Option (Bucket K)) : level cap rate b now ≤ cap := by
  cases b with
  | none => exact le_refl cap
  | some b => exact min_le_left _ _

/-- How many of the calls from `s` to `t` find a token. -/
def allowedIn (cap rate s t : K) (b : Option (Bucket K)) (ts : List K) : ℕ :=
  (ts.zip (levels cap rate b ts)).countP fun c => s ≤ c.1 ∧ c.1 ≤ t ∧ 1 ≤ c.2

theorem allowedIn_cons (s t x : K) (b : Option (Bucket K)) (xs : List K) :
    allowedIn cap rate s t b (x :: xs) = allowedIn cap rate s t (some (take cap rate x b)) xs +
      if s ≤ x ∧ x ≤ t ∧ 1 ≤ level cap rate b x then 1 else 0 := by
  rw [allowedIn, levels, List.zip_cons_cons, List.countP_cons, ← allowedIn]
  simp only [decide_eq_true_eq]

theorem allowedIn_of_late {s t : K} {b : Option (Bucket K)} {ts : List K} (h : ∀ x ∈ ts, t < x) :
    allowedIn cap rate s t b ts = 0 := by
  rw [allowedIn, List.countP_eq_zero]
  rintro ⟨x, l⟩ hx
  have := h x (List.of_mem_zip hx).1
  simp [not_le.2 this]

/-- An interval whose start no call precedes may start anywhere before the calls. -/
theorem allowedIn_congr {s s' t : K} {b : Option (Bucket K)} {ts : List K} (h : ∀ x ∈ ts, s ≤ x ∧ s' ≤ x) :
    allowedIn cap rate s t b ts = allowedIn cap rate s' t b ts := by
  rw [allowedIn, allowedIn]
  refine List.countP_congr fun c hc => ?_
  obtain ⟨hs, hs'⟩ := h c.1 (List.of_mem_zip hc).1
  simp [hs, hs']

variable [IsStrictOrderedRing K]

/-- A bucket's level rises by what flows in at most, and never sinks. -/
theorem level_mono (hrate : 0 ≤ rate) (b : Option (Bucket K)) {t u : K} (h : t ≤ u) :
    level cap rate b t ≤ level cap rate b u := by
  cases b with
  | none => exact le_refl cap
  | some b =>
    have hflow : (t - b.last) * rate ≤ (u - b.last) * rate :=
      mul_le_mul_of_nonneg_right (by linarith) hrate
    exact min_le_min_left cap (by linarith)

theorem level_le_flow (hrate : 0 ≤ rate) (b : Option (Bucket K)) {t u : K} (h : t ≤ u) :
    level cap rate b u ≤ level cap rate b t + rate * (u - t) := by
  have hflow : 0 ≤ rate * (u - t) := mul_nonneg hrate (by linarith)
  cases b with
  | none =>
    show cap ≤ cap + rate * (u - t)
    linarith
  | some b =>
    have hsum : b.tokens + (u - b.last) * rate = b.tokens + (t - b.last) * rate + rate * (u - t) := by ring
    rw [level, level, hsum, ← min_add_add_right]
    exact min_le_min_right _ (by linarith)

/-- Refilling in two steps is refilling in one. -/
theorem level_at (hrate : 0 ≤ rate) (b : Option (Bucket K)) {t u : K} (h : t ≤ u) :
    level cap rate (some ⟨level cap rate b t, t⟩) u = level cap rate b u := by
  have hflow : 0 ≤ (u - t) * rate := mul_nonneg (by linarith) hrate
  cases b with
  | none =>
    show min cap (cap + (u - t) * rate) = cap
    exact min_eq_left (by linarith)
  | some b =>
    have hsum : b.tokens + (u - b.last) * rate = b.tokens + (t - b.last) * rate + (u - t) * rate := by ring
    show min cap (min cap (b.tokens + (t - b.last) * rate) + (u - t) * rate) = _
    rw [level, hsum, ← min_add_add_right, ← min_assoc, min_eq_left (by linarith : cap ≤ cap + (u - t) * rate)]

/-- A call that is denied changes no later level. -/
theorem level_take_of_denied (hrate : 0 ≤ rate) (b : Option (Bucket K)) {t u : K} (h : t ≤ u)
    (hdenied : level cap rate b t < 1) : level cap rate
    (some (take cap rate t b)) u = level cap rate b u := by
  rw [take, if_neg (not_le.2 hdenied)]
  exact level_at hrate b h

/-- A call that is allowed takes a token. -/
theorem level_take_of_allowed (b : Option (Bucket K)) {t : K} (hallowed : 1 ≤ level cap rate b t) :
    level cap rate (some (take cap rate t b)) t = level cap rate b t - 1 := by
  rw [take, if_pos hallowed]
  show min cap (level cap rate b t - 1 + (t - t) * rate) = _
  have hcap : level cap rate b t ≤ cap := level_le_cap b
  rw [sub_self, zero_mul, add_zero, min_eq_right (by linarith)]

theorem level_take_le (hrate : 0 ≤ rate) (b : Option (Bucket K)) {t u : K} (h : t ≤ u) :
    level cap rate (some (take cap rate t b)) u ≤ level cap rate b u := by
  by_cases hallowed : 1 ≤ level cap rate b t
  · rw [← level_at hrate b h, take, if_pos hallowed]
    exact min_le_min_left cap (by linarith)
  · exact le_of_eq (level_take_of_denied hrate b h (not_le.1 hallowed))

theorem level_take_nonneg (hrate : 0 ≤ rate) (b : Option (Bucket K)) {t u : K} (h : t ≤ u)
    (hb : 0 ≤ level cap rate b t) : 0 ≤ level cap rate (some (take cap rate t b)) u := by
  refine le_trans ?_ (level_mono hrate _ h)
  by_cases hallowed : 1 ≤ level cap rate b t
  · rw [level_take_of_allowed b hallowed]
    linarith
  · rw [level_take_of_denied hrate b (le_refl t) (not_le.1 hallowed)]
    exact hb

/-! ## What any calls take -/

/-- At most what is there at `s`, and what flows in until `t`, is taken from `s` to `t`. -/
theorem allowedIn_le (hrate : 0 ≤ rate) {t : K} {ts : List K} (hsorted : ts.Pairwise (· ≤ ·)) :
    ∀ {b : Option (Bucket K)} {s clock : K}, (∀ x ∈ ts, clock ≤ x) → clock ≤ s → s ≤ t →
      (∀ u, clock ≤ u → 0 ≤ level cap rate b u) →
      (allowedIn cap rate s t b ts : K) ≤ level cap rate b s + rate * (t - s) := by
  induction hsorted with
  | nil =>
    intro b s clock _ hs hst hb
    have hflow : 0 ≤ rate * (t - s) := mul_nonneg hrate (by linarith)
    rw [allowedIn_of_late fun x hx => absurd hx List.not_mem_nil, Nat.cast_zero]
    linarith [hb s hs]
  | @cons x xs hx _ ih =>
    intro b s clock hclock hs hst hb
    have hcx : clock ≤ x := hclock x List.mem_cons_self
    have hnext : ∀ u, x ≤ u → 0 ≤ level cap rate (some (take cap rate x b)) u :=
      fun u hu => level_take_nonneg hrate b hu (hb x hcx)
    rw [allowedIn_cons]
    by_cases hearly : x < s
    · -- before the interval: the level at its start is no higher after the call
      have hrest := ih hx (le_of_lt hearly) hst hnext
      have hlevel : level cap rate (some (take cap rate x b)) s ≤ level cap rate b s :=
        level_take_le hrate b (le_of_lt hearly)
      rw [if_neg fun h => absurd h.1 (not_le.2 hearly), Nat.add_zero]
      linarith
    by_cases hlate : t < x
    · have hflow : 0 ≤ rate * (t - s) := mul_nonneg hrate (by linarith)
      rw [if_neg fun h => absurd h.2.1 (not_le.2 hlate),
        allowedIn_of_late fun y hy => lt_of_lt_of_le hlate (hx y hy)]
      rw [Nat.add_zero, Nat.cast_zero]
      linarith [hb s hs]
    · -- inside it: a token taken is a token less, and the rest is an interval from the call on
      have hsx : s ≤ x := not_lt.1 hearly
      have hxt : x ≤ t := not_lt.1 hlate
      have hrest := ih hx (le_refl x) hxt hnext
      have hshift : allowedIn cap rate s t (some (take cap rate x b)) xs =
          allowedIn cap rate x t (some (take cap rate x b)) xs :=
        allowedIn_congr fun y hy => ⟨hsx.trans (hx y hy), hx y hy⟩
      have hflow : level cap rate b x ≤ level cap rate b s + rate * (x - s) := level_le_flow hrate b hsx
      rw [hshift]
      by_cases hallowed : 1 ≤ level cap rate b x
      · rw [level_take_of_allowed b hallowed] at hrest
        rw [if_pos ⟨hsx, hxt, hallowed⟩, Nat.cast_add, Nat.cast_one]
        linarith
      · rw [level_take_of_denied hrate b (le_refl x) (not_le.1 hallowed)] at hrest
        rw [if_neg fun h => hallowed h.2.2, Nat.add_zero]
        linarith

/-- Of a bucket full at first, at most its capacity and what flows in is taken in any interval. -/
theorem allowedIn_le_cap (hrate : 0 ≤ rate) (hcap : 0 ≤ cap) {s t : K} (hst : s ≤ t) {ts : List K}
    (hsorted : ts.Pairwise (· ≤ ·)) : (allowedIn cap rate s t none ts : K) ≤ cap + rate * (t - s) := by
  cases ts with
  | nil =>
    exact allowedIn_le hrate hsorted (fun x hx => absurd hx List.not_mem_nil) (le_refl s) hst fun _ _ => hcap
  | cons x xs =>
    refine @allowedIn_le _ _ _ cap rate _ hrate t _ hsorted none s (min s x) (fun y hy => ?_)
      (min_le_left s x) hst fun _ _ => hcap
    rcases List.mem_cons.1 hy with rfl | hy
    · exact min_le_right s y
    · exact (min_le_right s x).trans ((List.pairwise_cons.1 hsorted).1 y hy)

end TokenBucket
