import Mathlib.Data.List.Basic
import Mathlib.Data.List.Infix

/-!
# Frames that a separator ends

Splitting a text at each leftmost occurrence of a separator, and a reader who does so read by read: it
splits what it has kept and the new piece together, takes the parts that are complete, and keeps the last
one. However the text is cut into reads, the reader takes the parts of the whole text (`feedAll_eq`); and
the parts of a sequence of frames are the frames, as long as no separator begins within one of them
(`split_frames`).
-/

namespace Framing

variable {α : Type*} [DecidableEq α] {sep s t p r : List α}

/-- What precedes the first occurrence of the separator, and what follows it. -/
def cut? (sep : List α) : List α → Option (List α × List α)
  | [] => none
  | c :: s =>
    if sep.isPrefixOf (c :: s) then some ([], (c :: s).drop sep.length)
    else (cut? sep s).map fun x => (c :: x.1, x.2)

/-- `split` with a bound on the number of cuts. -/
def splitUpTo (sep : List α) : Nat → List α → List (List α)
  | 0, s => [s]
  | n + 1, s => match cut? sep s with
    | none => [s]
    | some (p, r) => p :: splitUpTo sep n r

/-- The parts between the occurrences of a separator that is not empty. -/
def split (sep s : List α) : List (List α) := splitUpTo sep s.length s

/-! ## The first occurrence -/

theorem cut?_cons_at {c : α} (h : sep <+: c :: s) :
    cut? sep (c :: s) = some ([], (c :: s).drop sep.length) := by
  rw [cut?, if_pos (List.isPrefixOf_iff_prefix.2 h)]

theorem cut?_cons_past {c : α} (h : ¬ sep <+: c :: s) :
    cut? sep (c :: s) = (cut? sep s).map fun x => (c :: x.1, x.2) := by
  rw [cut?, if_neg fun hp => h (List.isPrefixOf_iff_prefix.1 hp)]

theorem eq_of_cut? (h : cut? sep s = some (p, r)) : s = p ++ sep ++ r := by
  induction s generalizing p r with
  | nil => cases h
  | cons c s ih =>
    by_cases hp : sep <+: c :: s
    · rw [cut?_cons_at hp] at h
      obtain ⟨rfl, rfl⟩ := Prod.mk.inj (Option.some.inj h)
      rw [List.nil_append]
      exact (List.prefix_iff_eq_append.1 hp).symm
    · rw [cut?_cons_past hp] at h
      obtain ⟨⟨p', r'⟩, hcut, he⟩ := Option.map_eq_some_iff.1 h
      obtain ⟨rfl, rfl⟩ := Prod.mk.inj he
      rw [List.cons_append, List.cons_append, ← ih hcut]

theorem length_lt_of_cut? (hsep : sep ≠ []) (h : cut? sep s = some (p, r)) : r.length < s.length := by
  have hlen := congrArg List.length (eq_of_cut? h)
  have hpos := List.length_pos_of_ne_nil hsep
  simp only [List.length_append] at hlen
  omega

/-- A separator that has an element the text lacks does not occur in it. -/
theorem cut?_eq_none {c : α} (hc : c ∈ sep) (hs : c ∉ s) : cut? sep s = none := by
  rw [Option.eq_none_iff_forall_ne_some]
  rintro ⟨p, r⟩ h
  refine hs ?_
  rw [eq_of_cut? h]
  exact List.mem_append_left _ (List.mem_append_right _ hc)

/-- What follows does not change the first occurrence. -/
theorem cut?_append (t : List α) (h : cut? sep s = some (p, r)) : cut? sep (s ++ t) = some (p, r ++ t) := by
  induction s generalizing p r with
  | nil => cases h
  | cons c s ih =>
    by_cases hp : sep <+: c :: s
    · rw [cut?_cons_at hp] at h
      obtain ⟨rfl, rfl⟩ := Prod.mk.inj (Option.some.inj h)
      have hp' : sep <+: c :: (s ++ t) := hp.trans (List.prefix_append (c :: s) t)
      rw [List.cons_append, cut?_cons_at hp', ← List.cons_append,
        List.drop_append_of_le_length hp.length_le]
    · rw [cut?_cons_past hp] at h
      obtain ⟨⟨p', r'⟩, hcut, he⟩ := Option.map_eq_some_iff.1 h
      obtain ⟨rfl, rfl⟩ := Prod.mk.inj he
      have hp' : ¬ sep <+: c :: (s ++ t) := by
        intro hlong
        have hlen : sep.length ≤ (c :: s).length := by
          have hs := congrArg List.length (eq_of_cut? hcut)
          simp only [List.length_append] at hs
          simp only [List.length_cons]
          omega
        exact hp (List.prefix_of_prefix_length_le hlong (List.prefix_append (c :: s) t) hlen)
      rw [List.cons_append, cut?_cons_past hp', ih hcut]
      rfl

/-- A separator that does not begin within a body, even one that the separator ends, is first found after
the body. -/
theorem cut?_frame (hsep : sep ≠ []) (body rest : List α) (h : cut? sep (body ++ sep.dropLast) = none) :
    cut? sep (body ++ (sep ++ rest)) = some (body, rest) := by
  induction body with
  | nil =>
    obtain ⟨c, sep', rfl⟩ := List.exists_cons_of_ne_nil hsep
    have hp : c :: sep' <+: c :: (sep' ++ rest) := List.prefix_append (c :: sep') rest
    rw [List.nil_append, List.cons_append, cut?_cons_at hp, ← List.cons_append, List.drop_left]
  | cons c body ih =>
    have hp : ¬ sep <+: c :: (body ++ sep.dropLast) := by
      intro hp
      rw [List.cons_append, cut?_cons_at hp] at h
      cases h
    rw [List.cons_append, cut?_cons_past hp, Option.map_eq_none_iff] at h
    have hp' : ¬ sep <+: c :: (body ++ (sep ++ rest)) := by
      intro hlong
      have hshort : c :: (body ++ sep.dropLast) <+: c :: (body ++ (sep ++ rest)) := by
        refine (List.prefix_append_right_inj (c :: body)).2 ?_
        exact (List.dropLast_prefix sep).trans (List.prefix_append sep rest)
      refine hp (List.prefix_of_prefix_length_le hlong hshort ?_)
      have hpos := List.length_pos_of_ne_nil hsep
      simp only [List.length_cons, List.length_append, List.length_dropLast]
      omega
    rw [List.cons_append, cut?_cons_past hp', ih h]
    rfl

/-! ## The parts -/

theorem splitUpTo_eq_split (hsep : sep ≠ []) {n : Nat} (h : s.length ≤ n) : splitUpTo sep n s = split sep s := by
  suffices hall : ∀ m n (s : List α), s.length ≤ m → s.length ≤ n → splitUpTo sep m s = splitUpTo sep n s from
    hall n s.length s h le_rfl
  intro m
  induction m with
  | zero =>
    intro n s hm _
    obtain rfl := List.length_eq_zero_iff.1 (Nat.le_zero.1 hm)
    cases n with
    | zero => rfl
    | succ n => rfl
  | succ m ih =>
    intro n s hm hn
    cases n with
    | zero =>
      obtain rfl := List.length_eq_zero_iff.1 (Nat.le_zero.1 hn)
      rfl
    | succ n =>
      rw [splitUpTo, splitUpTo]
      cases hcut : cut? sep s with
      | none => rfl
      | some x =>
        obtain ⟨p, r⟩ := x
        have hlt := length_lt_of_cut? hsep hcut
        dsimp only
        rw [ih n r (by omega) (by omega)]

theorem split_of_none (h : cut? sep s = none) : split sep s = [s] := by
  rw [split]
  cases hs : s.length with
  | zero => rfl
  | succ n => rw [splitUpTo, h]

theorem split_of_some (hsep : sep ≠ []) (h : cut? sep s = some (p, r)) :
    split sep s = p :: split sep r := by
  have hlt := length_lt_of_cut? hsep h
  obtain ⟨n, hn⟩ : ∃ n, s.length = n + 1 := ⟨s.length - 1, by omega⟩
  rw [split, hn, splitUpTo, h]
  dsimp only
  rw [splitUpTo_eq_split hsep (by omega)]

theorem split_ne_nil (hsep : sep ≠ []) (s : List α) : split sep s ≠ [] := by
  cases h : cut? sep s with
  | none => simp [split_of_none h]
  | some x => simp [split_of_some hsep h]

/-- The parts of frames, each ended by the separator, are the frames and an empty rest. -/
theorem split_frames (hsep : sep ≠ []) {bodies : List (List α)}
    (h : ∀ body ∈ bodies, cut? sep (body ++ sep.dropLast) = none) :
    split sep (bodies.flatMap fun body => body ++ sep) = bodies ++ [[]] := by
  induction bodies with
  | nil => exact split_of_none rfl
  | cons body bodies ih =>
    have hcut := cut?_frame hsep body (bodies.flatMap fun body => body ++ sep) (h body List.mem_cons_self)
    rw [List.flatMap_cons, List.append_assoc, split_of_some hsep hcut,
      ih fun b hb => h b (List.mem_cons_of_mem body hb)]
    rfl

/-! ## Lines -/

/-- Ending the last line adds an empty one. -/
theorem split_ended (c : α) (s : List α) : split [c] (s ++ [c]) = split [c] s ++ [[]] := by
  have hsep : [c] ≠ [] := List.cons_ne_nil c []
  induction hn : s.length using Nat.strongRecOn generalizing s with
  | ind n ih =>
    cases hcut : cut? [c] s with
    | none =>
      have hend : cut? [c] (s ++ ([c] ++ [])) = some (s, []) := by
        refine cut?_frame hsep s [] ?_
        rw [List.dropLast_singleton, List.append_nil, hcut]
      rw [List.append_nil] at hend
      rw [split_of_none hcut, split_of_some hsep hend, split_of_none rfl]
      rfl
    | some x =>
      obtain ⟨p, r⟩ := x
      have hr := ih r.length (hn ▸ length_lt_of_cut? hsep hcut) r rfl
      rw [split_of_some hsep hcut, split_of_some hsep (cut?_append [c] hcut), hr, List.cons_append]

/-- Among lines that are not empty there is no empty line. -/
theorem cut?_lines {c : α} {lines : List (List α)} (h : ∀ l ∈ lines, l ≠ [] ∧ c ∉ l) :
    cut? [c, c] (lines.flatMap fun l => l ++ [c]) = none := by
  have hline : ∀ (l u : List α), c ∉ l → cut? [c, c] u = none → u.head? ≠ some c →
      cut? [c, c] (l ++ c :: u) = none := by
    intro l u hl hu hhead
    induction l with
    | nil =>
      have hp : ¬ [c, c] <+: c :: u := by
        rintro ⟨v, hv⟩
        rw [List.cons_append, List.cons_append, List.cons_inj_right] at hv
        exact hhead (by rw [← hv]; rfl)
      rw [List.nil_append, cut?_cons_past hp, hu]
      rfl
    | cons d l ih =>
      rw [List.mem_cons, not_or] at hl
      have hp : ¬ [c, c] <+: d :: (l ++ c :: u) := by
        rintro ⟨v, hv⟩
        exact hl.1 (List.cons.inj hv).1
      rw [List.cons_append, cut?_cons_past hp, ih hl.2]
      rfl
  induction lines with
  | nil => rfl
  | cons l lines ih =>
    have hrest := ih fun l' hl' => h l' (List.mem_cons_of_mem l hl')
    rw [List.flatMap_cons, List.append_assoc]
    refine hline l _ (h l List.mem_cons_self).2 hrest ?_
    cases lines with
    | nil => simp
    | cons l' lines =>
      obtain ⟨hne, hnot⟩ := h l' (List.mem_cons_of_mem l List.mem_cons_self)
      obtain ⟨d, l'', rfl⟩ := List.exists_cons_of_ne_nil hne
      intro hd
      exact hnot (Option.some.inj hd ▸ List.mem_cons_self)

/-! ## Read by read -/

/-- What is left of the last part. -/
def rest (parts : List (List α)) : List α := parts.getLast?.getD []

/-- The parts that are complete after the reads, from what the reader had kept, and what it has kept then. -/
def feedAll (sep : List α) : List α → List (List α) → List (List α) × List α
  | kept, [] => ([], kept)
  | kept, piece :: pieces =>
    let parts := split sep (kept ++ piece)
    let later := feedAll sep (rest parts) pieces
    (parts.dropLast ++ later.1, later.2)

/-- Splitting goes on from the last part. -/
theorem split_append (hsep : sep ≠ []) (s t : List α) :
    split sep (s ++ t) = (split sep s).dropLast ++ split sep (rest (split sep s) ++ t) := by
  induction hn : s.length using Nat.strongRecOn generalizing s with
  | ind n ih =>
    cases hcut : cut? sep s with
    | none => simp [split_of_none hcut, rest]
    | some x =>
      obtain ⟨p, r⟩ := x
      have hne := split_ne_nil hsep r
      have hrest : rest (p :: split sep r) = rest (split sep r) := by
        rw [rest, rest, List.getLast?_cons_of_ne_nil hne]
      rw [split_of_some hsep hcut, split_of_some hsep (cut?_append t hcut),
        ih r.length (hn ▸ length_lt_of_cut? hsep hcut) r rfl, List.dropLast_cons_of_ne_nil hne, hrest,
        List.cons_append]

/-- No separator is left in the last part. -/
theorem cut?_rest (hsep : sep ≠ []) (s : List α) : cut? sep (rest (split sep s)) = none := by
  induction hn : s.length using Nat.strongRecOn generalizing s with
  | ind n ih =>
    cases hcut : cut? sep s with
    | none => rw [split_of_none hcut, rest, List.getLast?_singleton, Option.getD_some, hcut]
    | some x =>
      obtain ⟨p, r⟩ := x
      have hrest := ih r.length (hn ▸ length_lt_of_cut? hsep hcut) r rfl
      rw [split_of_some hsep hcut, rest, List.getLast?_cons_of_ne_nil (split_ne_nil hsep r)]
      exact hrest

/-- However a text is cut into reads, the reader takes the parts of the whole text. -/
theorem feedAll_eq (hsep : sep ≠ []) (pieces : List (List α)) {kept : List α} (hkept : cut? sep kept = none) :
    (feedAll sep kept pieces).1 ++ [(feedAll sep kept pieces).2] = split sep (kept ++ pieces.flatten) := by
  induction pieces generalizing kept with
  | nil => rw [List.flatten_nil, List.append_nil, split_of_none hkept, feedAll, List.nil_append]
  | cons piece pieces ih =>
    have hlater := ih (cut?_rest hsep (kept ++ piece))
    rw [List.flatten_cons, ← List.append_assoc, split_append hsep (kept ++ piece), ← hlater, feedAll]
    exact List.append_assoc _ _ _

/-- A reader who starts with nothing takes the frames of a sequence of frames, and keeps nothing. -/
theorem feedAll_frames (hsep : sep ≠ []) {bodies pieces : List (List α)}
    (h : ∀ body ∈ bodies, cut? sep (body ++ sep.dropLast) = none)
    (hpieces : pieces.flatten = bodies.flatMap fun body => body ++ sep) :
    feedAll sep [] pieces = (bodies, []) := by
  have hnil : cut? sep ([] : List α) = none := rfl
  have hall := feedAll_eq hsep pieces hnil
  rw [List.nil_append, hpieces, split_frames hsep h] at hall
  obtain ⟨hparts, hkept⟩ := List.append_inj' hall rfl
  exact Prod.ext hparts (List.singleton_inj.1 hkept)

end Framing
