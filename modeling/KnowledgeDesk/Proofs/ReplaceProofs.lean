import KnowledgeDesk.Proofs.DefuseProofs

/-!
# Proofs: replacing on the original is replacing on the fold

Spans of the folded text, however many invisible characters stand before, inside or between them, are
mapped to spans of the original that are replaced exactly; and the fold of the outcome is the folded text
with the spans replaced.
-/

namespace KnowledgeDesk.Proofs

open Regex Normalize Providers

/-- Neither span overlaps the other. -/
def Apart (p q : Nat × Nat) : Prop := p.2 ≤ q.1 ∨ q.2 ≤ p.1

/-- A text from position `i` on, with the spans replaced by the marker: the marker where a span starts,
nothing inside of one, and every other character as it is. -/
def replacedAt (spans : List (Nat × Nat)) (marker : List Char) : Nat → List Char → List Char
  | _, [] => []
  | i, c :: text =>
    (if spans.any (·.1 == i) then marker
      else if spans.any (fun p => decide (p.1 < i ∧ i < p.2)) then [] else [c]) ++
      replacedAt spans marker (i + 1) text

section ReplacedAt

variable {spans : List (Nat × Nat)} {marker : List Char} {p : Nat × Nat} {n i : Nat} {w text : List Char}

theorem replacedAt_perm {spans' : List (Nat × Nat)} (h : spans.Perm spans') :
    replacedAt spans marker i text = replacedAt spans' marker i text := by
  induction text generalizing i with
  | nil => rfl
  | cons c text ih =>
    rw [replacedAt, replacedAt, h.any_eq, h.any_eq, ih]

/-- Before every span the text is kept. -/
theorem replacedAt_before (h : ∀ p ∈ spans, i + w.length ≤ p.1) :
    replacedAt spans marker i (w ++ text) = w ++ replacedAt spans marker (i + w.length) text := by
  induction w generalizing i with
  | nil => rfl
  | cons c w ih =>
    rw [List.length_cons] at h
    have hstart : spans.any (·.1 == i) = false := List.any_eq_false.2 fun p hp => by
      have := h p hp
      simp only [beq_iff_eq]
      omega
    have hin : spans.any (fun p => decide (p.1 < i ∧ i < p.2)) = false := List.any_eq_false.2 fun p hp => by
      have := h p hp
      simp only [decide_eq_true_eq]
      omega
    rw [List.cons_append, replacedAt, hstart, hin, if_neg Bool.false_ne_true, if_neg Bool.false_ne_true,
      ih fun p hp => by have := h p hp; omega, List.length_cons, Nat.add_right_comm, Nat.add_assoc]
    rfl

/-- Inside of a span, past its start, nothing is kept. -/
theorem replacedAt_inside (hp : p ∈ spans) (hstart : p.1 < i) (hstop : i + w.length ≤ p.2)
    (hapart : ∀ q ∈ spans, q.1 < i ∨ p.2 ≤ q.1) :
    replacedAt spans marker i (w ++ text) = replacedAt spans marker (i + w.length) text := by
  induction w generalizing i with
  | nil => rfl
  | cons c w ih =>
    rw [List.length_cons] at hstop
    have hnone : spans.any (·.1 == i) = false := List.any_eq_false.2 fun q hq => by
      have := hapart q hq
      simp only [beq_iff_eq]
      omega
    have hin : spans.any (fun p => decide (p.1 < i ∧ i < p.2)) = true :=
      List.any_eq_true.2 ⟨p, hp, by simp only [decide_eq_true_eq]; omega⟩
    rw [List.cons_append, replacedAt, hnone, hin, if_neg Bool.false_ne_true, if_pos rfl, List.nil_append,
      ih (by omega) (by omega) fun q hq => (hapart q hq).imp_left fun h => Nat.lt_add_one_of_lt h,
      List.length_cons, Nat.add_right_comm, Nat.add_assoc]

/-- A span that ends before the text has nothing to do with it. -/
theorem replacedAt_past (hlt : p.1 < p.2) (hpast : p.2 ≤ i) :
    replacedAt (p :: spans) marker i text = replacedAt spans marker i text := by
  induction text generalizing i with
  | nil => rfl
  | cons c text ih =>
    have hstart : (p.1 == i) = false := beq_eq_false_iff_ne.2 (by omega)
    have hin : decide (p.1 < i ∧ i < p.2) = false := decide_eq_false (by omega)
    rw [replacedAt, replacedAt, List.any_cons, List.any_cons, hstart, hin, Bool.false_or, Bool.false_or,
      ih (by omega)]

/-- For spans in order, this is what substituting from the left gives. -/
theorem replacedAt_ordered {ms : List Match} (h : Ordered (Regex.spans ms))
    (hend : ∀ p ∈ Regex.spans ms, p.2 ≤ n + text.length) (hn : ∀ p ∈ Regex.spans ms, n ≤ p.1) :
    replacedAt (Regex.spans ms) marker n text = substitute marker ms n text := by
  induction ms generalizing n text with
  | nil =>
    have hnil : Regex.spans [] = [] := rfl
    rw [substitute, hnil, ← List.append_nil text, replacedAt_before fun p hp => absurd hp List.not_mem_nil]
    rfl
  | cons m ms ih =>
    have hspans : Regex.spans (m :: ms) = (m.start, m.stop) :: Regex.spans ms := rfl
    rw [hspans] at h hend hn ⊢
    obtain ⟨hlater, hord⟩ := List.pairwise_cons.1 h.2
    have hrest : Ordered (Regex.spans ms) := ⟨fun p hp => h.1 p (List.mem_cons_of_mem _ hp), hord⟩
    have hlt := h.1 _ List.mem_cons_self
    have hle := hend _ List.mem_cons_self
    have hnm := hn _ List.mem_cons_self
    dsimp only at hlt hle hnm hlater
    -- what stands before the span, its first character, what else is in it, and what follows
    obtain ⟨kept, part, hkept, hcut⟩ : ∃ kept part, kept.length = m.start - n ∧ text = kept ++ part :=
      ⟨text.take (m.start - n), text.drop (m.start - n), by rw [List.length_take]; omega,
        (List.take_append_drop _ _).symm⟩
    subst hcut
    rw [List.length_append] at hle hend
    obtain ⟨c, inner, rest, hinner, rfl⟩ : ∃ c inner rest, inner.length + 1 = m.stop - m.start ∧
        part = c :: (inner ++ rest) := by
      cases part with
      | nil =>
        rw [List.length_nil] at hle
        omega
      | cons c part =>
        rw [List.length_cons] at hle
        exact ⟨c, part.take (m.stop - m.start - 1), part.drop (m.stop - m.start - 1),
          by rw [List.length_take]; omega, by rw [List.take_append_drop]⟩
    have hdrop : (kept ++ c :: (inner ++ rest)).drop (m.stop - n) = rest := by
      have hlen : m.stop - n = (kept ++ c :: inner).length := by
        rw [List.length_append, List.length_cons]
        omega
      rw [← List.cons_append, ← List.append_assoc, hlen, List.drop_left]
    rw [substitute, hdrop, ← hkept, List.take_left, replacedAt_before, replacedAt, if_pos, replacedAt_inside,
      replacedAt_past, List.append_assoc]
    · have hnext : n + kept.length + 1 + inner.length = m.stop := by omega
      rw [hnext, ih hrest (fun p hp => ?_) hlater]
      have := hend p (List.mem_cons_of_mem _ hp)
      rw [List.length_cons, List.length_append] at this
      omega
    · exact hlt
    · dsimp only
      omega
    · exact List.mem_cons_self
    · dsimp only
      omega
    · dsimp only
      omega
    · intro q hq
      rcases List.mem_cons.1 hq with rfl | hq
      · exact .inl (by dsimp only; omega)
      · exact .inr (hlater q hq)
    · refine List.any_eq_true.2 ⟨_, List.mem_cons_self, ?_⟩
      simp only [beq_iff_eq]
      omega
    · intro q hq
      rcases List.mem_cons.1 hq with rfl | hq
      · dsimp only
        omega
      · have := hlater q hq
        omega

end ReplacedAt

/-- The order in which the spans are given does not matter. -/
theorem replaceFolded_perm {text marker : List Char} {spans spans' : List (Nat × Nat)}
    (h : spans.Perm spans') : replaceFolded text spans marker = replaceFolded text spans' marker := by
  rw [replaceFolded, replaceFolded, Table.orderBy_of_perm ?_ ?_ ?_ h]
  · intro p q
    simp only [laterFirst, decide_eq_true_eq]
    omega
  · intro p q r
    simp only [laterFirst, decide_eq_true_eq]
    omega
  · intro p q hpq hqp
    simp only [laterFirst, decide_eq_true_eq] at hpq hqp
    exact Prod.ext (by omega) (by omega)

/-- Spans apart from each other, put in order. -/
theorem exists_ordered {spans : List (Nat × Nat)} (hlt : ∀ p ∈ spans, p.1 < p.2)
    (hapart : spans.Pairwise Apart) : ∃ ms, (Regex.spans ms).Perm spans ∧ Ordered (Regex.spans ms) := by
  obtain ⟨sorted, hsort⟩ : ∃ sorted, sorted = spans.insertionSort fun p q => p.1 ≤ q.1 := ⟨_, rfl⟩
  have hperm : sorted.Perm spans := hsort ▸ List.perm_insertionSort _ spans
  have hms : Regex.spans (sorted.map fun p => ⟨p.1, p.2, []⟩) = sorted := by
    rw [Regex.spans, List.map_map]
    exact List.map_id sorted
  refine ⟨sorted.map fun p => ⟨p.1, p.2, []⟩, ?_⟩
  rw [hms]
  refine ⟨hperm, fun p hp => hlt p (hperm.mem_iff.1 hp), ?_⟩
  have : Std.Total fun p q : Nat × Nat => p.1 ≤ q.1 := ⟨fun p q => Nat.le_total p.1 q.1⟩
  have : IsTrans (Nat × Nat) fun p q => p.1 ≤ q.1 := ⟨fun _ _ _ => Nat.le_trans⟩
  have hsorted : sorted.Pairwise fun p q => p.1 ≤ q.1 := hsort ▸ List.pairwise_insertionSort _ spans
  have hapart' : sorted.Pairwise Apart := hperm.symm.pairwise hapart Or.symm
  refine (hsorted.and hapart').imp_of_mem fun {p q} hp hq h => ?_
  have hp' := hlt p (hperm.mem_iff.1 hp)
  have hq' := hlt q (hperm.mem_iff.1 hq)
  rcases h.2 with h' | h' <;> omega

/-- A span of the folded text in the original. -/
def toOriginal (text : List Char) (p : Nat × Nat) : Nat × Nat :=
  originalSpan (origin text) p.1 p.2 text.length

/-- What replacing spans of the folded text on the original amounts to. -/
structure ReplacesAlike (text marker : List Char) (spans : List (Nat × Nat)) : Prop where
  apart : (spans.map (toOriginal text)).Pairwise Apart
  cut : ∀ p ∈ spans, (toOriginal text p).1 < (toOriginal text p).2 ∧ (toOriginal text p).2 ≤ text.length ∧
    fold (slice text (toOriginal text p).1 (toOriginal text p).2) = slice (fold text) p.1 p.2
  kept : replaceFolded text (spans.map (toOriginal text)) marker =
    replacedAt (spans.map (toOriginal text)) marker 0 text
  folded : fold (replaceFolded text (spans.map (toOriginal text)) marker) =
    replacedAt spans marker 0 (fold text)

theorem fold_slice {text : List Char} {p : Nat × Nat} (hlt : p.1 < p.2) (hle : p.2 ≤ (fold text).length) :
    fold (slice text (toOriginal text p).1 (toOriginal text p).2) = slice (fold text) p.1 p.2 := by
  have hstart := (@aligned_origin text p.1 (by omega)).1
  have hstop := (@aligned_origin text (p.2 - 1) (by omega)).2
  rw [Nat.sub_add_cancel (by omega)] at hstop
  have hspan := (originalSpan_lt hlt hle).1
  rw [toOriginal, slice, slice]
  rw [originalSpan_eq hlt hle] at hspan ⊢
  exact hstart.slice hstop hspan.le hlt.le

/-- Replacing spans of the folded text on the original, through the offset map, cuts out and keeps exactly
what it should, and folds to the folded text with the spans replaced. -/
theorem replace_folds {text marker : List Char} (hmarker : fold marker = marker)
    {spans : List (Nat × Nat)} (hin : ∀ p ∈ spans, p.1 < p.2 ∧ p.2 ≤ (fold text).length)
    (hapart : spans.Pairwise Apart) : ReplacesAlike text marker spans := by
  obtain ⟨ms, hperm, hord⟩ := exists_ordered (fun p hp => (hin p hp).1) hapart
  have hin' : ∀ p ∈ Regex.spans ms, p.1 < p.2 ∧ p.2 ≤ (fold text).length := fun p hp =>
    hin p (hperm.mem_iff.1 hp)
  have hnonempty : ∀ m ∈ ms, m.start < m.stop ∧ m.stop ≤ (fold text).length := fun m hm =>
    hin' _ (List.mem_map_of_mem hm)
  have horder : InOrder text 0 0 ms :=
    ⟨Aligned.zero text, fun _ _ => ⟨Nat.zero_le _, Nat.zero_le _⟩, hnonempty, List.pairwise_map.1 hord.2⟩
  have hmapped : Regex.spans (ms.map (inOriginal text)) = (Regex.spans ms).map (toOriginal text) := by
    rw [Regex.spans, Regex.spans, List.map_map, List.map_map]
    refine List.map_congr_left fun m hm => ?_
    obtain ⟨hlt, hle⟩ := hnonempty m hm
    exact (originalSpan_eq hlt hle).symm
  have hperm' := hmapped ▸ hperm.map (toOriginal text)
  have hord' : Ordered (Regex.spans (ms.map (inOriginal text))) := by
    rw [hmapped]
    constructor
    · intro q hq
      obtain ⟨p, hp, rfl⟩ := List.mem_map.1 hq
      exact (originalSpan_lt (hin' p hp).1 (hin' p hp).2).1
    · refine List.pairwise_map.2 (hord.2.imp_of_mem fun {p q} hp hq hpq => ?_)
      exact originalSpan_le (hin' p hp).1 hpq (hin' q hq).1 (hin' q hq).2
  have hend : ∀ q ∈ Regex.spans (ms.map (inOriginal text)), q.2 ≤ text.length := by
    intro q hq
    obtain ⟨p, hp, rfl⟩ := List.mem_map.1 (hmapped ▸ hq)
    exact (originalSpan_lt (hin' p hp).1 (hin' p hp).2).2
  have hsub : replaceFolded text (spans.map (toOriginal text)) marker =
      substitute marker (ms.map (inOriginal text)) 0 text := by
    rw [← replaceFolded_perm hperm', replaceFolded_ordered hord']
    exact foldr_eq_substitute hord' hend (n := 0) fun _ _ => Nat.zero_le _
  refine ⟨?_, fun p hp => ?_, ?_, ?_⟩
  · exact hperm'.pairwise (hord'.2.imp .inl) Or.symm
  · obtain ⟨hlt, hle⟩ := hin p hp
    exact ⟨(originalSpan_lt hlt hle).1, (originalSpan_lt hlt hle).2, fold_slice hlt hle⟩
  · rw [hsub, ← replacedAt_perm hperm',
      replacedAt_ordered hord' (by simpa using hend) fun _ _ => Nat.zero_le _]
  · rw [hsub, ← replacedAt_perm hperm,
      replacedAt_ordered hord (fun p hp => by simpa using (hin' p hp).2) fun _ _ => Nat.zero_le _]
    exact fold_substitute hmarker horder

/-- Two spans given last first, in a text with a zero-width space before, inside of and between them. -/
def brokenText : List Char := ['a', '\u200b', 'b', '\u200b', 'c', '\u200b', 'd', '\u200b', 'e']

theorem replace_folds_broken_text : ReplacesAlike brokenText "-".toList [(3, 5), (1, 3)] := by
  refine replace_folds (fold_of_all_ascii (by decide)) (by decide) ?_
  simp [Apart]

end KnowledgeDesk.Proofs
