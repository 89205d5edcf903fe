import KnowledgeDesk.Proofs.CitationProofs

/-!
# Proofs: the quotes of a text, piece by piece

Cut a text at its double quotation marks. What the check for cited quotes reads is then a matter of the
pieces: a piece is a quote when the one before it has a citation near its end.
-/

namespace KnowledgeDesk.Proofs

open Regex Normalize OutputChecks

/-- The number of the citation that a text begins with, if at most 40 characters come after it. -/
def reachesFrom (text : List Char) : Option Nat :=
  match (CITATION.ends ⟨[], text, []⟩).head? with
  | some t => if t.after.length ≤ 40 then some (citedNumber ⟨0, 0, t.groups⟩) else none
  | none => none

/-- The number of the first citation of a piece that has at most 40 characters after it. -/
def reaching (piece : List Char) : Option Nat := piece.tails.findSome? reachesFrom

/-- The pieces that are quotes, of at most 300 characters, each with the number of its citation. -/
def quotedPieces : List (List Char) → List (Nat × List Char)
  | piece :: quote :: next :: pieces =>
    match reaching piece with
    | some n =>
      if 1 ≤ quote.length ∧ quote.length ≤ 300 then (n, quote) :: quotedPieces (next :: pieces)
      else quotedPieces (quote :: next :: pieces)
    | none => quotedPieces (quote :: next :: pieces)
  | _ => []

/-! ## Citations near the end of a piece -/

theorem citation_no_quote {w : List Char} (h : CITATION.Lang w) : '"' ∉ w := by
  obtain ⟨a, d, b, ha, hd, hb, -, -, rfl⟩ := citation_lang.1 h
  simp only [List.mem_cons, List.mem_append, not_or]
  exact ⟨by decide, fun hm => absurd (ha _ hm) (by decide), fun hm => absurd (hd _ hm) (by decide),
    fun hm => absurd (hb _ hm) (by decide), by decide, List.not_mem_nil⟩

/-- The matcher for citations, at a place where one stands. -/
theorem citation_ends_head {before w x : List Char} (hw : CITATION.Lang w) :
    ∃ t, (CITATION.ends ⟨before, w ++ x, []⟩).head? = some t ∧ t.after = x ∧
      ∀ i j, citedNumber ⟨i, j, t.groups⟩ = numberOf w := by
  obtain ⟨t, ts, hts⟩ := List.exists_cons_of_ne_nil
    ((ends_ne_nil_iff citation_plain (s := ⟨before, w ++ x, []⟩)).2 ⟨w, hw, List.prefix_append w x⟩)
  obtain ⟨a, d, b, m, ha, hd, hlen, hb, hsplit, hgroups, ht⟩ :=
    @mem_citation_ends [] ⟨before, w ++ x, []⟩ t (hts ▸ List.mem_cons_self)
  obtain rfl : t = m := List.mem_singleton.1 ht
  have hlang : CITATION.Lang ('[' :: (a ++ (d ++ (b ++ [']'])))) :=
    citation_lang.2 ⟨a, d, b, ha, hd, hb, hlen.1, hlen.2, rfl⟩
  have heq : w ++ x = '[' :: (a ++ (d ++ (b ++ [']']))) ++ t.after := by
    rw [show w ++ x = _ from hsplit]
    simp
  obtain ⟨rfl, rfl⟩ := citation_unique hw hlang heq
  refine ⟨t, by rw [hts]; rfl, rfl, fun i j => ?_⟩
  rw [numberOf_citation ha hd hb, citedNumber, Match.group, hgroups]
  rfl

theorem reachesFrom_some {text : List Char} {n : Nat} : reachesFrom text = some n ↔
    ∃ w x, text = w ++ x ∧ CITATION.Lang w ∧ x.length ≤ 40 ∧ numberOf w = n := by
  constructor
  · intro h
    rw [reachesFrom] at h
    cases ht : (CITATION.ends ⟨[], text, []⟩).head? with
    | none => simp [ht] at h
    | some t =>
      obtain ⟨w, hw, hst⟩ := ends_sound (List.mem_of_head? ht)
      have hsplit : text = w ++ t.after := hst.1
      obtain ⟨t', ht', -, hnumber⟩ := @citation_ends_head [] w t.after hw
      rw [← hsplit, ht, Option.some.injEq] at ht'
      subst ht'
      simp only [ht] at h
      by_cases hlen : t.after.length ≤ 40
      · rw [if_pos hlen, hnumber, Option.some.injEq] at h
        exact ⟨w, t.after, hsplit, hw, hlen, h⟩
      · rw [if_neg hlen] at h
        cases h
  · rintro ⟨w, x, rfl, hw, hlen, rfl⟩
    obtain ⟨t, ht, hafter, hnumber⟩ := @citation_ends_head [] w x hw
    rw [reachesFrom, ht]
    simp only
    rw [hafter, if_pos hlen, hnumber]

theorem reachesFrom_nil : reachesFrom [] = none := by
  by_contra h
  obtain ⟨n, hn⟩ := Option.ne_none_iff_exists'.1 h
  obtain ⟨w, x, hnil, hw, -⟩ := reachesFrom_some.1 hn
  exact citation_not_nil ((List.append_eq_nil_iff.1 hnil.symm).1 ▸ hw)

theorem reaching_cons (c : Char) (piece : List Char) :
    reaching (c :: piece) = (reachesFrom (c :: piece)).or (reaching piece) := by
  rw [reaching, List.tails, List.findSome?_cons, reaching]
  cases reachesFrom (c :: piece) <;> rfl

/-- The first place of a piece from which a citation reaches its end. -/
theorem reaching_some {piece : List Char} {n : Nat} (h : reaching piece = some n) :
    ∃ u y, piece = u ++ y ∧ reachesFrom y = some n ∧
      ∀ u₁ u₂, u = u₁ ++ u₂ → u₂ ≠ [] → reachesFrom (u₂ ++ y) = none := by
  induction piece with
  | nil =>
    have hnil : reaching [] = reachesFrom [] := by
      rw [reaching, List.tails, List.findSome?_singleton]
    rw [hnil, reachesFrom_nil] at h
    cases h
  | cons c piece ih =>
    rw [reaching_cons] at h
    cases hc : reachesFrom (c :: piece) with
    | some k =>
      rw [hc, Option.some_or] at h
      exact ⟨[], c :: piece, rfl, by rw [hc, h], fun u₁ u₂ hu hne =>
        absurd (List.append_eq_nil_iff.1 hu.symm).2 hne⟩
    | none =>
      rw [hc, Option.none_or] at h
      obtain ⟨u, y, rfl, hy, hnone⟩ := ih h
      refine ⟨c :: u, y, rfl, hy, fun u₁ u₂ hu hne => ?_⟩
      cases u₁ with
      | nil =>
        rw [List.nil_append] at hu
        rw [← hu]
        exact hc
      | cons d u₁ => exact hnone u₁ u₂ (List.cons.inj hu).2 hne

theorem reaching_none {piece u y : List Char} (h : reaching piece = none) (hsplit : piece = u ++ y) :
    reachesFrom y = none := by
  induction piece generalizing u with
  | nil =>
    rw [(List.append_eq_nil_iff.1 hsplit.symm).2]
    exact reachesFrom_nil
  | cons c piece ih =>
    rw [reaching_cons, Option.or_eq_none_iff] at h
    cases u with
    | nil =>
      rw [List.nil_append] at hsplit
      rw [← hsplit]
      exact h.1
    | cons d u => exact ih h.2 (List.cons.inj hsplit).2

/-- A stretch in which no citation begins does not matter. -/
theorem reaching_append {a piece : List Char}
    (h : ∀ u v w x, a = u ++ v → v ≠ [] → v ++ piece = w ++ x → ¬ CITATION.Lang w) :
    reaching (a ++ piece) = reaching piece := by
  induction a with
  | nil => rfl
  | cons c a ih =>
    have hnone : reachesFrom (c :: (a ++ piece)) = none := by
      by_contra hsome
      obtain ⟨n, hn⟩ := Option.ne_none_iff_exists'.1 hsome
      obtain ⟨w, x, hsplit, hw, -⟩ := reachesFrom_some.1 hn
      exact h [] (c :: a) w x rfl (List.cons_ne_nil c a) hsplit hw
    rw [List.cons_append, reaching_cons, hnone, Option.none_or]
    exact ih fun u v w x hu => h (c :: u) v w x (by rw [hu, List.cons_append])

/-! ## The scan for quotes -/

theorem citedQuote_lang {w x q : List Char} (hw : CITATION.Lang w) (hx : '"' ∉ x) (hlen : x.length ≤ 40)
    (hq : '"' ∉ q) (hquote : 1 ≤ q.length ∧ q.length ≤ 300) :
    CITED_QUOTE.Lang (w ++ (x ++ '"' :: (q ++ ['"']))) := by
  obtain ⟨a, d, b, ha, hd, hb, hlo, hhi, rfl⟩ := citation_lang.1 hw
  have hclass : ∀ l : List Char, '"' ∉ l → ∀ c ∈ l, (c != '"') = true := fun l hl c hc => by
    simpa using fun he : c = '"' => hl (he ▸ hc)
  have hnumber : (between 1 3 digit).Lang d :=
    lang_rep_char.2 ⟨hd, hlo, fun n hn => by rw [← Option.some.inj hn]; exact hhi⟩
  have hgap : (Re.rep (.char (· != '"')) 0 (some 40) false).Lang x :=
    lang_rep_char.2 ⟨hclass x hx, Nat.zero_le _, fun n hn => by rw [← Option.some.inj hn]; exact hlen⟩
  have hbody : (Re.rep (.char (· != '"')) 1 (some 300) false).Lang q :=
    lang_rep_char.2 ⟨hclass q hq, hquote.1, fun n hn => by rw [← Option.some.inj hn]; exact hquote.2⟩
  have hsplit : '[' :: (a ++ (d ++ (b ++ [']']))) ++ (x ++ '"' :: (q ++ ['"'])) =
      ['['] ++ (a ++ (d ++ (b ++ ([']'] ++ (x ++ (['"'] ++ (q ++ ['"']))))))) := by simp
  rw [hsplit]
  refine lang_seqs_cons.2 ⟨_, _, ⟨'[', rfl, rfl⟩, ?_, rfl⟩
  refine lang_seqs_cons.2 ⟨_, _, lang_star_char.2 ha, ?_, rfl⟩
  refine lang_seqs_cons.2 ⟨_, _, hnumber, ?_, rfl⟩
  refine lang_seqs_cons.2 ⟨_, _, lang_star_char.2 hb, ?_, rfl⟩
  refine lang_seqs_cons.2 ⟨_, _, ⟨']', rfl, rfl⟩, ?_, rfl⟩
  refine lang_seqs_cons.2 ⟨_, _, hgap, ?_, rfl⟩
  refine lang_seqs_cons.2 ⟨_, _, ⟨'"', rfl, rfl⟩, ?_, rfl⟩
  exact lang_seqs_cons.2 ⟨_, _, hbody, ⟨'"', rfl, rfl⟩, rfl⟩

section Scan

variable {before y q rest : List Char}

/-- What the pattern reads between two quotation marks, it reads from a citation that reaches them. -/
theorem citedQuote_ends (hy : '"' ∉ y) (hq : '"' ∉ q) {t : State}
    (ht : t ∈ CITED_QUOTE.ends ⟨before, y ++ '"' :: (q ++ '"' :: rest), []⟩) :
    reachesFrom y = some (citedNumber ⟨0, 0, t.groups⟩) ∧ (1 ≤ q.length ∧ q.length ≤ 300) ∧ t.after = rest ∧
      ∀ i j, (⟨i, j, t.groups⟩ : Match).group 2 = q := by
  obtain ⟨a, d, b, x, y', ha, hd, hlen, hb, hx, hgap, hy', hlen', hsplit, hgroups⟩ := mem_citedQuote_ends ht
  have hlang : CITATION.Lang ('[' :: (a ++ (d ++ (b ++ [']'])))) :=
    citation_lang.2 ⟨a, d, b, ha, hd, hb, hlen.1, hlen.2, rfl⟩
  have hclass : ∀ l : List Char, '"' ∉ l → ∀ c ∈ l, (c != '"') = true := fun l hl c hc => by
    simpa using fun he : c = '"' => hl (he ▸ hc)
  have hcut : y ++ '"' :: (q ++ '"' :: rest) =
      '[' :: (a ++ (d ++ (b ++ [']']))) ++ x ++ '"' :: (y' ++ '"' :: t.after) := by
    rw [show y ++ '"' :: (q ++ '"' :: rest) = _ from hsplit]
    simp
  obtain ⟨rfl, hright⟩ := span_unique hcut (hclass y hy) (fun c hc => by
    simp only [bne_iff_ne, ne_eq]
    rintro rfl
    exact (List.mem_append.1 hc).elim (citation_no_quote hlang) fun h => hx _ h rfl) (by simp) (by simp)
  obtain ⟨rfl, hafter⟩ := @span_unique (· != '"') q _ y' _ (List.cons.inj hright).2 (hclass q hq)
    (fun c hc => by simpa using hy' c hc) (by simp) (by simp)
  refine ⟨reachesFrom_some.2 ⟨_, x, rfl, hlang, hgap, ?_⟩, hlen', ((List.cons.inj hafter).2).symm, fun i j => ?_⟩
  · rw [numberOf_citation ha hd hb, citedNumber, Match.group, hgroups]
    rfl
  · rw [Match.group, hgroups]
    rfl

/-- Where no citation reaches the quotation mark, or the quote is too short or too long, nothing matches. -/
theorem citedQuote_ends_nil (hy : '"' ∉ y) (hq : '"' ∉ q)
    (hno : reachesFrom y = none ∨ ¬ (1 ≤ q.length ∧ q.length ≤ 300)) :
    CITED_QUOTE.ends ⟨before, y ++ '"' :: (q ++ '"' :: rest), []⟩ = [] := by
  by_contra hne
  obtain ⟨t, ht⟩ := List.exists_mem_of_ne_nil _ hne
  obtain ⟨hreach, hlen, -⟩ := citedQuote_ends hy hq ht
  rcases hno with hno | hno
  · rw [hno] at hreach
    cases hreach
  · exact hno hlen

/-- Where one does, the match is up to the closing quotation mark. -/
theorem citedQuote_ends_head (hy : '"' ∉ y) (hq : '"' ∉ q) {n : Nat} (hreach : reachesFrom y = some n)
    (hlen : 1 ≤ q.length ∧ q.length ≤ 300) :
    ∃ g, (CITED_QUOTE.ends ⟨before, y ++ '"' :: (q ++ ['"']) ++ rest, []⟩).head? =
        some ⟨(y ++ '"' :: (q ++ ['"'])).reverse ++ before, rest, g⟩ ∧
      ∀ i j, citedNumber ⟨i, j, g⟩ = n ∧ (⟨i, j, g⟩ : Match).group 2 = q := by
  obtain ⟨w, x, rfl, hw, hgap, -⟩ := reachesFrom_some.1 hreach
  have hx : '"' ∉ x := fun h => hy (List.mem_append_right w h)
  have hlang := citedQuote_lang hw hx hgap hq hlen
  rw [← List.append_assoc] at hlang
  obtain ⟨t, ts, hts⟩ := List.exists_cons_of_ne_nil ((ends_ne_nil_iff citedQuote_plain
    (s := ⟨before, w ++ x ++ '"' :: (q ++ ['"']) ++ rest, []⟩)).2 ⟨_, hlang, List.prefix_append _ _⟩)
  have hmem : t ∈ CITED_QUOTE.ends ⟨before, w ++ x ++ '"' :: (q ++ ['"']) ++ rest, []⟩ :=
    hts ▸ List.mem_cons_self
  obtain ⟨v, -, hreads⟩ := ends_sound hmem
  have hsplit : w ++ x ++ '"' :: (q ++ ['"']) ++ rest = w ++ x ++ '"' :: (q ++ '"' :: rest) := by simp
  have hmem' := hmem
  rw [hsplit] at hmem'
  obtain ⟨hreach', -, hafter, hgroup⟩ := citedQuote_ends hy hq hmem'
  rw [hreach, Option.some.injEq] at hreach'
  refine ⟨t.groups, ?_, fun i j => ⟨hreach'.symm, hgroup i j⟩⟩
  obtain rfl : v = w ++ x ++ '"' :: (q ++ ['"']) := by
    have := hreads.1
    rw [hafter] at this
    exact (List.append_cancel_right this).symm
  rw [hts, List.head?_cons, ← hreads.2, ← hafter]

end Scan

theorem citedQuote_ends_few {before text : List Char} (h : text.count '"' ≤ 1) :
    CITED_QUOTE.ends ⟨before, text, []⟩ = [] := by
  by_contra hne
  obtain ⟨t, ht⟩ := List.exists_mem_of_ne_nil _ hne
  obtain ⟨a, d, b, x, y, -, -, -, -, -, -, -, -, hsplit, -⟩ := mem_citedQuote_ends ht
  rw [show text = _ from hsplit] at h
  simp only [List.count_cons, List.count_append, beq_self_eq_true, if_true] at h
  omega

theorem count_pieces {pieces : List (List Char)} (h : ∀ p ∈ pieces, '"' ∉ p) :
    (['"'].intercalate pieces).count '"' = pieces.length - 1 := by
  induction pieces with
  | nil => rfl
  | cons p pieces ih =>
    have hp := List.count_eq_zero.2 (h p List.mem_cons_self)
    cases pieces with
    | nil => rw [List.intercalate_singleton, hp]; rfl
    | cons q pieces =>
      rw [List.intercalate_cons_cons, List.count_append, List.count_append, hp,
        ih fun r hr => h r (List.mem_cons_of_mem p hr)]
      simp only [List.length_cons, List.count_singleton_self]
      omega

theorem join_pieces {piece quote next : List Char} {pieces : List (List Char)} :
    ['"'].intercalate (piece :: quote :: next :: pieces) =
      piece ++ '"' :: (quote ++ ['"']) ++ ['"'].intercalate (next :: pieces) := by
  rw [List.intercalate_cons_cons, List.intercalate_cons_cons]
  simp

/-- The scan passes over a piece from which no quote is read. -/
theorem matches_skip {piece quote next before : List Char} {pieces : List (List Char)} {pos : Nat}
    (hp : '"' ∉ piece) (hq : '"' ∉ quote)
    (hno : ∀ u y, piece = u ++ y → reachesFrom y = none ∨ ¬ (1 ≤ quote.length ∧ quote.length ≤ 300)) :
    matchesFrom CITED_QUOTE pos before (['"'].intercalate (piece :: quote :: next :: pieces)) =
      matchesFrom CITED_QUOTE (pos + (piece ++ ['"']).length) ((piece ++ ['"']).reverse ++ before)
        (['"'].intercalate (quote :: next :: pieces)) := by
  rw [List.intercalate_cons_cons, matchesFrom_skip]
  intro w₁ w₂ hw hne
  obtain ⟨y, c, rfl⟩ := (List.eq_nil_or_concat' w₂).resolve_left hne
  rw [← List.append_assoc] at hw
  obtain ⟨rfl, hc⟩ := List.append_inj' hw rfl
  obtain rfl : '"' = c := List.singleton_inj.1 hc
  have hrest : y ++ ['"'] ++ ['"'].intercalate (quote :: next :: pieces) =
      y ++ '"' :: (quote ++ '"' :: ['"'].intercalate (next :: pieces)) := by
    rw [List.intercalate_cons_cons]
    simp
  rw [hrest]
  exact citedQuote_ends_nil (fun h => hp (List.mem_append_right w₁ h)) hq (hno w₁ y rfl)

/-- The scan of the pieces joined by quotation marks finds the quoted pieces. -/
theorem matches_pieces {pieces : List (List Char)} (h : ∀ p ∈ pieces, '"' ∉ p) (pos : Nat)
    (before : List Char) : (matchesFrom CITED_QUOTE pos before (['"'].intercalate pieces)).map
      (fun m => (citedNumber m, m.group 2)) = quotedPieces pieces := by
  induction pieces using quotedPieces.induct generalizing pos before with
  | case1 piece quote next pieces n hreach hlen ih =>
    have hp := h piece List.mem_cons_self
    have hq := h quote (by simp)
    obtain ⟨u, y, hpiece, hy, hfirst⟩ := reaching_some hreach
    have hsuffix : ∀ {w₁ w₂ : List Char}, u = w₁ ++ w₂ → '"' ∉ w₂ ++ y := fun hu hm => hp (by
      rw [hpiece, hu, List.append_assoc]
      exact List.mem_append_right _ hm)
    obtain ⟨g, hg, hnumber⟩ := @citedQuote_ends_head (u.reverse ++ before) y quote
      (['"'].intercalate (next :: pieces)) (hsuffix (List.append_nil u).symm) hq n hy hlen
    have hsplit : ['"'].intercalate (piece :: quote :: next :: pieces) =
        u ++ (y ++ '"' :: (quote ++ ['"']) ++ ['"'].intercalate (next :: pieces)) := by
      rw [join_pieces, hpiece]
      simp only [List.append_assoc]
    rw [hsplit, matchesFrom_skip fun w₁ w₂ hu hne => ?_, matchesFrom_match (by simp) hg, List.map_cons,
      ih fun p hp' => h p (List.mem_cons_of_mem _ (List.mem_cons_of_mem _ hp')), quotedPieces, hreach]
    · simp only [if_pos hlen, (hnumber _ _).1, (hnumber _ _).2]
    · have hrest : w₂ ++ (y ++ '"' :: (quote ++ ['"']) ++ ['"'].intercalate (next :: pieces)) =
          w₂ ++ y ++ '"' :: (quote ++ '"' :: ['"'].intercalate (next :: pieces)) := by simp
      rw [hrest]
      exact citedQuote_ends_nil (hsuffix hu) hq (.inl (hfirst w₁ w₂ hu hne))
  | case2 piece quote next pieces n hreach hlen ih =>
    rw [matches_skip (h piece List.mem_cons_self) (h quote (by simp)) fun _ _ _ => .inr hlen,
      ih fun p hp => h p (List.mem_cons_of_mem piece hp), quotedPieces, hreach]
    simp only [if_neg hlen]
  | case3 piece quote next pieces hreach ih =>
    rw [matches_skip (h piece List.mem_cons_self) (h quote (by simp)) fun _ _ hy =>
        .inl (reaching_none hreach hy),
      ih fun p hp => h p (List.mem_cons_of_mem piece hp), quotedPieces, hreach]
  | case4 pieces hshort =>
    have hlen : pieces.length ≤ 2 := by
      match pieces, hshort with
      | [], _ => simp
      | [_], _ => simp
      | [_, _], _ => simp
      | piece :: quote :: next :: pieces, hshort => exact (hshort piece quote next pieces rfl).elim
    have hnone : matchesFrom CITED_QUOTE pos before (['"'].intercalate pieces) = [] := by
      rw [← List.append_nil (['"'].intercalate pieces), matchesFrom_skip fun w₁ w₂ hw _ => ?_]
      · exact matchesFrom_nil citedQuote_not_nil
      · refine citedQuote_ends_few ?_
        have hcount := count_pieces h
        rw [hw, List.count_append] at hcount
        rw [List.append_nil]
        omega
    have hnil : quotedPieces pieces = [] := by
      match pieces, hlen with
      | [], _ => rfl
      | [_], _ => rfl
      | [_, _], _ => rfl
    rw [hnone, hnil]
    rfl

end KnowledgeDesk.Proofs
