import KnowledgeDesk.Proofs.DefuseProofs
import KnowledgeDesk.Proofs.QuoteProofs

/-!
# Proofs: quotes of what the prompt shows

The prompt shows a passage defused, and the check looks for a quote of it in the passage as stored.
`traced` is the shown text with a note on every character, whether it is the passage's or a marker's. A
stretch of the passage's own characters is a part of the passage (`spared_isPart`), so a quote that
touches no marker is found. A quote with a marker in it is not, unless the passage has that text of its own.
-/

namespace KnowledgeDesk.Proofs

open Regex Normalize Providers OutputChecks

/-- `substitute` on characters with a note: those of the replacement get `false`. -/
def splice (marker : List Char) : List Match → Nat → List (Char × Bool) → List (Char × Bool)
  | [], _, text => text
  | m :: ms, pos, text =>
    text.take (m.start - pos) ++ (marker.map (·, false) ++ splice marker ms m.stop (text.drop (m.stop - pos)))

/-- One round of `_defuse` on such a text. -/
def tracedPattern (rule : Re × List Char) (text : List (Char × Bool)) : List (Char × Bool) :=
  let plain := text.map (·.1)
  splice rule.2 ((finditer rule.1 (fold plain)).map (inOriginal plain)) 0 text

/-- The rounds of `_defuse` for these rules. -/
def tracedRounds (rules : List (Re × List Char)) (text : List (Char × Bool)) : List (Char × Bool) :=
  rules.foldl (fun text rule => tracedPattern rule text) text

/-- `_neutralize`, with `true` at the characters that are the passage's. -/
def traced (text : List Char) : List (Char × Bool) := tracedRounds GRAMMAR (text.map (·, true))

/-- The quote is shown somewhere without a character of a marker. -/
def Spared (text q : List Char) : Prop := q.map (·, true) <:+: traced text

/-! ## The note changes nothing -/

theorem map_fst_note (b : Bool) (text : List Char) : (text.map (·, b)).map (·.1) = text := by
  simp [List.map_map, Function.comp_def]

theorem splice_fst (marker : List Char) (ms : List Match) (pos : Nat) (text : List (Char × Bool)) :
    (splice marker ms pos text).map (·.1) = substitute marker ms pos (text.map (·.1)) := by
  induction ms generalizing pos text with
  | nil => rfl
  | cons m ms ih =>
    rw [splice, substitute, List.map_append, List.map_append, ih, List.map_take, List.map_drop,
      map_fst_note, List.append_assoc]

theorem tracedRounds_fst {rules : List (Re × List Char)} (hrules : ∀ rule ∈ rules, ¬ rule.1.Lang []) :
    ∀ (text : List (Char × Bool)) (k : Nat),
      (tracedRounds rules text).map (·.1) = (rounds rules (text.map (·.1), k)).1 := by
  induction rules with
  | nil => exact fun _ _ => rfl
  | cons rule rules ih =>
    intro text k
    have hround : (tracedPattern rule text).map (·.1) = (defusePattern rule.1 rule.2 (text.map (·.1))).1 := by
      rw [defusePattern_eq (hrules rule List.mem_cons_self)]
      exact splice_fst _ _ _ _
    rw [rounds_cons, ← hround]
    exact ih (fun r hr => hrules r (List.mem_cons_of_mem rule hr)) _ _

/-- Without the notes the traced text is what the prompt shows. -/
theorem traced_fst (text : List Char) : (traced text).map (·.1) = neutralize text := by
  rw [traced, tracedRounds_fst grammar_not_nil _ 0, map_fst_note]
  rfl

/-! ## What is left of the passage -/

/-- A stretch without a character of a marker was there before the round. -/
theorem splice_isPart {marker : List Char} (hmarker : marker ≠ []) {w : List (Char × Bool)}
    (hw : ∀ x ∈ w, x.2 = true) (hne : w ≠ []) (ms : List Match) (pos : Nat) (text : List (Char × Bool))
    (h : w <:+: splice marker ms pos text) : w <:+: text := by
  induction ms generalizing pos text with
  | nil => exact h
  | cons m ms ih =>
    have hnot : ∀ c : Char, (c, false) ∉ w := fun c hc => by simpa using hw _ hc
    obtain ⟨c, rest, rfl⟩ := List.exists_cons_of_ne_nil hmarker
    obtain ⟨x, xs, rfl⟩ := List.exists_cons_of_ne_nil hne
    rw [splice, List.map_cons, List.cons_append, PyText.infix_cut (hnot c),
      PyText.infix_skip (c := x) rfl fun hx => ?_] at h
    · rcases h with h | h
      · exact h.trans (List.take_prefix _ _).isInfix
      · exact (ih _ _ h).trans (List.drop_suffix _ _).isInfix
    · obtain ⟨d, -, rfl⟩ := List.mem_map.1 hx
      exact hnot d List.mem_cons_self

theorem tracedRounds_isPart {rules : List (Re × List Char)} (hrules : ∀ rule ∈ rules, rule.2 ≠ [])
    {w : List (Char × Bool)} (hw : ∀ x ∈ w, x.2 = true) (hne : w ≠ []) :
    ∀ text : List (Char × Bool), w <:+: tracedRounds rules text → w <:+: text := by
  induction rules with
  | nil => exact fun _ h => h
  | cons rule rules ih =>
    intro text h
    exact splice_isPart (hrules rule List.mem_cons_self) hw hne _ 0 text
      (ih (fun r hr => hrules r (List.mem_cons_of_mem rule hr)) _ h)

/-- What is shown untouched is a part of the passage. -/
theorem spared_isPart {text q : List Char} (h : Spared text q) : q <:+: text := by
  by_cases hq : q = []
  · exact hq ▸ List.nil_infix
  · have hin := tracedRounds_isPart (by decide) (by simp) (by simpa using hq) _ h
    simpa only [map_fst_note] using hin.map (·.1)

/-! ## Which quotes are accepted -/

/-- A quote of a passage as it is shown is accepted if it touches no marker there, or its label is not read.
A quote with a marker in it is reported, unless the passage has the text of the marker itself. -/
theorem shown_quote_accepted {env : Env}
    (hcase : ∀ s t, env.casefold (s ++ t) = env.casefold s ++ env.casefold t) {contexts : List Context}
    {i : Nat} {c : Context} (hc : contexts[i]? = some c) {q : List Char}
    (hlen : 1 ≤ (fold q).length ∧ (fold q).length ≤ 300) (hq : '"' ∉ fold q) :
    (Spared c.text.toList q ∨ 1000 ≤ i + 1 →
      ∀ f ∈ checkAnswer env (quoting i q) contexts, f.code ≠ "citation_unsupported") ∧
    ∀ rule ∈ GRAMMAR, rule.2 <:+: q → i + 1 < 1000 →
      ¬ (comparable env rule.2).toList <:+: (comparable env c.text.toList).toList →
      ¬ ∀ f ∈ checkAnswer env (quoting i q) contexts, f.code ≠ "citation_unsupported" := by
  rw [quote_stands_iff env hc hlen hq]
  constructor
  · rintro (h | h)
    · exact .inr (comparable_isPart hcase (spared_isPart h))
    · exact .inl h
  · rintro rule - hmarker hi hno (h | h)
    · omega
    · exact hno ((comparable_isPart hcase hmarker).trans h)

/-- A passage with a footnote marker, which the prompt shows defused. -/
def footnoteContext : Context := ⟨0, 0, "Refunds take five days, see [2] for the exception.", "refunds.md", 0⟩

/-- What an answer copies from it. -/
def shownQuote : List Char := "five days, see [citation removed] for".toList

/-- The check reads it as a quote. -/
theorem shownQuote_read : (1 ≤ (fold shownQuote).length ∧ (fold shownQuote).length ≤ 300) ∧
    '"' ∉ fold shownQuote := by
  rw [fold_of_all_ascii (by decide)]
  decide

/-- A quote of what was shown, as the prompt asks for it, is reported as unsupported. -/
theorem shown_quote_reported : shownQuote <:+: neutralize footnoteContext.text.toList ∧
    (1 ≤ (fold shownQuote).length ∧ (fold shownQuote).length ≤ 300) ∧
    (∃ c ∈ fold shownQuote, PyText.isSpace c = false) ∧ '"' ∉ fold shownQuote ∧
    ¬ ∀ f ∈ checkAnswer (asciiEnv id) (quoting 0 shownQuote) [footnoteContext],
      f.code ≠ "citation_unsupported" := by
  refine ⟨by decide +kernel, shownQuote_read.1, ⟨'f', ?_, by decide⟩, shownQuote_read.2, ?_⟩
  · rw [fold_of_all_ascii (by decide)]
    decide
  · rw [quote_stands_iff (asciiEnv id) rfl shownQuote_read.1 shownQuote_read.2, comparable, comparable,
      fold_of_all_ascii (by decide), fold_of_all_ascii (by decide)]
    decide +kernel

/-- Of that passage a quote that ends before the marker is accepted, one of the marker is reported. -/
theorem shown_quote_accepted_footnote :
    (∀ f ∈ checkAnswer (asciiEnv id) (quoting 0 "five days, see".toList) [footnoteContext],
      f.code ≠ "citation_unsupported") ∧
    ¬ ∀ f ∈ checkAnswer (asciiEnv id) (quoting 0 shownQuote) [footnoteContext],
      f.code ≠ "citation_unsupported" := by
  have hplain : fold "five days, see".toList = "five days, see".toList := fold_of_all_ascii (by decide)
  refine ⟨(shown_quote_accepted asciiEnv_casefold rfl (by rw [hplain]; decide) (by rw [hplain]; decide)).1
      (.inl ?_),
    (shown_quote_accepted asciiEnv_casefold rfl shownQuote_read.1 shownQuote_read.2).2
      (citationLabel, "[citation removed]".toList) (by simp [GRAMMAR]) (by decide) (by decide) ?_⟩
  · rw [Spared]
    decide +kernel
  · rw [comparable, comparable, fold_of_all_ascii (by decide), fold_of_all_ascii (by decide)]
    decide +kernel

end KnowledgeDesk.Proofs
