import KnowledgeDesk.Proofs.QuoteProofs
import Mathlib.Data.List.Dedup

/-!
# Proofs: what a clean citation report says of each citation

The check folds what it finds into sets of numbers: a citation is excused by the quote of another
citation of the same number, and a blank quote is found in every passage. Of the citations at which it
does read a quote that is not blank, a clean report says what one would think it says.
-/

namespace KnowledgeDesk.Proofs

open Regex Normalize OutputChecks

/-- `n` of a citation `[n]`. -/
def numberOf (w : List Char) : Nat := PyText.intOfDigits (w.filter PyText.isDigit)

/-- The citation `w` stands in the folded answer, after `u` and before `rest`. -/
structure Cites (answer u w rest : List Char) : Prop where
  split : fold answer = u ++ (w ++ rest)
  citation : CITATION.Lang w

/-- At most 40 characters on comes a quote, not blank, that the passage contains in compared form. -/
def QuotesFrom (env : Env) (c : Context) (rest : List Char) : Prop :=
  ∃ x y z, rest = x ++ '"' :: (y ++ '"' :: z) ∧ x.length ≤ 40 ∧ '"' ∉ x ∧ '"' ∉ y ∧
    (∃ e ∈ y, PyText.isSpace e = false) ∧
    PyText.contains (comparable env c.text.toList).toList (comparable env y).toList = true

/-- A citation of a passage there is, followed by a quote from it. -/
def CitationVerified (env : Env) (contexts : List Context) (n : Nat) (rest : List Char) : Prop :=
  1 ≤ n ∧ ∃ c, contexts[n - 1]? = some c ∧ QuotesFrom env c rest

/-- Every citation of the answer is verified. -/
def AllVerified (env : Env) (answer : List Char) (contexts : List Context) : Prop :=
  ∀ u w rest, Cites answer u w rest → CitationVerified env contexts (numberOf w) rest

/-- None of the three findings about citations is reported. -/
def CleanReport (env : Env) (answer : List Char) (contexts : List Context) : Prop :=
  ∀ f ∈ checkAnswer env answer contexts,
    f.code ∉ ["citation_out_of_range", "citation_unsupported", "citation_unquoted"]

/-- The check reads no quote from this citation. -/
def PassedOver (answer u : List Char) : Prop :=
  ∀ m ∈ finditer CITED_QUOTE (fold answer), m.start ≠ u.length

/-- No quote is blank, and a citation that the check passes over is verified all the same. -/
structure ChecksCover (env : Env) (answer : List Char) (contexts : List Context) : Prop where
  passedOver : ∀ u w rest, Cites answer u w rest → PassedOver answer u →
    CitationVerified env contexts (numberOf w) rest
  notBlank : ∀ m ∈ finditer CITED_QUOTE (fold answer), ∃ e ∈ m.group 2, PyText.isSpace e = false

/-! ## Citations -/

theorem citation_lang {w : List Char} : CITATION.Lang w ↔
    ∃ a d b, (∀ c ∈ a, PyText.isSpace c = true) ∧ (∀ c ∈ d, PyText.isDigit c = true) ∧
      (∀ c ∈ b, PyText.isSpace c = true) ∧ 1 ≤ d.length ∧ d.length ≤ 3 ∧
      w = '[' :: (a ++ (d ++ (b ++ [']']))) :=
  citationLabel_lang

theorem citation_not_nil : ¬ CITATION.Lang [] := citationLabel_not_nil

theorem citation_plain : CITATION.Plain := citationLabel_plain

/-- The digits of a citation are those of its number. -/
theorem numberOf_citation {a d b : List Char} (ha : ∀ c ∈ a, PyText.isSpace c = true)
    (hd : ∀ c ∈ d, PyText.isDigit c = true) (hb : ∀ c ∈ b, PyText.isSpace c = true) :
    numberOf ('[' :: (a ++ (d ++ (b ++ [']'])))) = PyText.intOfDigits d := by
  have hspace : ∀ l : List Char, (∀ c ∈ l, PyText.isSpace c = true) → l.filter PyText.isDigit = [] := by
    intro l hl
    refine List.filter_eq_nil_iff.2 fun c hc hdigit => ?_
    have := hl c hc
    rw [PyText.isSpace_of_isDigit hdigit] at this
    cases this
  have hopen : PyText.isDigit '[' = false := by decide
  have hclose : [']'].filter PyText.isDigit = [] := by decide
  rw [numberOf, List.filter_cons, hopen, List.filter_append, List.filter_append, List.filter_append,
    hspace a ha, hspace b hb, hclose, List.filter_eq_self.2 hd]
  simp

/-- A citation has one closing bracket, at its end. -/
theorem citation_closes {w : List Char} (h : CITATION.Lang w) : ∃ v, w = '[' :: (v ++ [']']) ∧
    ∀ c ∈ v, c ≠ '[' ∧ c ≠ ']' := by
  obtain ⟨a, d, b, ha, hd, hb, -, -, rfl⟩ := citation_lang.1 h
  have hspace : ∀ c, PyText.isSpace c = true → c ≠ '[' ∧ c ≠ ']' := by
    intro c hc
    constructor <;> (rintro rfl; exact absurd hc (by decide))
  have hdigit : ∀ c, PyText.isDigit c = true → c ≠ '[' ∧ c ≠ ']' := by
    intro c hc
    constructor <;> (rintro rfl; exact absurd hc (by decide))
  refine ⟨a ++ (d ++ b), by simp only [List.append_assoc], fun c hc => ?_⟩
  rcases List.mem_append.1 hc with hc | hc
  · exact hspace c (ha c hc)
  · exact (List.mem_append.1 hc).elim (fun hc => hdigit c (hd c hc)) fun hc => hspace c (hb c hc)

/-- Only one citation starts at a place. -/
theorem citation_unique {w w' rest rest' : List Char} (h : CITATION.Lang w) (h' : CITATION.Lang w')
    (heq : w ++ rest = w' ++ rest') : w = w' ∧ rest = rest' := by
  obtain ⟨v, rfl, hv⟩ := citation_closes h
  obtain ⟨v', rfl, hv'⟩ := citation_closes h'
  have hin : v ++ (']' :: rest) = v' ++ (']' :: rest') := by simpa using heq
  obtain ⟨rfl, hrest⟩ := @span_unique (· != ']') v _ v' _ hin (fun c hc => by simpa using (hv c hc).2)
    (fun c hc => by simpa using (hv' c hc).2) (by simp) (by simp)
  exact ⟨rfl, (List.cons.inj hrest).2⟩

/-- A match of the scan for citations, with its number. -/
theorem mem_finditer_citation {text : List Char} {m : Match} (hm : m ∈ finditer CITATION text) :
    ∃ u w rest, text = u ++ (w ++ rest) ∧ CITATION.Lang w ∧ m.start = u.length ∧
      m.stop = u.length + w.length ∧ citedNumber m = numberOf w := by
  obtain ⟨u, rest, t, rfl, ht, hstart, hstop, hg⟩ := match_at citation_not_nil rfl hm
  obtain ⟨a, d, b, m', ha, hd, hlen, hb, hsplit, hgroups, ht'⟩ := @mem_citation_ends [] _ _ ht
  obtain rfl : t = m' := List.mem_singleton.1 ht'
  have hrest : rest = '[' :: (a ++ (d ++ (b ++ [']']))) ++ t.after := by
    rw [show rest = _ from hsplit]
    simp
  refine ⟨u, _, t.after, by rw [← hrest], citation_lang.2 ⟨a, d, b, ha, hd, hb, hlen.1, hlen.2, rfl⟩,
    by rw [hstart, Nat.zero_add], ?_, ?_⟩
  · rw [hrest, List.length_append, List.length_append] at hstop
    omega
  · rw [numberOf_citation ha hd hb, citedNumber, Match.group, hg, hgroups]
    rfl

/-- Every citation of a text is found by the scan for citations. -/
theorem citation_found {text u w rest : List Char} (htext : text = u ++ (w ++ rest))
    (hw : CITATION.Lang w) : ∃ m ∈ finditer CITATION text, citedNumber m = numberOf w := by
  have hne : CITATION.ends ⟨u.reverse, w ++ rest, []⟩ ≠ [] :=
    (ends_ne_nil_iff citation_plain).2 ⟨w, hw, List.prefix_append w rest⟩
  obtain ⟨m, hm, hstart, hstop⟩ := covered_of_ends citation_not_nil htext hne
  obtain ⟨u', w', rest', htext', hw', hstart', hstop', hnumber⟩ := mem_finditer_citation hm
  -- the match that covers the bracket of `w` starts with it
  have hcut : ∃ v, u = u' ++ v := by
    have h₁ : u' <+: u ++ (w ++ rest) := ⟨w' ++ rest', by rw [← htext', htext]⟩
    obtain ⟨v, hv⟩ := List.prefix_of_prefix_length_le h₁ (List.prefix_append u _) (by omega)
    exact ⟨v, hv.symm⟩
  obtain ⟨v, rfl⟩ := hcut
  have hshift : w' ++ rest' = v ++ (w ++ rest) := by
    rw [htext, List.append_assoc] at htext'
    exact (List.append_cancel_left htext').symm
  cases v with
  | nil =>
    obtain ⟨rfl, -⟩ := citation_unique hw' hw hshift
    exact ⟨m, hm, hnumber⟩
  | cons e v =>
    exfalso
    obtain ⟨t', rfl, ht'⟩ := citation_closes hw'
    obtain ⟨t, rfl, -⟩ := citation_closes hw
    rw [List.length_append, List.length_cons] at hstart hstop
    have hlt : v.length < (t' ++ [']']).length := by
      rw [List.length_cons] at hstop'
      omega
    have hat : (t' ++ [']'] ++ rest')[v.length]? = some '[' := by
      rw [show t' ++ [']'] ++ rest' = v ++ ('[' :: (t ++ [']']) ++ rest) by simpa using (List.cons.inj hshift).2,
        List.getElem?_append_right (le_refl _), Nat.sub_self]
      rfl
    rw [List.getElem?_append_left hlt] at hat
    rcases List.mem_append.1 (List.mem_of_getElem? hat) with hmem | hmem
    · exact (ht' _ hmem).1 rfl
    · exact absurd hmem (by decide)

/-- A match of the scan for quotes: the citation it starts with, and the quote. -/
theorem mem_finditer_citedQuote {text : List Char} {m : Match} (hm : m ∈ finditer CITED_QUOTE text) :
    ∃ u w x z, text = u ++ (w ++ (x ++ '"' :: (m.group 2 ++ '"' :: z))) ∧ CITATION.Lang w ∧
      m.start = u.length ∧ citedNumber m = numberOf w ∧ x.length ≤ 40 ∧ '"' ∉ x ∧ '"' ∉ m.group 2 := by
  obtain ⟨u, rest, t, rfl, ht, hstart, -, hg⟩ := match_at citedQuote_not_nil rfl hm
  obtain ⟨a, d, b, x, y, ha, hd, hlen, hb, hx, hlen', hy, -, hsplit, hgroups⟩ := mem_citedQuote_ends ht
  have hquote : m.group 2 = y := by
    rw [Match.group, hg, hgroups]
    rfl
  have hnumber : citedNumber m = PyText.intOfDigits d := by
    rw [citedNumber, Match.group, hg, hgroups]
    rfl
  rw [hquote]
  refine ⟨u, '[' :: (a ++ (d ++ (b ++ [']']))), x, t.after, ?_,
    citation_lang.2 ⟨a, d, b, ha, hd, hb, hlen.1, hlen.2, rfl⟩, by rw [hstart, Nat.zero_add],
    by rw [hnumber, numberOf_citation ha hd hb], hlen', fun h => hx _ h rfl, fun h => hy _ h rfl⟩
  rw [show rest = _ from hsplit]
  simp

/-! ## Clean reports -/

variable {env : Env} {answer : List Char} {contexts : List Context}

theorem sortedSet_eq_nil {ns : List Nat} : sortedSet ns = [] ↔ ns = [] := by
  rw [sortedSet, ← List.length_eq_zero_iff, Table.orderBy, List.length_insertionSort, List.length_eq_zero_iff,
    List.dedup_eq_nil]

/-- In a clean report every citation is of a passage there is. -/
theorem CleanReport.inRange (h : CleanReport env answer contexts) {u w rest : List Char}
    (hcites : Cites answer u w rest) : OutputChecks.inRange contexts (numberOf w) = true := by
  obtain ⟨m, hm, hnumber⟩ := citation_found hcites.split hcites.citation
  by_contra hout
  have hne : sortedSet (((finditer CITATION (fold answer)).map citedNumber).filter
      fun n => !OutputChecks.inRange contexts n) ≠ [] := by
    rw [Ne, sortedSet_eq_nil]
    exact List.ne_nil_of_mem (List.mem_filter.2 ⟨List.mem_map.2 ⟨m, hm, hnumber⟩, by simpa using hout⟩)
  have hfinding : ∃ f ∈ checkAnswer env answer contexts, f.code = "citation_out_of_range" := by
    unfold checkAnswer
    simp only [List.mem_append]
    exact ⟨_, .inl (.inl (.inl (.inl (.inl (.inl (mem_report.2 ⟨hne, rfl⟩)))))), rfl⟩
  obtain ⟨f, hf, hcode⟩ := hfinding
  exact h f hf (hcode ▸ List.mem_cons_self)

/-- In a clean report every quote that was read is in the passage it cites. -/
theorem CleanReport.quoteFound (h : CleanReport env answer contexts) {m : Match}
    (hm : m ∈ finditer CITED_QUOTE (fold answer))
    (hrange : OutputChecks.inRange contexts (citedNumber m) = true) :
    OutputChecks.quoteFound env contexts m = true := by
  have hnil := (unsupported_iff env answer contexts).1 fun f hf hcode => h f hf (by rw [hcode]; decide)
  rw [unsupported, List.map_eq_nil_iff, List.filter_eq_nil_iff] at hnil
  simpa [hrange] using hnil m hm

/-- The citation a quote was read from, in a clean report, when the quote is not blank. -/
theorem CleanReport.verified_of_read (h : CleanReport env answer contexts) {m : Match}
    (hm : m ∈ finditer CITED_QUOTE (fold answer)) (hblank : ∃ e ∈ m.group 2, PyText.isSpace e = false)
    {u w rest : List Char} (hcites : Cites answer u w rest) (hstart : m.start = u.length) :
    CitationVerified env contexts (numberOf w) rest := by
  obtain ⟨u', w', x, z, hsplit, hw', hstart', hnumber, hlen, hx, hy⟩ := mem_finditer_citedQuote hm
  obtain ⟨rfl, heq⟩ := List.append_inj (hcites.split.symm.trans hsplit) (by omega)
  obtain ⟨rfl, rfl⟩ := citation_unique hcites.citation hw' heq
  have hrange := h.inRange hcites
  have hfound := h.quoteFound hm (hnumber ▸ hrange)
  rw [OutputChecks.inRange, Bool.and_eq_true, decide_eq_true_eq, decide_eq_true_eq] at hrange
  have hlt : numberOf w - 1 < contexts.length := by omega
  refine ⟨hrange.1, contexts[numberOf w - 1], List.getElem?_eq_getElem hlt, x, m.group 2, z, rfl, hlen, hx, hy,
    hblank, ?_⟩
  rw [OutputChecks.quoteFound, hnumber, List.getD_eq_getElem?_getD, List.getElem?_map,
    List.getElem?_eq_getElem hlt] at hfound
  exact hfound

/-- Two quotes that start within reach of one citation are the same. -/
theorem quote_unique {x y z x' y' z' : List Char} (hx : '"' ∉ x) (hy : '"' ∉ y) (hx' : '"' ∉ x') (hy' : '"' ∉ y')
    (h : x ++ '"' :: (y ++ '"' :: z) = x' ++ '"' :: (y' ++ '"' :: z')) : y = y' := by
  have hclass : ∀ l : List Char, '"' ∉ l → ∀ c ∈ l, (c != '"') = true := fun l hl c hc => by
    simpa using fun he : c = '"' => hl (he ▸ hc)
  obtain ⟨-, hrest⟩ := @span_unique (· != '"') x _ x' _ h (hclass x hx) (hclass x' hx') (by simp) (by simp)
  exact (@span_unique (· != '"') y _ y' _ (List.cons.inj hrest).2 (hclass y hy) (hclass y' hy') (by simp)
    (by simp)).1

/-- A clean report verifies every citation iff no quote is blank and the citations that the check passes
over happen to be verified. -/
theorem clean_report_iff (env : Env) (answer : List Char) (contexts : List Context)
    (hclean : CleanReport env answer contexts) :
    AllVerified env answer contexts ↔ ChecksCover env answer contexts := by
  constructor
  · intro hall
    refine ⟨fun u w rest hcites _ => hall u w rest hcites, fun m hm => ?_⟩
    obtain ⟨u, w, x, z, hsplit, hw, -, -, -, hx, hy⟩ := mem_finditer_citedQuote hm
    obtain ⟨-, c, -, x', y', z', hrest, -, hx', hy', hblank, -⟩ := hall u w _ ⟨hsplit, hw⟩
    rwa [quote_unique hx hy hx' hy' hrest]
  · intro hcover u w rest hcites
    by_cases hpassed : PassedOver answer u
    · exact hcover.passedOver u w rest hcites hpassed
    · simp only [PassedOver, not_forall, not_not] at hpassed
      obtain ⟨m, hm, hstart⟩ := hpassed
      exact hclean.verified_of_read hm (hcover.notBlank m hm) hcites hstart

/-- A passage, and an answer that quotes it once and cites it twice. -/
def refundContext : Context := ⟨0, 0, "Refunds take five days.", "refunds.md", 0⟩

def citedTwice : List Char := "[1] \"five days\", and at once [1].".toList

/-- The second citation has no quote, and the report is clean. -/
theorem cited_twice_is_clean : CleanReport (asciiEnv id) citedTwice [refundContext] ∧
    ¬ AllVerified (asciiEnv id) citedTwice [refundContext] := by
  refine ⟨?_, fun hall => ?_⟩
  · have hnone : checkAnswer (asciiEnv id) citedTwice [refundContext] = [] := by decide +kernel
    intro f hf
    rw [hnone] at hf
    cases hf
  · have hlang : CITATION.Lang "[1]".toList := by
      refine citation_lang.2 ⟨[], ['1'], [], by simp, fun c hc => ?_, by simp, by simp, by simp, by simp⟩
      rw [List.mem_singleton.1 hc]
      decide
    obtain ⟨-, c, -, x, y, z, hrest, -⟩ := hall "[1] \"five days\", and at once ".toList "[1]".toList
      ".".toList ⟨by decide, hlang⟩
    have hquote : '"' ∈ ".".toList := by
      rw [hrest]
      simp
    exact absurd hquote (by decide)

/-- The equivalence at an answer with one citation and its quote. -/
theorem clean_report_of_one_quote :
    CleanReport (asciiEnv id) "[1] \"five days\".".toList [refundContext] ∧
    (AllVerified (asciiEnv id) "[1] \"five days\".".toList [refundContext] ↔
      ChecksCover (asciiEnv id) "[1] \"five days\".".toList [refundContext]) := by
  have hclean : CleanReport (asciiEnv id) "[1] \"five days\".".toList [refundContext] := by
    have hnone : checkAnswer (asciiEnv id) "[1] \"five days\".".toList [refundContext] = [] := by
      decide +kernel
    intro f hf
    rw [hnone] at hf
    cases hf
  exact ⟨hclean, clean_report_iff (asciiEnv id) _ _ hclean⟩

end KnowledgeDesk.Proofs
