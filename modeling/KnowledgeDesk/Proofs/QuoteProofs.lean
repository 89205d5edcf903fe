import KnowledgeDesk.Lib.Words
import KnowledgeDesk.OutputChecks
import KnowledgeDesk.Proofs.PromptProofs

/-!
# Proofs: the check of a cited quote

The check looks for a cited quote in the passage as stored, in a form in which lookalikes, case and white
space make no difference. A part of a text is still a part of it in that form.
-/

namespace KnowledgeDesk.Proofs

open Regex Normalize Providers OutputChecks

/-- An answer that cites the `i`-th passage and quotes `q` from it. -/
def quoting (i : Nat) (q : List Char) : List Char := label i ++ ' ' :: '"' :: (q ++ ['"'])

theorem fold_quoting (i : Nat) (q : List Char) : fold (quoting i q) = quoting i (fold q) := by
  have hmid : fold [' ', '"'] = [' ', '"'] := fold_ascii (by simp)
  have hlast : fold ['"'] = ['"'] := fold_ascii (by simp)
  have hsplit : ∀ q, quoting i q = label i ++ ([' ', '"'] ++ (q ++ ['"'])) := fun q => rfl
  rw [hsplit, hsplit, fold_append, fold_append, fold_append, fold_ascii (label_ascii i), hmid, hlast]

theorem folded_foldChar (c : Char) (h : isInvisible c = false) : Folded (foldChar c) := by
  by_cases hc : LOOKALIKES.lookup c = none
  · have hself : foldChar c = c := by rw [foldChar, hc]; rfl
    rw [hself]
    exact ⟨h, hself⟩
  · obtain ⟨d, hd⟩ := Option.ne_none_iff_exists'.1 hc
    have hascii : LOOKALIKES.all (fun p => decide (p.2.toNat < 128)) = true := by decide
    exact folded_of_ascii (foldChar_of_lookup (P := fun d => d.toNat < 128) hascii hd)

/-- Folding a folded text changes nothing. -/
theorem fold_fold (q : List Char) : fold (fold q) = fold q := by
  refine fold_of_folded fun c hc => ?_
  rw [fold_eq, List.mem_map] at hc
  obtain ⟨d, hd, rfl⟩ := hc
  exact folded_foldChar d (by simpa using (List.mem_filter.1 hd).2)

/-- The parts that the pattern for cited quotes cuts its text into: the digits and the quote are those of
its two groups. -/
structure CitedParts (w d y : List Char) : Prop where
  digits : ∀ c ∈ d, PyText.isDigit c = true
  number : 1 ≤ d.length ∧ d.length ≤ 3
  quote : ∀ c ∈ y, c ≠ '"'
  parts : ∃ a b x, (∀ c ∈ a, PyText.isSpace c = true) ∧ (∀ c ∈ b, PyText.isSpace c = true) ∧
    (∀ c ∈ x, c ≠ '"') ∧ w = '[' :: (a ++ (d ++ (b ++ (']' :: (x ++ ('"' :: (y ++ ['"'])))))))

theorem citedQuote_plain : CITED_QUOTE.Plain := by
  exact ⟨trivial, char_plain _, char_plain _, char_plain _, trivial, char_plain _, trivial, char_plain _, trivial⟩

theorem citedQuote_not_nil : ¬ CITED_QUOTE.Lang [] := not_lang_nil_of_char

/-- What the matcher reads with a citation before other parts of a pattern. -/
theorem mem_citation_ends {rs : List Re} {s t : State}
    (h : t ∈ (seqs ([.char (· == '['), star space, .cap 1 (between 1 3 digit), star space,
      .char (· == ']')] ++ rs)).ends s) :
    ∃ a d b m, (∀ c ∈ a, PyText.isSpace c = true) ∧ (∀ c ∈ d, PyText.isDigit c = true) ∧
      (1 ≤ d.length ∧ d.length ≤ 3) ∧ (∀ c ∈ b, PyText.isSpace c = true) ∧
      s.after = '[' :: (a ++ (d ++ (b ++ (']' :: m.after)))) ∧ m.groups = (1, d) :: s.groups ∧
      t ∈ (seqs rs).ends m := by
  obtain ⟨s₁, h₁, h⟩ := mem_ends_seqs_cons.1 h
  obtain ⟨s₂, h₂, h⟩ := mem_ends_seqs_cons.1 h
  obtain ⟨s₃, h₃, h⟩ := mem_ends_seqs_cons.1 h
  obtain ⟨s₄, h₄, h⟩ := mem_ends_seqs_cons.1 h
  obtain ⟨s₅, h₅, h⟩ := mem_ends_seqs_cons.1 h
  obtain ⟨w₁, ⟨e₁, he₁, rfl⟩, ha₁, hg₁⟩ := mem_ends_noCap h₁ trivial
  obtain ⟨a, ha, ha₂, hg₂⟩ := mem_ends_noCap h₂ trivial
  obtain ⟨d, hd, ha₃, hg₃⟩ := mem_ends_cap h₃ trivial
  obtain ⟨b, hb, ha₄, hg₄⟩ := mem_ends_noCap h₄ trivial
  obtain ⟨w₅, ⟨e₅, he₅, rfl⟩, ha₅, hg₅⟩ := mem_ends_noCap h₅ trivial
  obtain rfl : e₁ = '[' := by simpa using he₁
  obtain rfl : e₅ = ']' := by simpa using he₅
  obtain ⟨hdigits, hlo, hhi⟩ := lang_rep_char.1 hd
  refine ⟨a, d, b, s₅, lang_star_char.1 ha, hdigits, ⟨hlo, hhi 3 rfl⟩, lang_star_char.1 hb, ?_, ?_, h⟩
  · rw [ha₁, ha₂, ha₃, ha₄, ha₅]
    simp only [List.cons_append, List.nil_append]
  · rw [hg₅, hg₄, hg₃, hg₂, hg₁]

/-- What the matcher reads with the pattern, and what its groups hold then. -/
theorem mem_citedQuote_ends {s t : State} (h : t ∈ CITED_QUOTE.ends s) :
    ∃ a d b x y, (∀ c ∈ a, PyText.isSpace c = true) ∧ (∀ c ∈ d, PyText.isDigit c = true) ∧
      (1 ≤ d.length ∧ d.length ≤ 3) ∧ (∀ c ∈ b, PyText.isSpace c = true) ∧
      (∀ c ∈ x, c ≠ '"') ∧ x.length ≤ 40 ∧ (∀ c ∈ y, c ≠ '"') ∧ (1 ≤ y.length ∧ y.length ≤ 300) ∧
      s.after = '[' :: (a ++ (d ++ (b ++ (']' :: (x ++ ('"' :: (y ++ ('"' :: t.after)))))))) ∧
      t.groups = (2, y) :: (1, d) :: s.groups := by
  obtain ⟨a, d, b, s₅, ha, hd, hlen, hb, hsplit, hg₅, h⟩ := mem_citation_ends h
  obtain ⟨s₆, h₆, h⟩ := mem_ends_seqs_cons.1 h
  obtain ⟨s₇, h₇, h⟩ := mem_ends_seqs_cons.1 h
  obtain ⟨s₈, h₈, h₉⟩ := mem_ends_seqs_cons.1 h
  obtain ⟨x, hx, ha₆, hg₆⟩ := mem_ends_noCap h₆ trivial
  obtain ⟨w₇, ⟨e₇, he₇, rfl⟩, ha₇, hg₇⟩ := mem_ends_noCap h₇ trivial
  obtain ⟨y, hy, ha₈, hg₈⟩ := mem_ends_cap h₈ trivial
  obtain ⟨w₉, ⟨e₉, he₉, rfl⟩, ha₉, hg₉⟩ := mem_ends_noCap (r := .char (· == '"')) h₉ trivial
  obtain rfl : e₇ = '"' := by simpa using he₇
  obtain rfl : e₉ = '"' := by simpa using he₉
  obtain ⟨hgap, -, hgaplen⟩ := lang_rep_char.1 hx
  obtain ⟨hquote, hlo, hhi⟩ := lang_rep_char.1 hy
  refine ⟨a, d, b, x, y, ha, hd, hlen, hb, fun c hc => by simpa using hgap c hc, hgaplen 40 rfl,
    fun c hc => by simpa using hquote c hc, ⟨hlo, hhi 300 rfl⟩, ?_, ?_⟩
  · rw [hsplit, ha₆, ha₇, ha₈, ha₉]
    simp only [List.cons_append, List.nil_append]
  · rw [hg₉, hg₈, hg₇, hg₆, hg₅]

theorem mem_citedQuote {s t : State} (h : t ∈ CITED_QUOTE.ends s) : ∃ w d y, CitedParts w d y ∧
    s.after = w ++ t.after ∧ t.groups = (2, y) :: (1, d) :: s.groups := by
  obtain ⟨a, d, b, x, y, ha, hd, hlen, hb, hx, -, hy, -, hsplit, hg⟩ := mem_citedQuote_ends h
  refine ⟨_, d, y, ⟨hd, hlen, hy, a, b, x, ha, hb, hx, rfl⟩, ?_, hg⟩
  rw [hsplit]
  simp only [List.append_assoc, List.cons_append, List.nil_append]

/-- In an answer that cites one passage and quotes `q` from it, the only place to match is the whole. -/
theorem citedParts_quoting {i : Nat} {q u w d y rest : List Char} (hq : '"' ∉ q) (h : CitedParts w d y)
    (hsplit : quoting i q = u ++ (w ++ rest)) :
    u = [] ∧ d = (toString (i + 1)).toList ∧ y = q ∧ rest = [] := by
  obtain ⟨a, b, x, ha, hb, hx, rfl⟩ := h.parts
  have hdigits := fun c hc => PyText.isDigit_py (PyText.isDigit_toString (n := i + 1) (c := c) hc)
  -- the two quotation marks of the answer are those of the match
  have hlabel : ∀ c ∈ label i ++ [' '], (c != '"') = true := by
    intro c hc
    rw [label, List.mem_append, List.mem_append, List.mem_cons] at hc
    rcases hc with ((rfl | hc) | hc) | hc
    · decide
    · have := Char.isDigit_iff_toNat.1 (PyText.isDigit_toString hc)
      simp only [bne_iff_ne, ne_eq]
      rintro rfl
      exact absurd this (by decide)
    · rw [List.mem_singleton.1 hc]
      decide
    · rw [List.mem_singleton.1 hc]
      decide
  have hcount : '"' ∉ u := by
    intro hu
    have h₁ := congrArg (List.count '"') hsplit
    have hl : List.count '"' (label i) = 0 :=
      List.count_eq_zero.2 fun hm => absurd (hlabel '"' (List.mem_append_left _ hm)) (by decide)
    have hu' := List.count_pos_iff.2 hu
    simp only [quoting, List.count_append, List.count_cons, List.count_nil, hl,
      List.count_eq_zero.2 hq] at h₁
    simp at h₁
    omega
  have hmid : ∀ c ∈ u ++ ('[' :: (a ++ (d ++ (b ++ (']' :: x))))), (c != '"') = true := by
    intro c hc
    simp only [bne_iff_ne, ne_eq]
    rintro rfl
    simp only [List.mem_append, List.mem_cons] at hc
    rcases hc with hc | hc | hc | hc | hc | hc | hc
    · exact hcount hc
    · exact absurd hc (by decide)
    · exact absurd (ha _ hc) (by decide)
    · exact absurd (h.digits _ hc) (by decide)
    · exact absurd (hb _ hc) (by decide)
    · exact absurd hc (by decide)
    · exact hx _ hc rfl
  have hcut : (label i ++ [' ']) ++ ('"' :: (q ++ ['"'])) =
      (u ++ ('[' :: (a ++ (d ++ (b ++ (']' :: x)))))) ++ ('"' :: (y ++ ('"' :: rest))) := by
    rw [quoting] at hsplit
    simpa only [List.append_assoc, List.cons_append, List.nil_append] using hsplit
  obtain ⟨hleft, hright⟩ := span_unique hcut hlabel hmid (by simp) (by simp)
  obtain ⟨hy, hrest⟩ := @span_unique (· != '"') q ['"'] y ('"' :: rest)
    (List.cons.inj hright).2 (fun c hc => by simpa using fun he : c = '"' => hq (he ▸ hc))
    (fun c hc => by simpa using h.quote c hc) (by simp) (by simp)
  -- the bracket that opens the match is that of the label
  have hu : u = [] := by
    cases u with
    | nil => rfl
    | cons e u =>
      rw [label, List.cons_append, List.cons_append, List.cons_append] at hleft
      have hmem : '[' ∈ (toString (i + 1)).toList ++ [']'] ++ [' '] := by
        rw [(List.cons.inj hleft).2]
        simp
      simp only [List.mem_append, List.mem_singleton] at hmem
      rcases hmem with (hmem | hmem) | hmem
      · exact absurd (PyText.isDigit_toString hmem) (by decide)
      · exact absurd hmem (by decide)
      · exact absurd hmem (by decide)
  rw [hu, List.nil_append, label, List.cons_append, List.cons_append] at hleft
  have hnumber := (List.cons.inj hleft).2
  obtain ⟨f, ds, hds⟩ : ∃ f ds, d = f :: ds :=
    List.exists_cons_of_ne_nil fun h0 => absurd h.number.1 (by rw [h0]; simp)
  obtain ⟨g, gs, hgs⟩ : ∃ g gs, (toString (i + 1)).toList = g :: gs :=
    List.exists_cons_of_ne_nil (by rw [Nat.toString_eq_repr, Nat.toList_repr]; exact Nat.toDigits_ne_nil)
  have ha0 : a = [] := by
    refine (span_unique (p := PyText.isSpace) (u := []) (v := (toString (i + 1)).toList ++ [']'] ++ [' '])
      (by rw [List.nil_append]; exact hnumber) (by simp) ha ?_ ?_).1.symm
    · intro c hc
      rw [hgs] at hc
      have hcg : g = c := by simpa using hc
      exact (hdigits c (by rw [hgs, hcg]; simp)).2
    · intro c hc
      rw [hds] at hc
      have hcf : f = c := by simpa using hc
      exact PyText.isSpace_of_isDigit (h.digits c (by rw [hds, hcf]; simp))
  rw [ha0, List.nil_append, List.append_assoc] at hnumber
  have hd := (span_unique (p := PyText.isDigit) hnumber (fun c hc => (hdigits c hc).1) h.digits
    (by simp; decide) ?_).1
  · exact ⟨hu, hd.symm, hy.symm, ((List.cons.inj hrest).2).symm⟩
  · intro c hc
    cases b with
    | nil =>
      have hcb : ']' = c := by simpa using hc
      rw [← hcb]
      decide
    | cons e b =>
      have hce : e = c := by simpa using hc
      rw [← hce]
      by_contra hdig
      have := PyText.isSpace_of_isDigit (c := e) (by simpa using hdig)
      rw [hb e List.mem_cons_self] at this
      exact absurd this (by decide)

/-- The pattern finds the whole of such an answer, or nothing when the label is too long. -/
theorem finditer_quoting {i : Nat} {q : List Char} (hlen : 1 ≤ q.length ∧ q.length ≤ 300) (hq : '"' ∉ q) :
    finditer CITED_QUOTE (quoting i q) = if i + 1 < 1000 then
      [⟨0, (quoting i q).length, [(2, q), (1, (toString (i + 1)).toList)]⟩] else [] := by
  have hdigits := fun c hc => PyText.isDigit_py (PyText.isDigit_toString (n := i + 1) (c := c) hc)
  have hnumber : (toString (i + 1)).toList.length ≤ 3 ↔ i + 1 < 1000 := by
    rw [Nat.toString_eq_repr, Nat.toList_repr]
    exact Nat.length_toDigits_le_iff (by decide) (by decide)
  split
  · rename_i hi
    have hlang : CITED_QUOTE.Lang (quoting i q) := by
      have hsplit : quoting i q = ['['] ++ ([] ++ ((toString (i + 1)).toList ++ ([] ++ ([']'] ++
          ([' '] ++ (['"'] ++ (q ++ ['"']))))))) := by
        rw [quoting, label]
        simp
      have hne : 1 ≤ (toString (i + 1)).toList.length := by
        rw [Nat.toString_eq_repr, Nat.toList_repr]
        exact Nat.length_toDigits_pos
      have hnum : (between 1 3 digit).Lang (toString (i + 1)).toList :=
        lang_rep_char.2 ⟨fun c hc => (hdigits c hc).1, hne,
          fun n hn => by rw [← Option.some.inj hn]; exact hnumber.2 hi⟩
      have hquote : (Re.rep (.char (· != '"')) 1 (some 300) false).Lang q :=
        lang_rep_char.2 ⟨fun c hc => by simpa using fun he : c = '"' => hq (he ▸ hc), hlen.1,
          fun n hn => by rw [← Option.some.inj hn]; exact hlen.2⟩
      rw [hsplit]
      refine lang_seqs_cons.2 ⟨_, _, ⟨'[', rfl, rfl⟩, ?_, rfl⟩
      refine lang_seqs_cons.2 ⟨_, _, lang_star_char.2 (by simp), ?_, rfl⟩
      refine lang_seqs_cons.2 ⟨_, _, hnum, ?_, rfl⟩
      refine lang_seqs_cons.2 ⟨_, _, lang_star_char.2 (by simp), ?_, rfl⟩
      refine lang_seqs_cons.2 ⟨_, _, ⟨']', rfl, rfl⟩, ?_, rfl⟩
      refine lang_seqs_cons.2 ⟨_, _, lang_rep_char.2 ⟨by simp, by simp, by simp⟩, ?_, rfl⟩
      refine lang_seqs_cons.2 ⟨_, _, ⟨'"', rfl, rfl⟩, ?_, rfl⟩
      exact lang_seqs_cons.2 ⟨_, _, hquote, ⟨'"', rfl, rfl⟩, rfl⟩
    obtain ⟨t, ht⟩ : ∃ t, (CITED_QUOTE.ends ⟨[], quoting i q, []⟩).head? = some t := by
      have hne := (ends_ne_nil_iff citedQuote_plain (s := ⟨[], quoting i q, []⟩)).2
        ⟨_, hlang, List.prefix_refl _⟩
      obtain ⟨t, ts, hts⟩ := List.exists_cons_of_ne_nil hne
      exact ⟨t, by rw [hts]; rfl⟩
    obtain ⟨w, d, y, hparts, hafter, hgroups⟩ := mem_citedQuote (List.mem_of_head? ht)
    obtain ⟨-, hd, hy, hrest⟩ := citedParts_quoting hq hparts (u := []) hafter
    obtain ⟨w', -, hreads⟩ := ends_sound (List.mem_of_head? ht)
    have hbefore : t.before = (quoting i q).reverse := by
      have hw' : quoting i q = w' := by
        have := hreads.1
        rw [hrest, List.append_nil] at this
        exact this
      rw [hreads.2, hw', List.append_nil]
    have hhead : (CITED_QUOTE.ends ⟨[], quoting i q ++ [], []⟩).head? =
        some ⟨(quoting i q).reverse ++ [], [], [(2, q), (1, (toString (i + 1)).toList)]⟩ := by
      rw [List.append_nil, List.append_nil, ht, ← hbefore, ← hrest, ← hd, ← hy, ← hgroups]
    have hne : quoting i q ≠ [] := by simp [quoting]
    have hscan := @matchesFrom_match _ 0 _ _ _ _ hne hhead
    rw [matchesFrom_nil citedQuote_not_nil, List.append_nil, Nat.zero_add] at hscan
    exact hscan
  · rename_i hi
    rw [List.eq_nil_iff_forall_not_mem]
    intro m hm
    obtain ⟨u, w, rest, hsplit, hw, -⟩ := match_sound citedQuote_not_nil hm
    obtain ⟨t, ht, hta⟩ := ends_complete citedQuote_plain (s := ⟨[], w ++ rest, []⟩) hw rfl
    obtain ⟨v, d, y, hparts, hafter, -⟩ := mem_citedQuote ht
    rw [hta] at hafter
    have hvw : v = w := (List.append_cancel_right hafter).symm
    obtain ⟨-, hd, -, -⟩ := citedParts_quoting hq hparts (hvw ▸ hsplit)
    exact hi (hnumber.1 (hd ▸ hparts.number.2))

theorem report_code_ne {α : Type} {code code' : String} {found : List α} {detail : List α → String}
    (h : code ≠ code') {f : Finding} (hf : f ∈ report code found detail) : f.code ≠ code' := by
  rw [report] at hf
  split at hf
  · exact absurd hf List.not_mem_nil
  · rw [List.mem_singleton.1 hf]
    exact h

theorem mem_report {α : Type} {code : String} {found : List α} {detail : List α → String} {f : Finding} :
    f ∈ report code found detail ↔ found ≠ [] ∧ f = ⟨code, detail found⟩ := by
  rw [report]
  cases found <;> simp

/-- The finding about quotes is there iff some quote was not found. -/
theorem unsupported_iff (env : Env) (answer : List Char) (contexts : List Context) :
    (∀ f ∈ checkAnswer env answer contexts, f.code ≠ "citation_unsupported") ↔
      unsupported env (fold answer) contexts = [] := by
  unfold checkAnswer
  simp only [List.mem_append]
  constructor
  · intro h
    by_contra hne
    exact h _ (.inl (.inl (.inl (.inl (.inl (.inr (mem_report.2 ⟨hne, rfl⟩))))))) rfl
  · rintro h f ((((((hf | hf) | hf) | hf) | hf) | hf) | hf)
    · exact report_code_ne (by decide) hf
    · exact absurd h (mem_report.1 hf).1
    · exact report_code_ne (by decide) hf
    · exact report_code_ne (by decide) hf
    · exact report_code_ne (by decide) hf
    · exact report_code_ne (by decide) hf
    · exact report_code_ne (by decide) hf

theorem comparable_fold (env : Env) (q : List Char) : comparable env (fold q) = comparable env q := by
  rw [comparable, comparable, fold_fold]

/-- The one quote of such an answer is supported iff its label is not read, or the stored text has it. -/
theorem unsupported_quoting (env : Env) {contexts : List Context} {i : Nat} {c : Context}
    (hc : contexts[i]? = some c) {q : List Char} (hlen : 1 ≤ (fold q).length ∧ (fold q).length ≤ 300)
    (hq : '"' ∉ fold q) :
    unsupported env (fold (quoting i q)) contexts = [] ↔ 1000 ≤ i + 1 ∨
      PyText.contains (comparable env c.text.toList).toList (comparable env q).toList = true := by
  obtain ⟨hi, -⟩ := List.getElem?_eq_some_iff.1 hc
  rw [unsupported, fold_quoting, finditer_quoting hlen hq]
  by_cases hshort : i + 1 < 1000
  · generalize hm : (⟨0, (quoting i (fold q)).length,
      [(2, fold q), (1, (toString (i + 1)).toList)]⟩ : Match) = m
    have hnumber : citedNumber m = i + 1 := by
      rw [← hm, citedNumber]
      exact PyText.intOfDigits_toString (i + 1)
    have hquoted : m.group 2 = fold q := by
      rw [← hm]
      rfl
    have hrange : inRange contexts (citedNumber m) = true := by
      rw [hnumber, inRange]
      simp only [Bool.and_eq_true, decide_eq_true_eq]
      omega
    have hpassage : (contexts.map fun c => comparable env c.text.toList).getD (citedNumber m - 1) "" =
        comparable env c.text.toList := by
      rw [hnumber, Nat.add_sub_cancel, List.getD_eq_getElem?_getD, List.getElem?_map, hc]
      rfl
    have hfound : quoteFound env contexts m =
        PyText.contains (comparable env c.text.toList).toList (comparable env q).toList := by
      rw [quoteFound, hpassage, hquoted, comparable_fold]
    rw [if_pos hshort, List.map_eq_nil_iff, List.filter_cons, hrange, hfound]
    constructor
    · intro h
      refine .inr ?_
      by_contra hno
      rw [if_pos (by simpa using hno)] at h
      exact absurd h (by simp)
    · rintro (h | h)
      · omega
      · rw [if_neg (by simp [h])]
        rfl
  · rw [if_neg hshort]
    exact ⟨fun _ => .inl (by omega), fun _ => rfl⟩

/-- An answer that quotes a passage is not reported as unsupported iff the check does not read its label,
or finds the quote, in compared form, in the text as stored. -/
theorem quote_stands_iff (env : Env) {contexts : List Context} {i : Nat} {c : Context}
    (hc : contexts[i]? = some c) {q : List Char} (hlen : 1 ≤ (fold q).length ∧ (fold q).length ≤ 300)
    (hq : '"' ∉ fold q) :
    (∀ f ∈ checkAnswer env (quoting i q) contexts, f.code ≠ "citation_unsupported") ↔
      1000 ≤ i + 1 ∨ (comparable env q).toList <:+: (comparable env c.text.toList).toList := by
  rw [unsupported_iff env _ contexts, unsupported_quoting env hc hlen hq, PyText.contains_iff]

/-! ## What is compared -/

/-- Case folding, a character at a time, keeps what stands in a text in it. -/
theorem casefold_infix {env : Env} (hcase : ∀ s t, env.casefold (s ++ t) = env.casefold s ++ env.casefold t)
    {q text : List Char} (h : q <:+: text) :
    (env.casefold (.ofList q)).toList <:+: (env.casefold (.ofList text)).toList := by
  obtain ⟨u, v, rfl⟩ := h
  rw [String.ofList_append, String.ofList_append, hcase, hcase, String.toList_append, String.toList_append]
  exact ⟨_, _, rfl⟩

/-- A part of a text is, in compared form, a part of it still. -/
theorem comparable_isPart {env : Env}
    (hcase : ∀ s t, env.casefold (s ++ t) = env.casefold s ++ env.casefold t) {q text : List Char}
    (h : q <:+: text) : (comparable env q).toList <:+: (comparable env text).toList := by
  obtain ⟨u, v, rfl⟩ := h
  refine casefold_infix hcase ?_
  rw [List.append_assoc, fold_append, fold_append]
  exact PyText.collapse_infix

theorem asciiEnv_casefold (s t : String) :
    (asciiEnv id).casefold (s ++ t) = (asciiEnv id).casefold s ++ (asciiEnv id).casefold t := by
  have hlower : ∀ s, (asciiEnv id).casefold s = s.map Char.toLower := fun _ => rfl
  rw [← String.toList_inj, hlower, hlower, hlower]
  simp

end KnowledgeDesk.Proofs
