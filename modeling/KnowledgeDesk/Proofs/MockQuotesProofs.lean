import KnowledgeDesk.Proofs.MockProofs

/-!
# Proofs: the quotes of the keyless provider's answer

Which quotes the checks read in the answer, and that a quote out of the quoted words stands in the
passage. With that, the checks find nothing iff the path and the quoted words are such that every
citation has a quote that its passage bears out, and that no other pattern is in the answer.
-/

namespace KnowledgeDesk.Proofs

open Regex Normalize Providers OutputChecks

/-! ## The quotes that are read -/

/-- The part of the answer that comes from the passage, cut at its quotation marks. -/
def sentencePieces (c : Context) : List (List Char) := (sentence c).splitOn '"'

theorem not_mem_splitOn {text piece : List Char} {c : Char} (h : piece ∈ text.splitOn c) : c ∉ piece := by
  induction text generalizing piece with
  | nil =>
    rw [List.splitOn_nil, List.mem_singleton] at h
    rw [h]
    exact List.not_mem_nil
  | cons d text ih =>
    rw [List.splitOn_cons_eq_if_modifyHead] at h
    split at h
    · rcases List.mem_cons.1 h with rfl | h
      · exact List.not_mem_nil
      · exact ih h
    · rename_i hd
      obtain ⟨p, ps, hps⟩ := List.exists_cons_of_ne_nil (List.splitOn_ne_nil c text)
      rw [hps, List.modifyHead_cons] at h
      rcases List.mem_cons.1 h with rfl | h
      · intro hm
        rcases List.mem_cons.1 hm with rfl | hm
        · exact hd (by simp)
        · exact ih (hps ▸ List.mem_cons_self) hm
      · exact ih (hps ▸ List.mem_cons_of_mem p h)

theorem quotedPieces_append {a piece : List Char} {pieces : List (List Char)}
    (h : reaching (a ++ piece) = reaching piece) :
    quotedPieces ((a ++ piece) :: pieces) = quotedPieces (piece :: pieces) := by
  cases pieces with
  | nil => rfl
  | cons quote pieces =>
    cases pieces with
    | nil => rfl
    | cons next pieces => rw [quotedPieces, quotedPieces, h]

theorem preamble_no_quote (n : Nat) : '"' ∉ preamble n := by
  intro hm
  simp only [preamble, List.mem_append] at hm
  rcases hm with hm | hm | hm
  · exact absurd hm (by decide)
  · exact absurd (PyText.isDigit_toString hm) (by decide)
  · exact absurd hm (by decide)

/-- The quotes that the checks read in the answer. -/
theorem quotes_answer (n : Nat) (c : Context) :
    (finditer CITED_QUOTE (preamble n ++ sentence c)).map (fun m => (citedNumber m, m.group 2)) =
      quotedPieces (sentencePieces c) := by
  obtain ⟨piece, pieces, hpieces⟩ := List.exists_cons_of_ne_nil (List.splitOn_ne_nil '"' (sentence c))
  have hnot : ∀ p ∈ piece :: pieces, '"' ∉ p := fun p hp => not_mem_splitOn (hpieces ▸ hp)
  have hjoin : preamble n ++ sentence c = ['"'].intercalate ((preamble n ++ piece) :: pieces) := by
    have hsentence : ['"'].intercalate ((sentence c).splitOn '"') = sentence c := List.intercalate_splitOn '"'
    rw [hpieces] at hsentence
    rw [← hsentence]
    cases pieces with
    | nil => rw [List.intercalate_singleton, List.intercalate_singleton]
    | cons quote pieces =>
      rw [List.intercalate_cons_cons, List.intercalate_cons_cons, List.append_assoc, List.append_assoc,
        List.append_assoc]
  have hnot' : ∀ p ∈ (preamble n ++ piece) :: pieces, '"' ∉ p := by
    intro p hp
    rcases List.mem_cons.1 hp with rfl | hp
    · intro hm
      exact (List.mem_append.1 hm).elim (preamble_no_quote n) (hnot piece List.mem_cons_self)
    · exact hnot p (List.mem_cons_of_mem piece hp)
  have hreach : reaching (preamble n ++ piece) = reaching piece :=
    reaching_append fun u v w x hu hv hw => no_citation_in_preamble hu hv hw
  have hscan : (finditer CITED_QUOTE (['"'].intercalate ((preamble n ++ piece) :: pieces))).map
      (fun m => (citedNumber m, m.group 2)) = _ := matches_pieces hnot' 0 []
  rw [hjoin, hscan, quotedPieces_append hreach, sentencePieces, hpieces]

/-- The quote stands, in compared form, in the passage with this number. -/
def Stands (env : Env) (contexts : List Context) (kq : Nat × List Char) : Prop :=
  PyText.contains ((contexts.map fun c => comparable env c.text.toList).getD (kq.1 - 1) "").toList
    (comparable env kq.2).toList = true

theorem unsupported_eq_nil {env : Env} {folded : List Char} {contexts : List Context} :
    unsupported env folded contexts = [] ↔
      ∀ kq ∈ (finditer CITED_QUOTE folded).map (fun m => (citedNumber m, m.group 2)),
        inRange contexts kq.1 = true → Stands env contexts kq := by
  rw [unsupported, List.map_eq_nil_iff, List.filter_eq_nil_iff]
  simp only [List.forall_mem_map, Bool.and_eq_true, Bool.not_eq_true', not_and, Bool.not_eq_false]
  rfl

/-- What the checks find in the answer, in terms of the path and of the quoted words. -/
theorem checkAnswer_mockSaid (env : Env) (nonce : Nonce) (question : String) (c : Context) (cs : List Context) :
    checkAnswer env (mockSaid nonce question (c :: cs)) (c :: cs) = [] ↔
      (∀ k ∈ 1 :: (citedIn (shownPath c) ++ citedIn (evidence c)), inRange (c :: cs) k = true ∧
        ∃ q, (k, q) ∈ quotedPieces (sentencePieces c)) ∧
      (∀ kq ∈ quotedPieces (sentencePieces c), inRange (c :: cs) kq.1 = true → Stands env (c :: cs) kq) ∧
      markerShaped (shownPath c ++ ("): \"".toList ++ evidence c)) = false ∧
      (PyText.contains (shownPath c) SYSTEM_CANARY.toList = false ∧
        PyText.contains (evidence c) SYSTEM_CANARY.toList = false) ∧
      Regex.search bracketed (shownPath c ++ ("): \"".toList ++ (evidence c ++ "\". ".toList))) = false := by
  have hnumbers : ∀ k, k ∈ (finditer CITED_QUOTE (preamble (cs.length + 1) ++ sentence c)).map citedNumber ↔
      ∃ q, (k, q) ∈ quotedPieces (sentencePieces c) := by
    intro k
    rw [← quotes_answer (cs.length + 1)]
    simp only [List.mem_map, Prod.mk.injEq]
    exact ⟨fun ⟨m, hm, hk⟩ => ⟨m.group 2, m, hm, hk, rfl⟩, fun ⟨q, m, hm, hk, _⟩ => ⟨m, hm, hk⟩⟩
  have hcanary : ∀ n, PyText.contains (preamble n ++ sentence c) SYSTEM_CANARY.toList = false ↔
      PyText.contains (shownPath c) SYSTEM_CANARY.toList = false ∧
        PyText.contains (evidence c) SYSTEM_CANARY.toList = false := by
    intro n
    simp only [← Bool.not_eq_true]
    rw [canary_answer, not_or]
  rw [checkAnswer_eq_nil, fold_mockSaid, unsupported_eq_nil, quotes_answer, markerShaped_answer, hcanary,
    no_links_iff, links_answer]
  simp only [hnumbers, mem_citedIn_answer]

/-! ## The quoted words stand in the passage -/

theorem fold_filterMap (text : List Char) :
    fold text = text.filterMap fun c => if isInvisible c then none else some (foldChar c) := by
  rw [fold_eq]
  induction text with
  | nil => rfl
  | cons c text ih =>
    rw [List.filter_cons]
    by_cases hc : isInvisible c = true
    · simp [hc, ih]
    · simp [hc, ih]

theorem folded_of_space {c : Char} (h : PyText.isSpace c = true) : Folded c := by
  have hmem : c.toNat ∈ PyText.spaces := by simpa [PyText.isSpace] using h
  constructor
  · have hset : (INVISIBLE.all fun d => !PyText.spaces.contains d.toNat) = true := by decide
    have hcf : ∀ n ∈ PyText.spaces, PyText.formats.any (fun r => r.1 ≤ n && n ≤ r.2) = false := by decide
    rw [isInvisible, Bool.or_eq_false_iff]
    refine ⟨?_, hcf _ hmem⟩
    rw [List.contains_eq_mem, decide_eq_false_iff_not]
    intro hc
    simpa [hmem] using List.all_eq_true.1 hset c hc
  · have hkeys : LOOKALIKES.all (fun p => decide (PyText.isSpace p.1 = false)) = true := by decide
    have hno : ∀ p ∈ LOOKALIKES, p.1 ≠ c := fun p hp he => by
      have := of_decide_eq_true (List.all_eq_true.1 hkeys p hp)
      rw [he, h] at this
      cases this
    rw [foldChar, lookup_eq_none hno]
    rfl

theorem isSpace_foldChar {c : Char} (h : PyText.isSpace c = false) : PyText.isSpace (foldChar c) = false := by
  by_cases hc : LOOKALIKES.lookup c = none
  · rw [foldChar, hc]
    exact h
  · obtain ⟨d, hd⟩ := Option.ne_none_iff_exists'.1 hc
    have hvalues : LOOKALIKES.all (fun p => decide (PyText.isSpace p.2 = false)) = true := by decide
    exact foldChar_of_lookup (P := fun d => PyText.isSpace d = false) hvalues hd

/-- The words of a folded text are those of the text, folded, less the ones of which nothing is visible. -/
theorem split_fold (text : List Char) :
    PyText.split (fold text) = ((PyText.split text).map fold).filter (· ≠ []) := by
  have hfold : fold = List.filterMap fun c => if isInvisible c then none else some (foldChar c) :=
    funext fold_filterMap
  rw [hfold]
  refine PyText.split_filterMap (fun c hc => ?_) (fun c d hc hd => ?_) text
  · rw [if_neg (by simp [(folded_of_space hc).1]), (folded_of_space hc).2]
  · split at hd
    · cases hd
    · rw [← Option.some.inj hd]
      exact isSpace_foldChar hc

/-- What stands in the quoted words stands in the passage, once both are collapsed. -/
theorem collapse_evidence {c : Context} {q : List Char} (h : q <:+: evidence c) :
    PyText.collapse q <:+: PyText.collapse (fold c.text.toList) := by
  have hwords : PyText.collapse (evidence c) <+: PyText.collapse (fold c.text.toList) := by
    have hfirst : PyText.split (firstWords c) = (PyText.split c.text.toList).take 8 :=
      PyText.split_join fun w hw => PyText.areWords_split _ w (List.mem_of_mem_take hw)
    rw [PyText.collapse, PyText.collapse, evidence, split_fold, split_fold, hfirst]
    exact PyText.join_prefix (((List.take_prefix 8 _).map fold).filter _)
  obtain ⟨u, v, huv⟩ := h
  rw [List.append_assoc] at huv
  exact (huv ▸ PyText.collapse_infix).trans hwords.isInfix

theorem stands_of_evidence {env : Env}
    (hcase : ∀ s t, env.casefold (s ++ t) = env.casefold s ++ env.casefold t) {c : Context} {cs : List Context}
    {q : List Char} (h : q <:+: evidence c) : Stands env (c :: cs) (1, q) := by
  have hfold : fold q = q := by
    refine fold_of_folded fun d hd => ?_
    have hmem := h.subset hd
    rw [evidence, fold_eq, List.mem_map] at hmem
    obtain ⟨e, he, rfl⟩ := hmem
    exact folded_foldChar e (by simpa using (List.mem_filter.1 he).2)
  rw [Stands, PyText.contains_iff]
  simp only [List.map_cons, Nat.sub_self, List.getD_cons_zero]
  rw [comparable, comparable, hfold]
  exact casefold_infix hcase (collapse_evidence h)

/-! ## When the checks find nothing -/

/-- What the checks ask of the path and of the quoted words, as folding shows them. -/
structure MockVerifies (env : Env) (c : Context) (cs : List Context) : Prop where
  /-- Neither has a marker, the canary or a link, and none is made where they meet. -/
  noMarker : markerShaped (shownPath c ++ ("): \"".toList ++ evidence c)) = false
  noCanary : PyText.contains (shownPath c) SYSTEM_CANARY.toList = false ∧
    PyText.contains (evidence c) SYSTEM_CANARY.toList = false
  noLink : Regex.search bracketed (shownPath c ++ ("): \"".toList ++ (evidence c ++ "\". ".toList))) = false
  /-- The numbers cited in them are of passages. -/
  retrieved : ∀ k ∈ citedIn (shownPath c) ++ citedIn (evidence c), inRange (c :: cs) k = true
  /-- At the quotation marks of the sentence, every number has a quote. -/
  quoted : ∀ k ∈ 1 :: (citedIn (shownPath c) ++ citedIn (evidence c)), ∃ q,
    (k, q) ∈ quotedPieces (sentencePieces c)
  /-- A quote is out of the quoted words and for the first passage, or else its own passage has it. -/
  borneOut : ∀ k q, (k, q) ∈ quotedPieces (sentencePieces c) → inRange (c :: cs) k = true →
    (k = 1 ∧ q <:+: evidence c) ∨ Stands env (c :: cs) (k, q)

/-! ## Plain paths and passages -/

theorem reaching_no_bracket {piece : List Char} (h : '[' ∉ piece) : reaching piece = none := by
  by_contra hsome
  obtain ⟨n, hn⟩ := Option.ne_none_iff_exists'.1 hsome
  obtain ⟨u, y, rfl, hy, -⟩ := reaching_some hn
  obtain ⟨w, x, rfl, hw, -⟩ := reachesFrom_some.1 hy
  obtain ⟨d, v, rfl, -⟩ := citation_head hw
  exact h (by simp)

/-- The citation of a plain sentence reaches the quote iff the path is short. -/
theorem reaching_plain {path : List Char} (h : '[' ∉ path) :
    reaching ("[1] (".toList ++ (path ++ "): ".toList)) = if path.length ≤ 35 then some 1 else none := by
  have hlang : CITATION.Lang ['[', '1', ']'] :=
    citation_lang.2 ⟨[], ['1'], [], by simp, List.forall_mem_singleton.2 (by decide), by simp, by decide,
      by decide, rfl⟩
  have hsplit : "[1] (".toList ++ (path ++ "): ".toList) =
      ['[', '1', ']'] ++ (" (".toList ++ (path ++ "): ".toList)) := by
    simp
  have hlen : (" (".toList ++ (path ++ "): ".toList)).length = path.length + 5 := by
    simp only [List.length_append, String.length_toList]
    have h₁ : " (".length = 2 := by decide
    have h₂ : "): ".length = 3 := by decide
    omega
  have hrest : reaching ('1' :: ']' :: (" (".toList ++ (path ++ "): ".toList))) = none :=
    reaching_no_bracket (by simp [h])
  have hcons : ['[', '1', ']'] ++ (" (".toList ++ (path ++ "): ".toList)) =
      '[' :: '1' :: ']' :: (" (".toList ++ (path ++ "): ".toList)) := rfl
  rw [hsplit, hcons, reaching_cons, hrest, Option.or_none, ← hcons]
  split
  · rename_i hshort
    exact reachesFrom_some.2 ⟨_, _, rfl, hlang, by omega, by decide⟩
  · rename_i hlong
    by_contra hsome
    obtain ⟨n, hn⟩ := Option.ne_none_iff_exists'.1 hsome
    obtain ⟨w, x, heq, hw, hx, -⟩ := reachesFrom_some.1 hn
    obtain ⟨-, rfl⟩ := citation_unique hlang hw heq
    omega

theorem sentencePieces_plain {c : Context} (hpath : '"' ∉ shownPath c) (hwords : '"' ∉ evidence c) :
    sentencePieces c = ["[1] (".toList ++ (shownPath c ++ "): ".toList), evidence c, ". ".toList] := by
  have hsplit : sentence c = "[1] (".toList ++ (shownPath c ++ "): ".toList) ++ '"' ::
      (evidence c ++ '"' :: ". ".toList) := by
    rw [sentence]
    simp
  rw [sentencePieces, hsplit, List.splitOn_append_cons_self_of_not_mem (by simp [hpath]),
    List.splitOn_append_cons_self_of_not_mem hwords, List.splitOn_eq_singleton (by simp)]

/-- The one quote of a plain sentence: the quoted words, if the path is short and they are neither none nor
too long. -/
theorem quotedPieces_plain {c : Context} (hpath : '"' ∉ shownPath c ∧ '[' ∉ shownPath c)
    (hwords : '"' ∉ evidence c ∧ '[' ∉ evidence c) :
    quotedPieces (sentencePieces c) =
      if (shownPath c).length ≤ 35 ∧ 1 ≤ (evidence c).length ∧ (evidence c).length ≤ 300 then [(1, evidence c)]
      else [] := by
  have hnone : quotedPieces [evidence c, ". ".toList] = [] ∧ quotedPieces [". ".toList] = [] := ⟨rfl, rfl⟩
  rw [sentencePieces_plain hpath.1 hwords.1, quotedPieces, reaching_plain hpath.2]
  by_cases hshort : (shownPath c).length ≤ 35
  · simp only [hnone.1, hnone.2, hshort, true_and, if_true]
  · simp only [if_neg hshort, hnone.1]
    rw [if_neg fun h => hshort h.1]

theorem shownPath_of_ascii {c : Context} (hascii : (c.path.toList.all fun c => decide (c.toNat < 128)) = true)
    (hsqueeze : PyText.squeeze c.path.toList = c.path.toList) : shownPath c = c.path.toList := by
  rw [shownPath, hsqueeze, fold_of_all_ascii hascii]

theorem evidence_of_ascii {c : Context} (hascii : (c.text.toList.all fun c => decide (c.toNat < 128)) = true)
    (hfirst : firstWords c = c.text.toList) : evidence c = c.text.toList := by
  rw [evidence, hfirst, fold_of_all_ascii hascii]

/-- For a path and words without quotation marks and square brackets, it is a matter of their lengths, and of
the marker and the canary. -/
theorem mockVerifies_plain {env : Env} {c : Context} {cs : List Context}
    (hpath : '"' ∉ shownPath c ∧ '[' ∉ shownPath c) (hwords : '"' ∉ evidence c ∧ '[' ∉ evidence c) :
    MockVerifies env c cs ↔
      markerShaped (shownPath c ++ ("): \"".toList ++ evidence c)) = false ∧
      (PyText.contains (shownPath c) SYSTEM_CANARY.toList = false ∧
        PyText.contains (evidence c) SYSTEM_CANARY.toList = false) ∧
      (shownPath c).length ≤ 35 ∧ 1 ≤ (evidence c).length ∧ (evidence c).length ≤ 300 := by
  have hcited : ∀ {text}, '[' ∉ text → citedIn text = [] := by
    intro text hno
    refine List.eq_nil_iff_forall_not_mem.2 fun k hk => ?_
    obtain ⟨w, hin, hw, -⟩ := mem_citedIn.1 hk
    obtain ⟨d, v, rfl, -⟩ := citation_head hw
    exact hno (hin.subset List.mem_cons_self)
  constructor
  · intro h
    obtain ⟨q, hq⟩ := h.quoted 1 List.mem_cons_self
    rw [quotedPieces_plain hpath hwords] at hq
    split at hq
    · rename_i hlen
      exact ⟨h.noMarker, h.noCanary, hlen⟩
    · exact absurd hq List.not_mem_nil
  · rintro ⟨hmarker, hcanary, hlen⟩
    have hquotes := quotedPieces_plain hpath hwords
    rw [if_pos hlen] at hquotes
    refine ⟨hmarker, hcanary, ?_, ?_, ?_, ?_⟩
    · rw [← Bool.not_eq_true, search_iff_infix bracketed_not_nil bracketed_plain]
      rintro ⟨w, hin, hw⟩
      obtain ⟨x, z, rfl, -⟩ := bracketed_head hw
      have hmem := hin.subset (List.mem_cons_self (a := '['))
      simp [hpath.2, hwords.2] at hmem
    · simp [hcited hpath.2, hcited hwords.2]
    · simp [hcited hpath.2, hcited hwords.2, hquotes]
    · rintro k q hq -
      rw [hquotes, List.mem_singleton, Prod.mk.injEq] at hq
      obtain ⟨rfl, rfl⟩ := hq
      exact .inl ⟨rfl, List.infix_rfl⟩

/-! ## The checks of the answer -/

/-- The checks find nothing in the keyless provider's answer iff the path and the first words of the first
passage are so. -/
theorem mock_passes_iff {env : Env} (hcase : ∀ s t, env.casefold (s ++ t) = env.casefold s ++ env.casefold t)
    (nonce : Nonce) (question : String) (c : Context) (cs : List Context) :
    checkAnswer env (mockSaid nonce question (c :: cs)) (c :: cs) = [] ↔ MockVerifies env c cs := by
  rw [checkAnswer_mockSaid]
  constructor
  · rintro ⟨hnumbers, hstands, hmarker, hcanary, hlink⟩
    exact ⟨hmarker, hcanary, hlink, fun k hk => (hnumbers k (List.mem_cons_of_mem 1 hk)).1,
      fun k hk => (hnumbers k hk).2, fun k q hq hk => .inr (hstands (k, q) hq hk)⟩
  · intro h
    refine ⟨fun k hk => ⟨?_, h.quoted k hk⟩, fun ⟨k, q⟩ hq hk => ?_, h.noMarker, h.noCanary, h.noLink⟩
    · rcases List.mem_cons.1 hk with rfl | hk
      · simp [inRange]
      · exact h.retrieved k hk
    · rcases h.borneOut k q hq hk with ⟨rfl, hin⟩ | hstands
      · exact stands_of_evidence hcase hin
      · exact hstands

/-- A passage of an uploaded text, under a short path. -/
def shallowContext : Context := ⟨0, 0, "Refunds take five days.", "refunds.md", 0⟩

theorem mock_passes_for_short_path : (∀ s t, (asciiEnv id).casefold (s ++ t) =
      (asciiEnv id).casefold s ++ (asciiEnv id).casefold t) ∧
    checkAnswer (asciiEnv id) (mockSaid someNonce "How long do refunds take?" [shallowContext])
      [shallowContext] = [] := by
  have hpath : shownPath shallowContext = shallowContext.path.toList :=
    shownPath_of_ascii (by decide) (by decide)
  have hwords : evidence shallowContext = shallowContext.text.toList := evidence_of_ascii (by decide) (by decide)
  have hverifies : MockVerifies (asciiEnv id) shallowContext [] := by
    rw [mockVerifies_plain (by rw [hpath]; decide) (by rw [hwords]; decide), hpath, hwords]
    decide
  exact ⟨asciiEnv_casefold, (mock_passes_iff asciiEnv_casefold someNonce _ shallowContext []).2 hverifies⟩

/-- The same passage, under a path longer than the gap that the checks allow. -/
def deepContext : Context := ⟨0, 0, "Refunds take five days.", "engineering/platform/runbooks/refunds.md", 0⟩

/-- The upload accepts the path, the passage is the chunk of a text, and the checks report the citation of
the answer as unquoted. -/
theorem mock_flagged_for_deep_path :
    (noControlCharacters deepContext.path = true ∧ deepContext.path.length ≤ 1024) ∧
    chunkText (asciiEnv id) "Refunds take five days." = .ok [deepContext.text] ∧
    checkAnswer (asciiEnv id) (mockSaid someNonce "How long do refunds take?" [deepContext]) [deepContext] ≠ [] := by
  refine ⟨by decide, by decide, fun h => ?_⟩
  obtain ⟨q, hq⟩ := (((checkAnswer_mockSaid _ _ _ _ _).1 h).1 1 List.mem_cons_self).2
  have hpath : shownPath deepContext = deepContext.path.toList := shownPath_of_ascii (by decide) (by decide)
  have hwords : evidence deepContext = deepContext.text.toList := evidence_of_ascii (by decide) (by decide)
  have hpieces : quotedPieces (sentencePieces deepContext) = [] := by
    rw [sentencePieces, sentence, hpath, hwords]
    decide
  rw [hpieces] at hq
  exact List.not_mem_nil hq

end KnowledgeDesk.Proofs
