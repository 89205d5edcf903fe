import KnowledgeDesk.Lib.RegexLang
import KnowledgeDesk.Proofs.NormalizeProofs
import KnowledgeDesk.Providers

/-!
# Proofs: the fence of the prompt

A tag of the fence is a text of the marker pattern, so no defused field holds one; no tag can straddle
two fields or the template either. So the loop that looks for fences finds those the renderer wrote.
-/

namespace KnowledgeDesk.Proofs

open Regex Normalize Providers

/-! ## Tags -/

/-- A hex digit is ASCII, and none of the characters with a meaning in the prompt. -/
theorem isHex_ascii {c : Char} (h : isHex c = true) : c.toNat < 128 := by
  rw [isHex, Bool.or_eq_true, Bool.and_eq_true, decide_eq_true_eq, decide_eq_true_eq] at h
  rcases h with h | ⟨-, h⟩
  · exact lt_of_le_of_lt (Char.isDigit_iff_toNat.1 h).2 (by decide)
  · exact lt_of_le_of_lt (show c.toNat ≤ 'f'.toNat from h) (by decide)

theorem isHex_ne {c d : Char} (h : isHex c = true) (hd : isHex d = false) : c ≠ d := by
  rintro rfl
  rw [h] at hd
  exact absurd hd (by decide)

/-- What a field must not contain: an ASCII text of the marker pattern without a square bracket. -/
structure Tag (T : List Char) : Prop where
  marker : fenceMarker.Lang T
  ascii : ∀ c ∈ T, c.toNat < 128
  noBracket : '[' ∉ T

theorem closeTag_eq (nonce : Nonce) : closeTag nonce =
    ['<', '<', '<'] ++ ([] ++ ([] ++ ([] ++ ((['E', 'N', 'D'] ++ ['_']) ++
      (['U', 'N', 'T', 'R', 'U', 'S', 'T', 'E', 'D'] ++ (['_'] ++
        (['D', 'O', 'C', 'U', 'M', 'E', 'N', 'T'] ++ ((' ' :: nonce.digits) ++ ['>', '>', '>']))))))))
    := by
  unfold closeTag
  simp

theorem lang_END : (litIgnoreCase "END").Lang ['E', 'N', 'D'] := by
  simpa using lang_litIgnoreCase_self "END"

theorem lang_UNTRUSTED : (litIgnoreCase "UNTRUSTED").Lang ['U', 'N', 'T', 'R', 'U', 'S', 'T', 'E', 'D'] := by
  simpa using lang_litIgnoreCase_self "UNTRUSTED"

theorem lang_DOCUMENT : (litIgnoreCase "DOCUMENT").Lang ['D', 'O', 'C', 'U', 'M', 'E', 'N', 'T'] := by
  simpa using lang_litIgnoreCase_self "DOCUMENT"

theorem closeTag_lang (nonce : Nonce) : fenceMarker.Lang (closeTag nonce) := by
  rw [closeTag_eq, fenceMarker]
  refine lang_seqs_cons.2 ⟨_, _, lang_plus_char.2 ⟨by simp, by simp⟩, ?_, rfl⟩
  refine lang_seqs_cons.2 ⟨_, _, lang_star_char.2 (by simp), ?_, rfl⟩
  refine lang_seqs_cons.2 ⟨_, _, lang_opt.2 (.inl rfl), ?_, rfl⟩
  refine lang_seqs_cons.2 ⟨_, _, lang_star_char.2 (by simp), ?_, rfl⟩
  have hend : (Re.seq (litIgnoreCase "END") (star joint)).Lang (['E', 'N', 'D'] ++ ['_']) :=
    ⟨_, _, lang_END, lang_star_char.2 (by simp), rfl⟩
  refine lang_seqs_cons.2 ⟨_, _, lang_opt.2 (.inr hend), ?_, rfl⟩
  refine lang_seqs_cons.2 ⟨_, _, lang_UNTRUSTED, ?_, rfl⟩
  refine lang_seqs_cons.2 ⟨_, _, lang_star_char.2 (by simp), ?_, rfl⟩
  refine lang_seqs_cons.2 ⟨_, _, lang_DOCUMENT, ?_, rfl⟩
  refine lang_seqs_cons.2 ⟨_, _, lang_star_char.2 ?_, lang_plus_char.2 ⟨by simp, by simp⟩, rfl⟩
  intro c hc
  rcases List.mem_cons.1 hc with rfl | hc
  · decide
  · simpa using isHex_ne (d := '>') (nonce.hex c hc) (by decide)

theorem mem_closeTag {nonce : Nonce} {c : Char} (hc : c ∈ closeTag nonce) :
    c ∈ "<>END_UTRSOCM ".toList ∨ isHex c = true := by
  rw [closeTag_eq] at hc
  simp only [List.mem_append, List.mem_cons, List.not_mem_nil, or_false, false_or] at hc
  by_cases h : c ∈ nonce.digits
  · exact .inr (nonce.hex c h)
  · refine .inl ?_
    simp only [h, or_false] at hc
    simp
    tauto

theorem closeTag_tag (nonce : Nonce) : Tag (closeTag nonce) where
  marker := closeTag_lang nonce
  ascii := by
    intro c hc
    rcases mem_closeTag hc with hc | hc
    · exact (by simp : ∀ c ∈ "<>END_UTRSOCM ".toList, c.toNat < 128) c hc
    · exact isHex_ascii hc
  noBracket := by
    intro hc
    rcases mem_closeTag hc with hc | hc
    · exact absurd hc (by decide)
    · exact absurd hc (by decide)

theorem not_lang_nil_of_char {p : Char → Bool} {rs : List Re} : ¬ (seqs (.char p :: rs)).Lang [] := by
  intro h
  obtain ⟨u, v, ⟨c, -, rfl⟩, -, hnil⟩ := lang_seqs_cons.1 h
  exact absurd hnil (by simp)

theorem fenceMarker_head {w : List Char} (h : fenceMarker.Lang w) : w.head? = some '<' := by
  obtain ⟨u, v, hu, -, rfl⟩ := lang_seqs_cons.1 h
  obtain ⟨hall, hne⟩ := lang_plus_char.1 hu
  obtain ⟨c, u, rfl⟩ := List.exists_cons_of_ne_nil hne
  have hc : c = '<' := by simpa using hall c List.mem_cons_self
  rw [hc]
  rfl

theorem fenceMarker_not_nil : ¬ fenceMarker.Lang [] := fun h => absurd (fenceMarker_head h) (by simp)

theorem citationLabel_not_nil : ¬ citationLabel.Lang [] := not_lang_nil_of_char

theorem pathLine_not_nil : ¬ pathLine.Lang [] := by
  intro h
  obtain ⟨a, h₁, -, h, h0⟩ := lang_seqs_cons.1 h
  obtain ⟨b, h₂, -, h, h1⟩ := lang_seqs_cons.1 h
  obtain ⟨c, h₃, hc, -, h2⟩ := lang_seqs_cons.1 h
  rw [h1, h2] at h0
  have hnil : c = [] := by
    have := List.append_eq_nil_iff.1 h0.symm
    exact (List.append_eq_nil_iff.1 (List.append_eq_nil_iff.1 this.2).2).1
  rw [hnil] at hc
  exact absurd (List.Forall₂.length_eq (lang_litIgnoreCase.1 hc)) (by decide)

theorem litIgnoreCase_plain (t : String) : (litIgnoreCase t).Plain := by
  have hlit : ∀ ps : List (Char → Bool), (seqs (ps.map Re.char)).Plain := by
    intro ps
    induction ps with
    | nil => trivial
    | cons p ps ih =>
      cases ps with
      | nil => trivial
      | cons q ps => exact ⟨trivial, ih⟩
  have := hlit (t.toList.map sameLetter)
  rwa [List.map_map] at this

theorem fenceMarker_plain : fenceMarker.Plain := by
  refine ⟨char_plain _, char_plain _, char_plain _, char_plain _, ⟨⟨litIgnoreCase_plain _, char_plain _⟩, ?_⟩,
    litIgnoreCase_plain _, char_plain _, litIgnoreCase_plain _, char_plain _, char_plain _⟩
  rintro ⟨u, v, hu, -, hnil⟩
  rw [(List.append_eq_nil_iff.1 hnil.symm).1] at hu
  exact absurd (List.Forall₂.length_eq (lang_litIgnoreCase.1 hu)) (by decide)

/-! ## What a defused text contains -/

/-- The spans of the original that a round of `_defuse` replaces. -/
def replacedSpans (pattern : Re) (text : List Char) : List (Nat × Nat) :=
  (finditer pattern (fold text)).map fun m => originalSpan (origin text) m.start m.stop text.length

theorem defusePattern_fst (pattern : Re) (marker text : List Char) :
    (defusePattern pattern marker text).1 = replaceFolded text (replacedSpans pattern text) marker := by
  rw [defusePattern]
  by_cases h : replacedSpans pattern text = []
  · rw [h, if_pos (by simpa [replacedSpans] using h)]
    rfl
  · rw [if_neg (by simpa [replacedSpans] using h)]
    rfl

theorem mem_replacedSpans {pattern : Re} (hp : ¬ pattern.Lang []) {text : List Char} {p : Nat × Nat}
    (h : p ∈ replacedSpans pattern text) : ∃ m ∈ finditer pattern (fold text),
      m.start < m.stop ∧ m.stop ≤ (fold text).length ∧
        p = ((origin text).getD m.start 0, (origin text).getD (m.stop - 1) 0 + 1) := by
  obtain ⟨m, hm, rfl⟩ := List.mem_map.1 h
  obtain ⟨-, hlt, hle⟩ := (matchesFrom_ordered hp rfl).1 m hm
  rw [Nat.zero_add] at hle
  exact ⟨m, hm, hlt, hle, originalSpan_eq hlt hle⟩

theorem replacedSpans_ordered {pattern : Re} (hp : ¬ pattern.Lang []) (text : List Char) :
    Ordered (replacedSpans pattern text) := by
  constructor
  · intro p h
    obtain ⟨m, -, hlt, hle, rfl⟩ := mem_replacedSpans hp h
    rw [← originalSpan_eq hlt hle]
    exact (originalSpan_lt hlt hle).1
  · refine List.pairwise_map.2 ((matchesFrom_ordered hp rfl).2.imp_of_mem ?_)
    intro m m' hm hm' hmm
    obtain ⟨-, hlt, -⟩ := (matchesFrom_ordered hp rfl).1 m hm
    obtain ⟨-, hlt', hle'⟩ := (matchesFrom_ordered hp rfl).1 m' hm'
    rw [Nat.zero_add] at hle'
    exact originalSpan_le hlt hmm hlt' hle'

theorem replacedSpans_end {pattern : Re} (hp : ¬ pattern.Lang []) {text : List Char} {p : Nat × Nat}
    (h : p ∈ replacedSpans pattern text) : p.2 ≤ text.length := by
  obtain ⟨m, -, hlt, hle, rfl⟩ := mem_replacedSpans hp h
  rw [← originalSpan_eq hlt hle]
  exact (originalSpan_lt hlt hle).2

/-- A tag that stands in the text after a round stood in it before, outside of what was replaced. -/
theorem tag_stood {pattern : Re} (hp : ¬ pattern.Lang []) {marker text T : List Char} (hT : Tag T)
    (hlt : '<' ∉ marker) (hbr : marker.head? = some '[')
    (h : T <:+: (defusePattern pattern marker text).1) :
    ∃ a, T <+: text.drop a ∧ ∀ p ∈ replacedSpans pattern text, a + T.length ≤ p.1 ∨ p.2 ≤ a := by
  have hord := replacedSpans_ordered hp text
  rw [defusePattern_fst, replaceFolded_ordered hord] at h
  obtain ⟨s, t, hst⟩ := h
  obtain ⟨a, -, ha⟩ := stood_before (fenceMarker_head hT.marker) hlt hbr hT.noBracket hord
    (fun p hp' => replacedSpans_end hp hp') 0 s.length (fun _ _ => Nat.zero_le _)
    (Nat.zero_le _) (by
      rw [← hst, List.append_assoc, List.drop_left]
      exact List.prefix_append T t)
  exact ⟨a, ha⟩

theorem infix_of_prefix_drop {α : Type*} {T text : List α} {a : Nat} (h : T <+: text.drop a) :
    T <:+: text :=
  h.isInfix.trans (List.drop_suffix a text).isInfix

/-- After the round of the marker pattern no tag is left. -/
theorem no_tag_after_fence {text T marker : List Char} (hT : Tag T) (hlt : '<' ∉ marker)
    (hbr : marker.head? = some '[') : ¬ T <:+: (defusePattern fenceMarker marker text).1 := by
  intro h
  obtain ⟨a, ⟨B, hB⟩, hout⟩ := tag_stood fenceMarker_not_nil hT hlt hbr h
  obtain ⟨c, T', hcT⟩ : ∃ c T', T = c :: T' :=
    List.exists_cons_of_ne_nil fun h0 => fenceMarker_not_nil (h0 ▸ hT.marker)
  have htext : text = text.take a ++ (T ++ B) := by rw [hB, List.take_append_drop]
  have hlen : (text.take a).length = a := by
    rw [List.length_take]
    have : a ≤ text.length := by
      by_contra hlt
      rw [List.drop_eq_nil_of_le (by omega), hcT] at hB
      exact absurd hB (by simp)
    omega
  -- the folded text has the tag at the position `q`, which no match covers
  have hfold : fold text = fold (text.take a) ++ (T ++ fold B) := by
    conv_lhs => rw [htext]
    rw [fold_append, fold_append, fold_of_folded fun c hc => folded_of_ascii (hT.ascii c hc)]
  have horigin : (origin text).getD (fold (text.take a)).length 0 = a := by
    have hc : isInvisible c = false :=
      (folded_of_ascii (hT.ascii c (hcT ▸ List.mem_cons_self))).1
    have hat := origin_visible (A := text.take a) (B := T' ++ B) hc
    have heq : text.take a ++ c :: (T' ++ B) = text := by
      conv_rhs => rw [htext, hcT]
      rfl
    rw [heq, hlen] at hat
    rw [List.getD_eq_getElem?_getD, hat]
    rfl
  have hends : fenceMarker.ends ⟨(fold (text.take a)).reverse ++ [], T ++ fold B, []⟩ = [] := by
    refine ends_of_uncovered fenceMarker_not_nil 0 rfl ?_
    rw [← hfold]
    rintro m hm ⟨hstart, hstop⟩
    rw [Nat.zero_add] at hstart hstop
    obtain ⟨-, hlt, hle⟩ := (matchesFrom_ordered fenceMarker_not_nil rfl).1 m hm
    rw [Nat.zero_add] at hle
    have hspan := hout _ (List.mem_map.2 ⟨m, hm, rfl⟩)
    rw [originalSpan_eq hlt hle] at hspan
    have hfirst := origin_getD_le (A := text) hstart (by omega)
    have hlast := origin_getD_le (A := text) (i := (fold (text.take a)).length) (j := m.stop - 1)
      (by omega) (by omega)
    rw [horigin] at hfirst hlast
    rcases hspan with hspan | hspan
    · rw [hcT, List.length_cons] at hspan
      omega
    · omega
  have hmatch := (ends_ne_nil_iff fenceMarker_plain
    (s := ⟨(fold (text.take a)).reverse ++ [], T ++ fold B, []⟩)).2
    ⟨T, hT.marker, List.prefix_append T (fold B)⟩
  exact hmatch hends

/-- The three rounds of `_defuse`. -/
theorem neutralize_eq (text : List Char) : neutralize text =
    (defusePattern pathLine "[path line removed]".toList
      (defusePattern citationLabel "[citation removed]".toList
        (defusePattern fenceMarker "[marker removed]".toList text).1).1).1 := by
  unfold neutralize defuse GRAMMAR
  simp only [List.foldl_cons, List.foldl_nil]

/-- A defused field contains no tag, whoever knows its nonce. -/
theorem no_tag_neutralize {text T : List Char} (hT : Tag T) : ¬ T <:+: neutralize text := by
  intro h
  rw [neutralize_eq] at h
  obtain ⟨a, h, -⟩ := tag_stood pathLine_not_nil hT (by simp) (by simp) h
  obtain ⟨b, h, -⟩ := tag_stood citationLabel_not_nil hT (by simp) (by simp) (infix_of_prefix_drop h)
  exact no_tag_after_fence hT (by simp) (by simp) (infix_of_prefix_drop h)

/-! ## Looking for the fences -/

theorem indexOf_eq {sub u v : List Char}
    (h : ∀ u₁ u₂, u = u₁ ++ u₂ → u₂ ≠ [] → ¬ sub <+: u₂ ++ (sub ++ v)) :
    indexOf sub (u ++ (sub ++ v)) = some u.length := by
  induction u with
  | nil =>
    rw [List.nil_append]
    cases hsub : sub ++ v with
    | nil =>
      have hnil := (List.append_eq_nil_iff.1 hsub).1
      rw [hnil]
      rfl
    | cons c w =>
      rw [indexOf, if_pos (List.isPrefixOf_iff_prefix.2 (hsub ▸ List.prefix_append sub v))]
      rfl
  | cons c u ih =>
    have hno : sub.isPrefixOf (c :: (u ++ (sub ++ v))) = false := by
      rw [Bool.eq_false_iff, Ne, List.isPrefixOf_iff_prefix]
      exact h [] (c :: u) rfl (by simp)
    rw [List.cons_append, indexOf, hno, ih fun u₁ u₂ hu hne => h (c :: u₁) u₂ (by rw [hu]; rfl) hne]
    rfl

theorem find_eq {done sub u v : List Char}
    (h : ∀ u₁ u₂, u = u₁ ++ u₂ → u₂ ≠ [] → ¬ sub <+: u₂ ++ (sub ++ v)) :
    find (done ++ (u ++ (sub ++ v))) sub done.length = some (done.length + u.length) := by
  rw [find, List.drop_left, indexOf_eq h]
  rfl

theorem find_none {done sub rest : List Char} (hsub : sub ≠ [])
    (h : ∀ u₁ u₂, rest = u₁ ++ u₂ → u₂ ≠ [] → ¬ sub <+: u₂) :
    find (done ++ rest) sub done.length = none := by
  rw [find, List.drop_left, Option.map_eq_none_iff]
  induction rest with
  | nil => simp [indexOf, hsub]
  | cons c rest ih =>
    have hno : sub.isPrefixOf (c :: rest) = false := by
      rw [Bool.eq_false_iff, Ne, List.isPrefixOf_iff_prefix]
      exact h [] (c :: rest) rfl (by simp)
    rw [indexOf, hno, ih fun u₁ u₂ hu hne => h (c :: u₁) u₂ (by rw [hu]; rfl) hne]
    rfl

theorem openTag_eq (nonce : Nonce) : openTag nonce =
    ['<', '<', '<'] ++ ([] ++ ([] ++ ([] ++ ([] ++
      (['U', 'N', 'T', 'R', 'U', 'S', 'T', 'E', 'D'] ++ (['_'] ++
        (['D', 'O', 'C', 'U', 'M', 'E', 'N', 'T'] ++ ((' ' :: nonce.digits) ++ ['>', '>', '>']))))))))
    := by
  unfold openTag
  simp

theorem openTag_head (nonce : Nonce) : (openTag nonce).head? = some '<' := by
  rw [openTag_eq]
  rfl

theorem length_closeTag (nonce : Nonce) : (closeTag nonce).length = (openTag nonce).length + 4 := by
  rw [closeTag_eq, openTag_eq]
  simp only [List.length_append, List.length_cons, List.length_nil]
  omega

/-- Text without `<` holds no start of a tag. -/
theorem no_open {nonce : Nonce} {u v : List Char} (hu : '<' ∉ u) :
    ∀ u₁ u₂, u = u₁ ++ u₂ → u₂ ≠ [] → ¬ openTag nonce <+: u₂ ++ v := by
  rintro u₁ u₂ rfl hne hpre
  obtain ⟨c, u₂, rfl⟩ := List.exists_cons_of_ne_nil hne
  obtain ⟨t, ht⟩ := hpre
  have hhead := congrArg List.head? ht
  rw [List.head?_append, openTag_head] at hhead
  have hc : c = '<' := by simpa using hhead.symm
  exact hu (by simp [hc])

theorem lt_notMem_label (i : Nat) : '<' ∉ label i ++ ['\n'] := by
  intro h
  rw [label, List.mem_append, List.mem_append, List.mem_cons] at h
  rcases h with ((h | h) | h) | h
  · exact absurd h (by decide)
  · exact absurd (PyText.isDigit_toString h) (by decide)
  · exact absurd h (by decide)
  · exact absurd h (by decide)

/-- A word that lies between two places of a text is a part of what stands between them. -/
theorem infix_between {T A P B : List Char} {j : Nat} (h : T <+: (A ++ (P ++ B)).drop j)
    (hA : A.length ≤ j) (hP : j + T.length ≤ A.length + P.length) : T <:+: P := by
  rw [List.drop_append, List.drop_eq_nil_of_le hA, List.nil_append,
    List.drop_append_of_le_length (by omega)] at h
  refine infix_of_prefix_drop (a := j - A.length) ?_
  exact List.prefix_of_prefix_length_le h (List.prefix_append _ _) (by rw [List.length_drop]; omega)

/-- Between the open tag and the close tag of a passage no close tag starts. -/
theorem no_close {nonce : Nonce} {c : Context} {v : List Char} : ∀ u₁ u₂,
    openTag nonce ++ passageBody c = u₁ ++ u₂ → u₂ ≠ [] → ¬ closeTag nonce <+: u₂ ++ v := by
  intro u₁ u₂ hu hne h
  have hT := closeTag_tag nonce
  have hhead := fenceMarker_head hT.marker
  have hnl : '\n' ∉ closeTag nonce := by
    intro hc
    rcases mem_closeTag hc with hc | hc
    · exact absurd hc (by decide)
    · exact absurd hc (by decide)
  have hshort : u₁.length < (openTag nonce ++ passageBody c).length := by
    have := List.length_pos_iff.2 hne
    rw [hu, List.length_append]
    omega
  have hdrop : u₂ ++ v = (openTag nonce ++ passageBody c ++ v).drop u₁.length := by
    rw [hu, List.append_assoc, List.drop_left]
  rw [hdrop] at h
  generalize hP : neutralize c.path.toList = P at *
  generalize hX : neutralize c.text.toList = X at *
  have hbody : passageBody c = "\npath: ".toList ++ P ++ ['\n'] ++ X ++ ['\n'] := by
    unfold passageBody
    rw [hP, hX]
  rw [hbody] at h hshort
  have hno : ∀ A Y B : List Char, Y = P ∨ Y = X → closeTag nonce <+: (A ++ (Y ++ B)).drop u₁.length →
      A.length ≤ u₁.length → u₁.length + (closeTag nonce).length ≤ A.length + Y.length → False := by
    intro A Y B hY hpre hA hend
    have hinfix := infix_between hpre hA hend
    rcases hY with rfl | rfl
    · exact no_tag_neutralize hT (hP ▸ hinfix)
    · exact no_tag_neutralize hT (hX ▸ hinfix)
  -- the tag cannot touch the renderer's own text, so it would lie in the path or in the text
  have h₁ := prefix_drop_middle (A := openTag nonce) (m := "\npath: ".toList)
    (B := P ++ ['\n'] ++ X ++ ['\n'] ++ v) hhead (by simp) (by simp) hnl
    (by simpa only [List.append_assoc] using h)
  rcases h₁ with h₁ | h₁
  · have := length_closeTag nonce
    omega
  have h₂ := prefix_drop_middle (A := openTag nonce ++ "\npath: ".toList ++ P) (m := ['\n'])
    (B := X ++ ['\n'] ++ v) hhead (by simp) rfl hnl (by simpa only [List.append_assoc] using h)
  rcases h₂ with h₂ | h₂
  · refine hno (openTag nonce ++ "\npath: ".toList) P (['\n'] ++ X ++ ['\n'] ++ v) (.inl rfl)
      (by simpa only [List.append_assoc] using h) (by rw [List.length_append]; exact h₁) ?_
    rwa [List.length_append] at h₂
  have h₃ := prefix_drop_middle (A := openTag nonce ++ "\npath: ".toList ++ P ++ ['\n'] ++ X) (m := ['\n'])
    (B := v) hhead (by simp) rfl hnl (by simpa only [List.append_assoc] using h)
  rcases h₃ with h₃ | h₃
  · refine hno (openTag nonce ++ "\npath: ".toList ++ P ++ ['\n']) X (['\n'] ++ v) (.inr rfl)
      (by simpa only [List.append_assoc] using h) (by rw [List.length_append]; exact h₂) ?_
    rwa [List.length_append] at h₃
  · simp only [List.length_append] at h₃ hshort
    omega

/-! ## The rendered context -/

/-- What `_render_context` writes before the `i`-th passage. -/
def separator (i : Nat) : List Char := if i = 0 then [] else "\n\n".toList

/-- The passages from the `i`-th on. -/
def passages (nonce : Nonce) : Nat → List Context → List Char
  | _, [] => []
  | i, c :: cs => separator i ++ renderPassage nonce i c ++ passages nonce (i + 1) cs

/-- What stands outside the fences of `n` passages. -/
def outsideText (n : Nat) : List Char :=
  "\n\n".toList.intercalate ((List.range n).map fun i => label i ++ ['\n'])

/-- The part of it that belongs to the passages from the `i`-th on. -/
def outsideFrom : Nat → Nat → List Char
  | _, 0 => []
  | i, n + 1 => separator i ++ (label i ++ ['\n']) ++ outsideFrom (i + 1) n

theorem intercalate_cons {α : Type*} (sep x : List α) (xs : List (List α)) :
    sep.intercalate (x :: xs) = x ++ (xs.map (sep ++ ·)).flatten := by
  induction xs generalizing x with
  | nil => simp
  | cons y xs ih => rw [List.intercalate_cons_cons, ih, List.map_cons, List.flatten_cons, List.append_assoc,
    List.append_assoc]

theorem passages_succ (nonce : Nonce) (cs : List Context) : ∀ i, passages nonce (i + 1) cs =
    ((cs.mapIdx fun j c => renderPassage nonce (i + 1 + j) c).map ("\n\n".toList ++ ·)).flatten := by
  induction cs with
  | nil => exact fun _ => rfl
  | cons c cs ih =>
    intro i
    rw [passages, separator, if_neg (Nat.succ_ne_zero i), ih, List.mapIdx_cons, List.map_cons,
      List.flatten_cons, Nat.add_zero]
    simp only [Nat.add_assoc, Nat.add_comm 1]

theorem renderContext_eq (contexts : List Context) (nonce : Nonce) :
    renderContext contexts nonce = passages nonce 0 contexts := by
  unfold renderContext
  cases contexts with
  | nil => rfl
  | cons c cs =>
    rw [List.mapIdx_cons, intercalate_cons, passages, passages_succ, separator, if_pos rfl, List.nil_append]
    simp only [Nat.zero_add, Nat.add_comm 1]

theorem outsideFrom_succ (n : Nat) : ∀ i, outsideFrom (i + 1) n =
    (((List.range' (i + 1) n).map fun i => label i ++ ['\n']).map ("\n\n".toList ++ ·)).flatten := by
  induction n with
  | zero => exact fun _ => rfl
  | succ n ih =>
    intro i
    rw [outsideFrom, separator, if_neg (Nat.succ_ne_zero i), ih, List.range'_succ, List.map_cons,
      List.map_cons, List.flatten_cons]

theorem outsideText_eq (n : Nat) : outsideText n = outsideFrom 0 n := by
  unfold outsideText
  cases n with
  | zero => rfl
  | succ n =>
    rw [List.range_eq_range', List.range'_succ, List.map_cons, intercalate_cons, outsideFrom,
      outsideFrom_succ, separator, if_pos rfl, List.nil_append]

theorem length_le_passages (nonce : Nonce) (cs : List Context) : ∀ i,
    cs.length ≤ (passages nonce i cs).length := by
  induction cs with
  | nil => exact fun _ => Nat.zero_le _
  | cons c cs ih =>
    intro i
    have := ih (i + 1)
    simp only [passages, renderPassage, label, List.length_append, List.length_cons]
    omega

theorem lt_notMem_separator (i : Nat) : '<' ∉ separator i := by
  unfold separator
  split <;> simp

theorem slice_between (A P B : List Char) :
    slice (A ++ (P ++ B)) A.length (A.length + P.length) = P := by
  rw [slice, List.drop_left, Nat.add_sub_cancel_left, List.take_left]

/-- From the end of a passage on, the loop finds the fences of the passages that follow. -/
theorem scanFences_passages (nonce : Nonce) (cs : List Context) : ∀ (i fuel : Nat) (done : List Char),
    cs.length < fuel →
      (scanFences (openTag nonce) (closeTag nonce) (done ++ passages nonce i cs) fuel done.length).bodies =
        cs.map passageBody ∧
      (scanFences (openTag nonce) (closeTag nonce) (done ++ passages nonce i cs) fuel
        done.length).chunks.flatten = outsideFrom i cs.length := by
  induction cs with
  | nil =>
    intro i fuel done hfuel
    obtain ⟨fuel, rfl⟩ := Nat.exists_eq_add_of_lt hfuel
    have hopen : openTag nonce ≠ [] := by
      intro h0
      have := openTag_head nonce
      rw [h0] at this
      exact absurd this (by simp)
    have hfind : find (done ++ []) (openTag nonce) done.length = none :=
      find_none hopen fun u₁ u₂ hu hne => absurd (List.append_eq_nil_iff.1 hu.symm).2 hne
    rw [List.length_nil, Nat.zero_add, passages, scanFences, hfind]
    simp [outsideFrom]
  | cons c cs ih =>
    intro i fuel done hfuel
    rw [List.length_cons] at hfuel
    obtain ⟨fuel, rfl⟩ := Nat.exists_eq_add_of_lt (Nat.zero_lt_of_lt hfuel)
    rw [Nat.zero_add] at hfuel ⊢
    generalize hpre : separator i ++ (label i ++ ['\n']) = pre
    generalize hrest : passages nonce (i + 1) cs = rest
    have hsplit : done ++ passages nonce i (c :: cs) =
        done ++ (pre ++ (openTag nonce ++ (passageBody c ++ closeTag nonce ++ rest))) := by
      rw [passages, renderPassage, hrest, ← hpre]
      simp only [List.append_assoc]
    have hlt : '<' ∉ pre := by
      rw [← hpre, List.mem_append, not_or]
      exact ⟨lt_notMem_separator i, lt_notMem_label i⟩
    have hopen : find (done ++ passages nonce i (c :: cs)) (openTag nonce) done.length =
        some (done ++ pre).length := by
      rw [hsplit, find_eq (no_open hlt), List.length_append]
    have hsplit' : done ++ passages nonce i (c :: cs) =
        (done ++ pre) ++ ((openTag nonce ++ passageBody c) ++ (closeTag nonce ++ rest)) := by
      rw [hsplit]
      simp only [List.append_assoc]
    have hclose : find (done ++ passages nonce i (c :: cs)) (closeTag nonce) (done ++ pre).length =
        some ((done ++ pre).length + (openTag nonce ++ passageBody c).length) := by
      rw [hsplit', find_eq no_close]
    have hnext : done ++ passages nonce i (c :: cs) =
        (done ++ pre ++ (openTag nonce ++ passageBody c) ++ closeTag nonce) ++ passages nonce (i + 1) cs := by
      rw [hsplit', hrest]
      simp only [List.append_assoc]
    obtain ⟨hbodies, hchunks⟩ := ih (i + 1) fuel
      (done ++ pre ++ (openTag nonce ++ passageBody c) ++ closeTag nonce) (by omega)
    rw [← hnext] at hbodies hchunks
    have hpos : (done ++ pre).length + (openTag nonce ++ passageBody c).length + (closeTag nonce).length =
        (done ++ pre ++ (openTag nonce ++ passageBody c) ++ closeTag nonce).length := by
      simp only [List.length_append]
    have hchunk : slice (done ++ passages nonce i (c :: cs)) done.length (done ++ pre).length = pre := by
      rw [hsplit, List.length_append, slice_between]
    have hbody : slice (done ++ passages nonce i (c :: cs)) ((done ++ pre).length + (openTag nonce).length)
        ((done ++ pre).length + (openTag nonce ++ passageBody c).length) = passageBody c := by
      have hin : done ++ passages nonce i (c :: cs) =
          (done ++ pre ++ openTag nonce) ++ (passageBody c ++ (closeTag nonce ++ rest)) := by
        rw [hsplit']
        simp only [List.append_assoc]
      rw [hin, @List.length_append _ (openTag nonce), ← Nat.add_assoc, ← List.length_append,
        slice_between]
    rw [scanFences, hopen]
    dsimp only
    rw [hclose]
    dsimp only
    rw [hpos, hbody, hchunk, List.flatten_cons, hbodies, hchunks, List.map_cons, List.length_cons,
      outsideFrom, hpre]
    exact ⟨rfl, rfl⟩

theorem fences_renderContext (nonce : Nonce) (contexts : List Context) :
    (fences (renderContext contexts nonce) nonce).bodies = contexts.map passageBody ∧
      outside (renderContext contexts nonce) nonce = outsideText contexts.length := by
  have hlen := length_le_passages nonce contexts 0
  have h := scanFences_passages nonce contexts 0 ((passages nonce 0 contexts).length + 1) [] (by omega)
  rw [List.nil_append, List.length_nil] at h
  rw [outside, fences, renderContext_eq, outsideText_eq]
  exact h

/-- The loop finds the fences that the renderer wrote, one for each passage and in order, with the defused
path and text between the tags; what it leaves outside depends on the number of passages alone. -/
theorem fence_round_trip (nonce : Nonce) (contexts : List Context) :
    (fences (renderContext contexts nonce) nonce).bodies = (contexts.map fun c =>
      "\npath: ".toList ++ neutralize c.path.toList ++ ['\n'] ++ neutralize c.text.toList ++ ['\n']) ∧
    outside (renderContext contexts nonce) nonce = outsideText contexts.length ∧
    ∀ contexts' : List Context, contexts'.length = contexts.length →
      outside (renderContext contexts' nonce) nonce = outside (renderContext contexts nonce) nonce := by
  obtain ⟨hbodies, houtside⟩ := fences_renderContext nonce contexts
  refine ⟨hbodies, houtside, fun contexts' hlen => ?_⟩
  rw [houtside, (fences_renderContext nonce contexts').2, hlen]

end KnowledgeDesk.Proofs
