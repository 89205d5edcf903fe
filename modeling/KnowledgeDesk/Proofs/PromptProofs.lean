import KnowledgeDesk.Lib.Digits
import KnowledgeDesk.Proofs.FenceProofs

/-!
# Proofs: the grammar of the assembled prompt

Each field is defused on its own, and the model reads them joined. The spans that the patterns match in
the folded block are those the renderer wrote iff no passage spells a piece of the grammar across the
line break between its path and its text.
-/

namespace KnowledgeDesk.Proofs

open Regex Normalize Providers

/-! ## The condition, and where the renderer wrote its marks -/

/-- The defused path and the defused text of a passage, as they stand one after the other in the block. -/
def joinedFields (c : Context) : List Char :=
  fold (neutralize c.path.toList) ++ '\n' :: fold (neutralize c.text.toList)

/-- The two fields, read one after the other, spell no citation label, and no fence marker even if a
closing bracket follows. -/
def Seamless (c : Context) : Prop :=
  markerShaped (joinedFields c ++ ['>']) = false ∧ Regex.search citationLabel (joinedFields c) = false

instance (c : Context) : Decidable (Seamless c) :=
  inferInstanceAs (Decidable (markerShaped (joinedFields c ++ ['>']) = false ∧
    Regex.search citationLabel (joinedFields c) = false))

/-- What stands between the tags of a passage, folded. -/
def foldedBody (c : Context) : List Char := "\npath: ".toList ++ (joinedFields c ++ ['\n'])

/-- The spans of the tags of the passages from the `i`-th on, in the folded block from `pos` on. -/
def writtenTags (nonce : Nonce) : Nat → Nat → List Context → List (Nat × Nat)
  | _, _, [] => []
  | pos, i, c :: cs =>
    let opens := pos + (separator i).length + (label i).length + 1
    let body := opens + (openTag nonce).length
    let closes := body + (foldedBody c).length
    let next := closes + (closeTag nonce).length
    (opens, body) :: (closes, next) :: writtenTags nonce next (i + 1) cs

/-- The spans of the labels of the passages from the `i`-th on. -/
def writtenLabels (nonce : Nonce) : Nat → Nat → List Context → List (Nat × Nat)
  | _, _, [] => []
  | pos, i, c :: cs =>
    let start := pos + (separator i).length
    let stop := start + (label i).length
    let next := stop + 1 + (openTag nonce).length + (foldedBody c).length + (closeTag nonce).length
    (start, stop) :: writtenLabels nonce next (i + 1) cs

/-! ## The folded block -/

theorem label_ascii (i : Nat) : ∀ c ∈ label i, c.toNat < 128 := by
  intro c hc
  rw [label, List.mem_append, List.mem_cons] at hc
  rcases hc with (rfl | hc) | hc
  · decide
  · exact lt_of_le_of_lt (Char.isDigit_iff_toNat.1 (PyText.isDigit_toString hc)).2 (by decide)
  · rw [List.mem_singleton.1 hc]
    decide

theorem separator_ascii (i : Nat) : ∀ c ∈ separator i, c.toNat < 128 := by
  unfold separator
  split
  · simp
  · exact (by simp : ∀ c ∈ "\n\n".toList, c.toNat < 128)

theorem mem_openTag {nonce : Nonce} {c : Char} (hc : c ∈ openTag nonce) :
    c ∈ "<>_UNTRSEDOCM ".toList ∨ isHex c = true := by
  rw [openTag_eq] at hc
  simp only [List.mem_append, List.mem_cons, List.not_mem_nil, or_false, false_or] at hc
  by_cases h : c ∈ nonce.digits
  · exact .inr (nonce.hex c h)
  · refine .inl ?_
    simp only [h, or_false] at hc
    simp
    tauto

theorem openTag_ascii (nonce : Nonce) : ∀ c ∈ openTag nonce, c.toNat < 128 := by
  intro c hc
  rcases mem_openTag hc with hc | hc
  · exact (by simp : ∀ c ∈ "<>_UNTRSEDOCM ".toList, c.toNat < 128) c hc
  · exact isHex_ascii hc

theorem fold_ascii {A : List Char} (h : ∀ c ∈ A, c.toNat < 128) : fold A = A :=
  fold_of_folded fun c hc => folded_of_ascii (h c hc)

/-- The same of a given text, whose characters are looked through. -/
theorem fold_of_all_ascii {A : List Char} (h : (A.all fun c => decide (c.toNat < 128)) = true) : fold A = A :=
  fold_ascii fun c hc => of_decide_eq_true (List.all_eq_true.1 h c hc)

theorem fold_passageBody (c : Context) : fold (passageBody c) = foldedBody c := by
  have hpath : ∀ c ∈ "\npath: ".toList, c.toNat < 128 := by simp
  have hnl : fold ['\n'] = ['\n'] := fold_ascii (by simp)
  unfold passageBody foldedBody joinedFields
  rw [fold_append, fold_append, fold_append, fold_append, fold_ascii hpath, hnl]
  simp only [List.append_assoc, List.cons_append, List.nil_append]

/-- The folded passages from the `i`-th on. -/
def foldedPassages (nonce : Nonce) (i : Nat) (cs : List Context) : List Char := fold (passages nonce i cs)

theorem foldedPassages_cons (nonce : Nonce) (i : Nat) (c : Context) (cs : List Context) :
    foldedPassages nonce i (c :: cs) = separator i ++ (label i ++ ('\n' :: (openTag nonce ++
      (foldedBody c ++ (closeTag nonce ++ foldedPassages nonce (i + 1) cs))))) := by
  have hnl : fold ['\n'] = ['\n'] := fold_ascii (by simp)
  rw [foldedPassages, passages, renderPassage]
  simp only [fold_append]
  rw [fold_ascii (separator_ascii i), fold_ascii (label_ascii i), hnl, fold_ascii (openTag_ascii nonce),
    fold_ascii (closeTag_tag nonce).ascii, fold_passageBody]
  simp only [List.append_assoc, List.cons_append, List.nil_append]
  rfl

/-- After a passage comes the end, or a blank line. -/
theorem foldedPassages_head {nonce : Nonce} {i : Nat} {cs : List Context} {c : Char}
    (h : c ∈ (foldedPassages nonce (i + 1) cs).head?) : c = '\n' := by
  cases cs with
  | nil => exact absurd h (by simp [foldedPassages, passages, fold, foldFrom])
  | cons d cs =>
    rw [foldedPassages_cons, separator, if_neg (Nat.succ_ne_zero i)] at h
    simpa using h.symm

/-! ## The fence pattern -/

/-- The fence pattern up to the word `DOCUMENT`. -/
def fenceHead : Re :=
  seqs [plus (.char (· == '<')), star space, opt (.char (· == '/')), star space,
    opt (.seq (litIgnoreCase "END") (star joint)), litIgnoreCase "UNTRUSTED", star joint,
    litIgnoreCase "DOCUMENT"]

theorem lang_seqs_append {qs : List Re} : ∀ {rs : List Re} {w : List Char},
    (seqs (rs ++ qs)).Lang w ↔ ∃ u v, (seqs rs).Lang u ∧ (seqs qs).Lang v ∧ w = u ++ v := by
  intro rs
  induction rs with
  | nil =>
    intro w
    exact ⟨fun h => ⟨[], w, rfl, h, rfl⟩, by rintro ⟨u, v, rfl, hv, rfl⟩; exact hv⟩
  | cons r rs ih =>
    intro w
    rw [List.cons_append, lang_seqs_cons]
    constructor
    · rintro ⟨u, v, hu, hv, rfl⟩
      obtain ⟨v₁, v₂, hv₁, hv₂, rfl⟩ := ih.1 hv
      exact ⟨u ++ v₁, v₂, lang_seqs_cons.2 ⟨u, v₁, hu, hv₁, rfl⟩, hv₂, (List.append_assoc u v₁ v₂).symm⟩
    · rintro ⟨x, v₂, hx, hv₂, rfl⟩
      obtain ⟨u, v₁, hu, hv₁, rfl⟩ := lang_seqs_cons.1 hx
      exact ⟨u, v₁ ++ v₂, hu, ih.2 ⟨v₁, v₂, hv₁, hv₂, rfl⟩, List.append_assoc u v₁ v₂⟩

/-- The fence pattern matches at a position iff its head does and a closing bracket follows somewhere. -/
theorem fenceMarker_at {text : List Char} :
    (∃ w, fenceMarker.Lang w ∧ w <+: text) ↔ ∃ h r, fenceHead.Lang h ∧ text = h ++ r ∧ '>' ∈ r := by
  have hsplit : ∀ w, fenceMarker.Lang w ↔ ∃ u v, fenceHead.Lang u ∧
      (seqs [star (.char (· != '>')), plus (.char (· == '>'))]).Lang v ∧ w = u ++ v :=
    fun w => @lang_seqs_append _ [_, _, _, _, _, _, _, _] w
  constructor
  · rintro ⟨w, hw, t, rfl⟩
    obtain ⟨h, v, hh, hv, rfl⟩ := (hsplit w).1 hw
    obtain ⟨y, z, -, hz, rfl⟩ := lang_seqs_cons.1 hv
    obtain ⟨hall, hne⟩ := lang_plus_char.1 (show (plus (.char (· == '>'))).Lang z from hz)
    obtain ⟨d, z, rfl⟩ := List.exists_cons_of_ne_nil hne
    have hd : d = '>' := by simpa using hall d List.mem_cons_self
    exact ⟨h, y ++ d :: z ++ t, hh, by simp only [List.append_assoc], by simp [hd]⟩
  · rintro ⟨h, r, hh, rfl, hr⟩
    obtain ⟨y, z, rfl, hy⟩ := List.eq_append_cons_of_mem hr
    have hclose : (seqs [star (.char (· != '>')), plus (.char (· == '>'))]).Lang (y ++ ['>']) := by
      refine lang_seqs_cons.2 ⟨y, ['>'], lang_star_char.2 fun c hc => ?_,
        lang_plus_char.2 ⟨by simp, by simp⟩, rfl⟩
      simpa using fun he : c = '>' => hy (he ▸ hc)
    refine ⟨h ++ (y ++ ['>']), (hsplit _).2 ⟨h, _, hh, hclose, rfl⟩, z, ?_⟩
    simp only [List.append_assoc, List.cons_append, List.nil_append]

/-- The characters of a letter of the pattern: a letter, in either case. -/
theorem sameLetter_ne {s : String} {w : List Char} (h : (litIgnoreCase s).Lang w) {d : Char}
    (hd : ∀ c ∈ s.toList, sameLetter c d = false) : d ∉ w := by
  intro hdw
  have hall := lang_litIgnoreCase.1 h
  obtain ⟨c, hc, hcd⟩ : ∃ c ∈ s.toList, sameLetter c d = true := by
    clear h hd
    generalize s.toList = cs at hall ⊢
    induction hall with
    | nil => exact absurd hdw List.not_mem_nil
    | cons hab _ ih =>
      rcases List.mem_cons.1 hdw with rfl | hdw
      · exact ⟨_, List.mem_cons_self, hab⟩
      · obtain ⟨c, hc, hcd⟩ := ih hdw
        exact ⟨c, List.mem_cons_of_mem _ hc, hcd⟩
  rw [hd c hc] at hcd
  exact absurd hcd (by decide)

theorem class_ne {p : Char → Bool} {w : List Char} (h : (star (.char p)).Lang w) {d : Char}
    (hd : p d = false) : d ∉ w := by
  intro hdw
  have := lang_star_char.1 h d hdw
  rw [hd] at this
  exact absurd this (by decide)

/-- A head of the fence pattern: brackets first, and none later; no `>`; a letter last. -/
theorem fenceHead_shape {h : List Char} (hh : fenceHead.Lang h) :
    (∀ a b, h = a ++ '<' :: b → ∀ c ∈ a, c = '<') ∧ '>' ∉ h ∧ (∀ a, h ≠ a ++ ['\n']) := by
  obtain ⟨w₁, v₁, h₁, hv₁, rfl⟩ := lang_seqs_cons.1 hh
  obtain ⟨w₂, v₂, h₂, hv₂, rfl⟩ := lang_seqs_cons.1 hv₁
  obtain ⟨w₃, v₃, h₃, hv₃, rfl⟩ := lang_seqs_cons.1 hv₂
  obtain ⟨w₄, v₄, h₄, hv₄, rfl⟩ := lang_seqs_cons.1 hv₃
  obtain ⟨w₅, v₅, h₅, hv₅, rfl⟩ := lang_seqs_cons.1 hv₄
  obtain ⟨w₆, v₆, h₆, hv₆, rfl⟩ := lang_seqs_cons.1 hv₅
  obtain ⟨w₇, v₇, h₇, hv₇, rfl⟩ := lang_seqs_cons.1 hv₆
  obtain ⟨w₈, v₈, h₈, hv₈, rfl⟩ := lang_seqs_cons.1 hv₇
  obtain rfl : v₈ = [] := hv₈
  have hbrackets := (lang_plus_char.1 h₁).1
  -- none of the later parts has an angle bracket
  have hlater : ∀ d, (d = '<' ∨ d = '>') →
      d ∉ w₂ ++ (w₃ ++ (w₄ ++ (w₅ ++ (w₆ ++ (w₇ ++ (w₈ ++ [])))))) := by
    intro d hd
    have hspace : PyText.isSpace d = false := by rcases hd with rfl | rfl <;> decide
    have hjoint : (d == '_' || PyText.isSpace d || d == '-') = false := by
      rcases hd with rfl | rfl <;> decide
    have hletters : ∀ s ∈ ["END", "UNTRUSTED", "DOCUMENT"], ∀ c ∈ s.toList, sameLetter c d = false := by
      rcases hd with rfl | rfl <;> simp [sameLetter]
    have hslash : d ∉ w₃ := by
      rcases lang_opt.1 h₃ with rfl | ⟨c, hc, rfl⟩
      · exact List.not_mem_nil
      · have hc' : c = '/' := by simpa using hc
        rw [List.mem_singleton, hc']
        rcases hd with rfl | rfl <;> decide
    have hend : d ∉ w₅ := by
      rcases lang_opt.1 h₅ with rfl | ⟨x, y, hx, hy, rfl⟩
      · exact List.not_mem_nil
      · rw [List.mem_append, not_or]
        exact ⟨sameLetter_ne hx (hletters "END" (by simp)), class_ne hy hjoint⟩
    simp only [List.mem_append, not_or]
    exact ⟨class_ne h₂ hspace, hslash, class_ne h₄ hspace, hend,
      sameLetter_ne h₆ (hletters "UNTRUSTED" (by simp)), class_ne h₇ hjoint,
      sameLetter_ne h₈ (hletters "DOCUMENT" (by simp)), List.not_mem_nil⟩
  refine ⟨?_, ?_, ?_⟩
  · intro a b hab c hc
    rcases List.append_eq_append_iff.1 hab with ⟨t, ha, hb⟩ | ⟨t, ha, -⟩
    · have hlt : '<' ∈ w₂ ++ (w₃ ++ (w₄ ++ (w₅ ++ (w₆ ++ (w₇ ++ (w₈ ++ [])))))) := by
        rw [hb]
        simp
      exact absurd hlt (hlater '<' (.inl rfl))
    · have hcw : c ∈ w₁ := by
        rw [ha]
        exact List.mem_append_left t hc
      simpa using hbrackets c hcw
  · rw [List.mem_append, not_or]
    refine ⟨fun hgt => ?_, hlater '>' (.inr rfl)⟩
    have := hbrackets '>' hgt
    exact absurd this (by decide)
  · intro a ha
    obtain ⟨d, w₈', rfl⟩ : ∃ d w, w₈ = w ++ [d] := by
      rcases List.eq_nil_or_concat w₈ with rfl | ⟨w, d, rfl⟩
      · exact absurd (List.Forall₂.length_eq (lang_litIgnoreCase.1 h₈)) (by decide)
      · exact ⟨d, w, List.concat_eq_append⟩
    have hlast := congrArg List.getLast? ha
    simp only [List.append_nil, ← List.append_assoc, List.getLast?_concat] at hlast
    have hd : d = '\n' := Option.some.inj hlast
    refine sameLetter_ne h₈ (d := '\n') (by simp [sameLetter]) ?_
    rw [hd]
    simp

/-- A word that starts in a text followed by a line break and an open bracket ends in the text, when a
bracket in it follows brackets only and a line break is not its last character. -/
theorem stays_in_text {w s t : List Char} (hlt : ∀ a b, w = a ++ '<' :: b → ∀ c ∈ a, c = '<')
    (hnl : ∀ a, w ≠ a ++ ['\n']) (hpre : w <+: s ++ '\n' :: '<' :: t) : w <+: s := by
  obtain ⟨r, hr⟩ := hpre
  rcases List.append_eq_append_iff.1 hr with ⟨u, hs, -⟩ | ⟨u, hu, hrest⟩
  · exact ⟨u, hs.symm⟩
  · rcases u with _ | ⟨d, u⟩
    · rw [List.append_nil] at hu
      exact ⟨[], by rw [hu, List.append_nil]⟩
    · have hd : d = '\n' := (List.cons.inj hrest).1.symm
      have hrest' := (List.cons.inj hrest).2
      rcases u with _ | ⟨e, u⟩
      · exact absurd hu (by rw [hd]; exact hnl s)
      · have he : e = '<' := (List.cons.inj hrest').1.symm
        have hsplit : w = (s ++ ['\n']) ++ '<' :: u := by
          rw [hu, hd, he, List.append_assoc, List.singleton_append]
        have := hlt _ _ hsplit '\n' (by simp)
        exact absurd this (by decide)

/-! ## Where the fence pattern matches in a passage -/

theorem closeTag_cons (nonce : Nonce) : ∃ t, closeTag nonce = '<' :: t ∧ '>' ∈ t := by
  rw [closeTag_eq]
  exact ⟨_, rfl, by simp⟩

/-- A suffix of the body that a marker could start in is a suffix of the joined fields. -/
theorem suffix_of_body {d : Char} (hd : d ∉ "\npath: ".toList) (hnl : d ≠ '\n') {c : Context}
    {u₁ u₂ : List Char} (hu : foldedBody c = u₁ ++ u₂) (hhead : u₂.head? = some d) :
    ∃ q s, joinedFields c = q ++ s ∧ u₂ = s ++ ['\n'] ∧ s.head? = some d := by
  unfold foldedBody at hu
  rcases List.append_eq_append_iff.1 hu with ⟨q, -, hq⟩ | ⟨q, hq, hrest⟩
  · rcases List.append_eq_append_iff.1 hq with ⟨s, hs, hn⟩ | ⟨s, hs, hn⟩
    · rcases s with _ | ⟨e, s⟩
      · rw [List.nil_append] at hn
        rw [← hn] at hhead
        exact absurd (Option.some.inj hhead).symm hnl
      · exact absurd hn (by
          intro hn
          have hu₂ : u₂ = [] := by
            have := (List.cons.inj hn).2
            exact (List.append_eq_nil_iff.1 this.symm).2
          rw [hu₂] at hhead
          exact absurd hhead (by simp))
    · refine ⟨q, s, hs, hn, ?_⟩
      rw [hn] at hhead
      cases s with
      | nil => exact absurd (Option.some.inj hhead).symm hnl
      | cons e s => exact hhead
  · rcases q with _ | ⟨e, q⟩
    · rw [List.nil_append] at hrest
      cases hj : joinedFields c with
      | nil => exact absurd hj (by simp [joinedFields])
      | cons e s =>
        refine ⟨[], e :: s, rfl, by rw [hrest, hj], ?_⟩
        rw [hrest, hj] at hhead
        exact hhead
    · rw [hrest] at hhead
      have he : e = d := Option.some.inj hhead
      exact absurd (show d ∈ "\npath: ".toList by rw [hq, he]; simp) hd

/-- A stretch without the last character of a text ends before it. -/
theorem append_inside {α : Type*} {q h r J : List α} {d : α} (hne : h ≠ []) (hd : d ∉ h)
    (heq : q ++ (h ++ r) = J ++ [d]) : ∃ s, J = q ++ (h ++ s) := by
  rcases List.eq_nil_or_concat r with rfl | ⟨r, e, rfl⟩
  · rcases List.eq_nil_or_concat h with rfl | ⟨h, e, rfl⟩
    · exact absurd rfl hne
    · rw [List.append_nil, List.concat_eq_append, ← List.append_assoc] at heq
      have he : e = d := (List.append_inj' heq rfl).2 |> List.singleton_inj.1
      exact absurd (by rw [List.concat_eq_append, he]; simp) hd
  · rw [List.concat_eq_append, ← List.append_assoc, ← List.append_assoc] at heq
    refine ⟨r, ?_⟩
    rw [← List.append_assoc]
    exact ((List.append_inj' heq rfl).1).symm

/-- In the block, a marker starts inside a body iff one would start in its joined fields closed by a
bracket. -/
theorem marker_in_body {nonce : Nonce} {c : Context} {rest : List Char} :
    (∃ u₁ u₂ w, foldedBody c = u₁ ++ u₂ ∧ u₂ ≠ [] ∧ fenceMarker.Lang w ∧
      w <+: u₂ ++ (closeTag nonce ++ rest)) ↔ markerShaped (joinedFields c ++ ['>']) = true := by
  obtain ⟨t, ht, hgt⟩ := closeTag_cons nonce
  rw [markerShaped, search_iff fenceMarker_not_nil fenceMarker_plain]
  constructor
  · rintro ⟨u₁, u₂, w, hu, hne, hw, hpre⟩
    have hhead : u₂.head? = some '<' := by
      obtain ⟨e, u, rfl⟩ := List.exists_cons_of_ne_nil hne
      obtain ⟨d, w, rfl⟩ := List.exists_cons_of_ne_nil fun h0 => fenceMarker_not_nil (h0 ▸ hw)
      have hd : d = '<' := Option.some.inj (fenceMarker_head hw)
      obtain ⟨x, hx⟩ := hpre
      rw [← (List.cons.inj hx).1, hd]
      rfl
    obtain ⟨q, s, hq, hs, -⟩ := suffix_of_body (by simp) (by decide) hu hhead
    obtain ⟨h, r, hh, hsplit, -⟩ := fenceMarker_at.1 ⟨w, hw, hpre⟩
    have hin : h <+: s := by
      obtain ⟨hlt, -, hnl⟩ := fenceHead_shape hh
      refine stays_in_text hlt hnl (t := t ++ rest) ⟨r, ?_⟩
      rw [← hsplit, hs, ht]
      simp
    obtain ⟨r', rfl⟩ := hin
    obtain ⟨w', hw', x, hx⟩ := fenceMarker_at.2 ⟨h, r' ++ ['>'], hh, rfl, by simp⟩
    refine ⟨q, w', x, ?_, hw'⟩
    rw [hx, hq]
    simp only [List.append_assoc]
  · rintro ⟨q, w, x, hsplit, hw⟩
    obtain ⟨h, r, hh, hr, -⟩ := fenceMarker_at.1 ⟨w, hw, List.prefix_append w x⟩
    obtain ⟨-, hnogt, -⟩ := fenceHead_shape hh
    have hne : h ≠ [] := by
      obtain ⟨a, b, ha, -, rfl⟩ := lang_seqs_cons.1 hh
      exact fun h0 => (lang_plus_char.1 ha).2 (List.append_eq_nil_iff.1 h0).1
    rw [hr] at hsplit
    obtain ⟨s, hs⟩ := append_inside hne hnogt hsplit.symm
    obtain ⟨w', hw', hpre⟩ := fenceMarker_at.2
      ⟨h, s ++ ['\n'] ++ (closeTag nonce ++ rest), hh, rfl, by rw [ht]; simp [hgt]⟩
    refine ⟨"\npath: ".toList ++ q, h ++ (s ++ ['\n']), w', ?_, by simp [hne], hw', ?_⟩
    · unfold foldedBody
      rw [hs]
      simp only [List.append_assoc]
    · simpa only [List.append_assoc] using hpre

/-! ## The tags are found as they were written -/

/-- What the pattern does from the word `UNTRUSTED` on, when the tag is not followed by a bracket. -/
theorem tagTail_takes (nonce : Nonce) {before rest : List Char} (hrest : ∀ c ∈ rest.head?, c ≠ '>') :
    (seqs [litIgnoreCase "UNTRUSTED", star joint, litIgnoreCase "DOCUMENT", star (.char (· != '>')),
      plus (.char (· == '>'))]).Takes before
      (['U', 'N', 'T', 'R', 'U', 'S', 'T', 'E', 'D'] ++ (['_'] ++ (['D', 'O', 'C', 'U', 'M', 'E', 'N', 'T'] ++
        ((' ' :: nonce.digits) ++ ['>', '>', '>'])))) rest := by
  refine (takes_litIgnoreCase lang_UNTRUSTED).seqs_cons ?_
  refine (takes_star_char (by simp) (by simp; decide)).seqs_cons ?_
  refine (takes_litIgnoreCase lang_DOCUMENT).seqs_cons ?_
  refine (takes_star_char ?_ (by simp)).seqs_cons (takes_plus_char (by simp) (by simp) ?_)
  · intro c hc
    rcases List.mem_cons.1 hc with rfl | hc
    · decide
    · simpa using isHex_ne (d := '>') (nonce.hex c hc) (by decide)
  · intro c hc
    simpa using hrest c hc

theorem openTag_takes (nonce : Nonce) {before rest : List Char} (hrest : ∀ c ∈ rest.head?, c ≠ '>') :
    fenceMarker.Takes before (openTag nonce) rest := by
  rw [openTag_eq, fenceMarker]
  refine (takes_plus_char (by simp) (by simp) (by simp)).seqs_cons ?_
  refine (takes_star_char (by simp) (by simp; decide)).seqs_cons ?_
  refine (takes_opt_nil fun g => by simp [Re.ends]).seqs_cons ?_
  refine (takes_star_char (by simp) (by simp; decide)).seqs_cons ?_
  refine (takes_opt_nil fun g => ?_).seqs_cons (tagTail_takes nonce hrest)
  simp [litIgnoreCase, seqs, Re.ends, sameLetter]

theorem closeTag_takes (nonce : Nonce) {before rest : List Char} (hrest : ∀ c ∈ rest.head?, c ≠ '>') :
    fenceMarker.Takes before (closeTag nonce) rest := by
  rw [closeTag_eq, fenceMarker]
  refine (takes_plus_char (by simp) (by simp) (by simp)).seqs_cons ?_
  refine (takes_star_char (by simp) (by simp; decide)).seqs_cons ?_
  refine (takes_opt_nil fun g => by simp [Re.ends]).seqs_cons ?_
  refine (takes_star_char (by simp) (by simp; decide)).seqs_cons ?_
  refine (takes_opt (by simp) ?_).seqs_cons (tagTail_takes nonce hrest)
  exact (takes_litIgnoreCase lang_END).seq (takes_star_char (by simp) (by simp; decide))

/-- A pattern whose texts all begin with `d` does not match where there is no `d`. -/
theorem skip_without {r : Re} {d : Char} (hr : ∀ w, r.Lang w → w.head? = some d) {w rest : List Char}
    (hw : d ∉ w) {pos : Nat} {before : List Char} :
    matchesFrom r pos before (w ++ rest) = matchesFrom r (pos + w.length) (w.reverse ++ before) rest := by
  refine matchesFrom_skip fun w₁ w₂ hsplit hne => ?_
  by_contra hends
  obtain ⟨t, ht⟩ := List.exists_mem_of_ne_nil _ hends
  obtain ⟨v, hv, hst⟩ := ends_sound ht
  obtain ⟨c, w₂, rfl⟩ := List.exists_cons_of_ne_nil hne
  have hhead := congrArg List.head? hst.1
  rw [List.head?_append (l := v), hr v hv] at hhead
  have hc : c = d := by simpa using hhead
  exact hw (by rw [hsplit, hc]; simp)

theorem spans_body_iff (nonce : Nonce) (c : Context) {rest before : List Char}
    {pos closes next : Nat} (hcloses : closes = pos + (foldedBody c).length)
    (hnext : next = closes + (closeTag nonce).length) (hrest : ∀ c ∈ rest.head?, c = '\n')
    {later : List (Nat × Nat)} :
    spans (matchesFrom fenceMarker pos before (foldedBody c ++ (closeTag nonce ++ rest))) =
        (closes, next) :: later ↔
      markerShaped (joinedFields c ++ ['>']) = false ∧
        spans (matchesFrom fenceMarker next
          ((closeTag nonce).reverse ++ ((foldedBody c).reverse ++ before)) rest) = later := by
  subst hcloses hnext
  have hclose : closeTag nonce ≠ [] := fun h0 => fenceMarker_not_nil (h0 ▸ closeTag_lang nonce)
  have hlast : ∀ c ∈ rest.head?, c ≠ '>' := fun c hc => by rw [hrest c hc]; decide
  have htake := fun p b => @spans_take _ p b _ _ hclose (closeTag_takes nonce hlast)
  have hskip : markerShaped (joinedFields c ++ ['>']) = false →
      matchesFrom fenceMarker pos before (foldedBody c ++ (closeTag nonce ++ rest)) =
        matchesFrom fenceMarker (pos + (foldedBody c).length) ((foldedBody c).reverse ++ before)
          (closeTag nonce ++ rest) := by
    intro hno
    refine matchesFrom_skip fun u₁ u₂ hu hne => ?_
    by_contra hends
    obtain ⟨w, hw, hpre⟩ := (ends_ne_nil_iff fenceMarker_plain).1 hends
    rw [marker_in_body.1 ⟨u₁, u₂, w, hu, hne, hw, hpre⟩] at hno
    exact absurd hno (by decide)
  constructor
  · intro h
    have hno : markerShaped (joinedFields c ++ ['>']) = false := by
      rw [Bool.eq_false_iff]
      intro hyes
      obtain ⟨u₁, u₂, w, hu, hne, hw, hpre⟩ := (@marker_in_body nonce c rest).2 hyes
      have hlen := List.length_pos_iff.2 hne
      have hbody : (foldedBody c).length = u₁.length + u₂.length := by rw [hu, List.length_append]
      -- the first match starts after the body, so no position of the body is covered
      have hends : fenceMarker.ends ⟨u₁.reverse ++ before, u₂ ++ (closeTag nonce ++ rest), []⟩ = [] := by
        refine ends_of_uncovered fenceMarker_not_nil pos rfl ?_
        rw [← List.append_assoc, ← hu]
        rintro m hm ⟨hstart, -⟩
        have hord := (@matchesFrom_ordered _ fenceMarker_not_nil _ pos before
          (foldedBody c ++ (closeTag nonce ++ rest)) rfl).2
        cases hms : matchesFrom fenceMarker pos before (foldedBody c ++ (closeTag nonce ++ rest)) with
        | nil =>
          rw [hms] at hm
          exact absurd hm List.not_mem_nil
        | cons m₀ ms =>
          rw [hms] at h hm hord
          have hm₀ : m₀.start = _ := congrArg Prod.fst (List.cons.inj h).1
          have hstop : m₀.stop = _ := congrArg Prod.snd (List.cons.inj h).1
          dsimp only at hm₀ hstop
          rcases List.mem_cons.1 hm with rfl | hm
          · omega
          · have := (List.pairwise_cons.1 hord).1 m hm
            omega
      exact (ends_ne_nil_iff fenceMarker_plain
        (s := ⟨u₁.reverse ++ before, u₂ ++ (closeTag nonce ++ rest), []⟩)).2 ⟨w, hw, hpre⟩ hends
    refine ⟨hno, ?_⟩
    rw [hskip hno, htake] at h
    exact (List.cons.inj h).2
  · rintro ⟨hno, hlater⟩
    rw [hskip hno, htake, hlater]

/-- The fence pattern finds in the folded passages exactly the tags, iff no passage spells another. -/
theorem tags_iff (nonce : Nonce) (cs : List Context) : ∀ (pos i : Nat) (before : List Char),
    spans (matchesFrom fenceMarker pos before (foldedPassages nonce i cs)) = writtenTags nonce pos i cs ↔
      ∀ c ∈ cs, markerShaped (joinedFields c ++ ['>']) = false := by
  induction cs with
  | nil =>
    intro pos i before
    have hnil : foldedPassages nonce i [] = [] := rfl
    rw [hnil, matchesFrom_nil fenceMarker_not_nil]
    simp [spans, writtenTags]
  | cons c cs ih =>
    intro pos i before
    have hpre : '<' ∉ separator i ++ (label i ++ ['\n']) := by
      rw [List.mem_append, not_or]
      exact ⟨lt_notMem_separator i, lt_notMem_label i⟩
    have hopen : openTag nonce ≠ [] := by
      rw [openTag_eq]
      simp
    have hsplit : foldedPassages nonce i (c :: cs) = (separator i ++ (label i ++ ['\n'])) ++
        (openTag nonce ++ (foldedBody c ++ (closeTag nonce ++ foldedPassages nonce (i + 1) cs))) := by
      rw [foldedPassages_cons]
      simp only [List.append_assoc, List.cons_append, List.nil_append]
    have hbody : ∀ d ∈ (foldedBody c ++ (closeTag nonce ++ foldedPassages nonce (i + 1) cs)).head?,
        d ≠ '>' := by
      unfold foldedBody
      simp
    have hlen : pos + (separator i ++ (label i ++ ['\n'])).length =
        pos + (separator i).length + (label i).length + 1 := by
      simp only [List.length_append, List.length_singleton]
      omega
    rw [hsplit, skip_without (fun w => fenceMarker_head) hpre, spans_take hopen (openTag_takes nonce hbody),
      writtenTags, hlen, List.cons.injEq, eq_self_iff_true, true_and,
      spans_body_iff nonce c rfl rfl fun d hd => foldedPassages_head hd, ih, List.forall_mem_cons]

/-! ## The labels are found as they were written -/

theorem citationLabel_lang {w : List Char} : citationLabel.Lang w ↔
    ∃ a d b, (∀ c ∈ a, PyText.isSpace c = true) ∧ (∀ c ∈ d, PyText.isDigit c = true) ∧
      (∀ c ∈ b, PyText.isSpace c = true) ∧ 1 ≤ d.length ∧ d.length ≤ 3 ∧
      w = '[' :: (a ++ (d ++ (b ++ [']']))) := by
  constructor
  · intro h
    obtain ⟨x, v₁, ⟨e, he, rfl⟩, hv₁, rfl⟩ := lang_seqs_cons.1 h
    obtain ⟨a, v₂, ha, hv₂, rfl⟩ := lang_seqs_cons.1 hv₁
    obtain ⟨d, v₃, hd, hv₃, rfl⟩ := lang_seqs_cons.1 hv₂
    obtain ⟨b, v₄, hb, hv₄, rfl⟩ := lang_seqs_cons.1 hv₃
    obtain ⟨f, hf, rfl⟩ : (Re.char (· == ']')).Lang v₄ := hv₄
    obtain ⟨hdigits, hlo, hhi⟩ := lang_rep_char.1 hd
    have he' : e = '[' := by simpa using he
    have hf' : f = ']' := by simpa using hf
    exact ⟨a, d, b, lang_star_char.1 ha, hdigits, lang_star_char.1 hb, hlo, hhi 3 rfl, by rw [he', hf']; rfl⟩
  · rintro ⟨a, d, b, ha, hd, hb, hlo, hhi, rfl⟩
    refine lang_seqs_cons.2 ⟨['['], _, ⟨'[', rfl, rfl⟩, ?_, rfl⟩
    refine lang_seqs_cons.2 ⟨a, _, lang_star_char.2 ha, ?_, rfl⟩
    refine lang_seqs_cons.2 ⟨d, _, lang_rep_char.2 ⟨hd, hlo, fun n hn => ?_⟩, ?_, rfl⟩
    · rw [← Option.some.inj hn]
      exact hhi
    · exact lang_seqs_cons.2 ⟨b, _, lang_star_char.2 hb, ⟨']', rfl, rfl⟩, rfl⟩

theorem citationLabel_plain : citationLabel.Plain := by
  exact ⟨trivial, char_plain _, char_plain _, char_plain _, trivial⟩

theorem citationLabel_head {w : List Char} (h : citationLabel.Lang w) : w.head? = some '[' := by
  obtain ⟨a, d, b, -, -, -, -, -, rfl⟩ := citationLabel_lang.1 h
  rfl

theorem citationLabel_no_lt {w : List Char} (h : citationLabel.Lang w) : '<' ∉ w := by
  obtain ⟨a, d, b, ha, hd, hb, -, -, rfl⟩ := citationLabel_lang.1 h
  intro hmem
  simp only [List.mem_cons, List.mem_append, List.not_mem_nil, or_false] at hmem
  rcases hmem with hmem | hmem | hmem | hmem | hmem
  · exact absurd hmem (by decide)
  · exact absurd (ha _ hmem) (by decide)
  · exact absurd (hd _ hmem) (by decide)
  · exact absurd (hb _ hmem) (by decide)
  · exact absurd hmem (by decide)

theorem citationLabel_last {w : List Char} (h : citationLabel.Lang w) (a : List Char) : w ≠ a ++ ['\n'] := by
  obtain ⟨x, d, b, -, -, -, -, -, rfl⟩ := citationLabel_lang.1 h
  intro heq
  have hlast := congrArg List.getLast? heq
  rw [← List.cons_append, ← List.append_assoc, ← List.append_assoc, List.getLast?_concat,
    List.getLast?_concat] at hlast
  exact absurd hlast (by decide)

theorem label_takes {i : Nat} (hi : i + 1 < 1000) {before rest : List Char} :
    citationLabel.Takes before (label i) rest := by
  have hdigits := fun c hc => PyText.isDigit_py (PyText.isDigit_toString (n := i + 1) (c := c) hc)
  have hne : (toString (i + 1)).toList ≠ [] := by
    rw [Nat.toString_eq_repr, Nat.toList_repr]
    exact Nat.toDigits_ne_nil
  have hlen : (toString (i + 1)).toList.length ≤ 3 := by
    rw [Nat.toString_eq_repr, Nat.toList_repr]
    exact (Nat.length_toDigits_le_iff (by decide) (by decide)).2 hi
  have hsplit : label i = ['['] ++ ([] ++ ((toString (i + 1)).toList ++ ([] ++ [']']))) := by
    rw [label]
    simp
  have hhead : ∀ c ∈ ((toString (i + 1)).toList ++ ([] ++ [']']) ++ rest).head?,
      PyText.isSpace c = false := by
    intro c hc
    obtain ⟨d, ds, hds⟩ := List.exists_cons_of_ne_nil hne
    rw [hds] at hc
    have hcd : d = c := by simpa using hc
    exact (hdigits c (by rw [hds, hcd]; simp)).2
  rw [hsplit, citationLabel]
  refine (takes_char (by decide)).seqs_cons ?_
  refine (takes_star_char (by simp) hhead).seqs_cons ?_
  refine Re.Takes.seqs_cons (takes_rep_char (fun c hc => (hdigits c hc).1) (List.length_pos_iff.2 hne)
    (fun n hn => by rw [← Option.some.inj hn]; exact hlen) (.inl (by simp; decide))) ?_
  exact (takes_star_char (by simp) (by simp; decide)).seqs_cons (takes_char (by decide))

/-- A label of more than three digits is not one to the pattern. -/
theorem label_lang {i : Nat} (h : citationLabel.Lang (label i)) : i + 1 < 1000 := by
  obtain ⟨a, d, b, ha, -, hb, -, hlen, heq⟩ := citationLabel_lang.1 h
  have hdigits := fun c hc => PyText.isDigit_py (PyText.isDigit_toString (n := i + 1) (c := c) hc)
  rw [label, List.cons_append] at heq
  have hrest := (List.cons.inj heq).2
  rw [← List.append_assoc, ← List.append_assoc] at hrest
  have hmid := (List.append_inj' hrest rfl).1
  -- the digits are neither of the two runs of white space
  have hnil : ∀ x ∈ a ++ b, False := by
    intro x hx
    have hmem : x ∈ (toString (i + 1)).toList := by
      rw [hmid]
      simp only [List.mem_append] at hx ⊢
      tauto
    have hspace : PyText.isSpace x = true := by
      rcases List.mem_append.1 hx with hx | hx
      · exact ha x hx
      · exact hb x hx
    rw [(hdigits x hmem).2] at hspace
    exact absurd hspace (by decide)
  have ha0 : a = [] := List.eq_nil_iff_forall_not_mem.2 fun x hx => hnil x (List.mem_append_left b hx)
  have hb0 : b = [] := List.eq_nil_iff_forall_not_mem.2 fun x hx => hnil x (List.mem_append_right a hx)
  rw [ha0, hb0, List.nil_append, List.append_nil] at hmid
  rw [← hmid, Nat.toString_eq_repr, Nat.toList_repr] at hlen
  exact (Nat.length_toDigits_le_iff (b := 10) (k := 3) (by decide) (by decide)).1 hlen

/-- In the block, a label starts inside a body iff one stands in its joined fields. -/
theorem label_in_body {nonce : Nonce} {c : Context} {rest : List Char} :
    (∃ u₁ u₂ w, foldedBody c = u₁ ++ u₂ ∧ u₂ ≠ [] ∧ citationLabel.Lang w ∧
      w <+: u₂ ++ (closeTag nonce ++ rest)) ↔ Regex.search citationLabel (joinedFields c) = true := by
  obtain ⟨t, ht, -⟩ := closeTag_cons nonce
  rw [search_iff citationLabel_not_nil citationLabel_plain]
  constructor
  · rintro ⟨u₁, u₂, w, hu, hne, hw, hpre⟩
    have hhead : u₂.head? = some '[' := by
      obtain ⟨e, u, rfl⟩ := List.exists_cons_of_ne_nil hne
      obtain ⟨d, w, rfl⟩ := List.exists_cons_of_ne_nil fun h0 => citationLabel_not_nil (h0 ▸ hw)
      have hd : d = '[' := Option.some.inj (citationLabel_head hw)
      obtain ⟨x, hx⟩ := hpre
      rw [← (List.cons.inj hx).1, hd]
      rfl
    obtain ⟨q, s, hq, hs, -⟩ := suffix_of_body (by simp) (by decide) hu hhead
    rw [hs, ht, List.append_assoc] at hpre
    have hlt : ∀ a b, w = a ++ '<' :: b → ∀ c ∈ a, c = '<' := fun a b hab =>
      absurd (by rw [hab]; simp) (citationLabel_no_lt hw)
    obtain ⟨r, rfl⟩ := stays_in_text hlt (citationLabel_last hw) hpre
    exact ⟨q, w, r, hq, hw⟩
  · rintro ⟨q, w, r, hsplit, hw⟩
    have hne : w ≠ [] := fun h0 => citationLabel_not_nil (h0 ▸ hw)
    refine ⟨"\npath: ".toList ++ q, w ++ (r ++ ['\n']), w, ?_, by simp [hne], hw, ?_⟩
    · unfold foldedBody
      rw [hsplit]
      simp only [List.append_assoc]
    · rw [List.append_assoc]
      exact List.prefix_append w _

theorem le_of_mem_writtenLabels {nonce : Nonce} (cs : List Context) : ∀ {pos i : Nat} {p : Nat × Nat},
    p ∈ writtenLabels nonce pos i cs → pos ≤ p.1 := by
  induction cs with
  | nil => exact fun h => absurd h List.not_mem_nil
  | cons c cs ih =>
    intro pos i p h
    rw [writtenLabels] at h
    rcases List.mem_cons.1 h with rfl | h
    · exact Nat.le_add_right _ _
    · have := ih h
      omega

/-- From the label of a passage to the next passage the pattern finds nothing, iff the fields hold none. -/
theorem spans_after_label_iff (nonce : Nonce) (c : Context) (cs : List Context) {i pos next : Nat}
    {before : List Char}
    (hnext : next = pos + 1 + (openTag nonce).length + (foldedBody c).length + (closeTag nonce).length) :
    spans (matchesFrom citationLabel pos before ('\n' :: (openTag nonce ++ (foldedBody c ++
        (closeTag nonce ++ foldedPassages nonce (i + 1) cs))))) = writtenLabels nonce next (i + 1) cs ↔
      Regex.search citationLabel (joinedFields c) = false ∧ ∃ before',
        (before' = (closeTag nonce).reverse ++ ((foldedBody c).reverse ++
          (('\n' :: openTag nonce).reverse ++ before))) ∧
        spans (matchesFrom citationLabel next before' (foldedPassages nonce (i + 1) cs)) =
          writtenLabels nonce next (i + 1) cs := by
  have hbr : ∀ d ∈ "<>_UNTRSEDOCM ".toList, d ≠ '[' := by simp
  have hopen : '[' ∉ '\n' :: openTag nonce := by
    rw [List.mem_cons, not_or]
    refine ⟨by decide, fun h => ?_⟩
    rcases mem_openTag h with h | h
    · exact hbr _ h rfl
    · exact absurd h (by decide)
  generalize hrest : foldedPassages nonce (i + 1) cs = rest
  generalize hmid : pos + ('\n' :: openTag nonce).length = mid
  generalize hbefore : ('\n' :: openTag nonce).reverse ++ before = behind
  rw [show '\n' :: (openTag nonce ++ (foldedBody c ++ (closeTag nonce ++ rest))) =
    ('\n' :: openTag nonce) ++ (foldedBody c ++ (closeTag nonce ++ rest)) by rfl,
    skip_without (fun w => citationLabel_head) hopen, hmid, hbefore]
  have hpos : next = mid + (foldedBody c).length + (closeTag nonce).length := by
    rw [hnext, ← hmid, List.length_cons]
    omega
  have hskip : Regex.search citationLabel (joinedFields c) = false →
      matchesFrom citationLabel mid behind (foldedBody c ++ (closeTag nonce ++ rest)) =
        matchesFrom citationLabel next ((closeTag nonce).reverse ++ ((foldedBody c).reverse ++ behind))
          rest := by
    intro hno
    rw [matchesFrom_skip fun u₁ u₂ hu hne => ?_,
      skip_without (fun w => citationLabel_head) (closeTag_tag nonce).noBracket, hpos]
    by_contra hends
    obtain ⟨w, hw, hpre⟩ := (ends_ne_nil_iff citationLabel_plain).1 hends
    rw [label_in_body.1 ⟨u₁, u₂, w, hu, hne, hw, hpre⟩] at hno
    exact absurd hno (by decide)
  constructor
  · intro h
    have hno : Regex.search citationLabel (joinedFields c) = false := by
      rw [Bool.eq_false_iff]
      intro hyes
      obtain ⟨u₁, u₂, w, hu, hne, hw, hpre⟩ := (@label_in_body nonce c rest).2 hyes
      have hlen := List.length_pos_iff.2 hne
      have hbody : (foldedBody c).length = u₁.length + u₂.length := by rw [hu, List.length_append]
      -- every match starts in a later passage, so no position of the body is covered
      have hends : citationLabel.ends ⟨u₁.reverse ++ behind, u₂ ++ (closeTag nonce ++ rest), []⟩ = [] := by
        refine ends_of_uncovered citationLabel_not_nil mid rfl ?_
        rw [← List.append_assoc, ← hu]
        rintro m hm ⟨hstart, -⟩
        have hspan : (m.start, m.stop) ∈ writtenLabels nonce next (i + 1) cs := by
          rw [← h]
          exact List.mem_map.2 ⟨m, hm, rfl⟩
        have := le_of_mem_writtenLabels cs hspan
        dsimp only at this
        omega
      exact (ends_ne_nil_iff citationLabel_plain
        (s := ⟨u₁.reverse ++ behind, u₂ ++ (closeTag nonce ++ rest), []⟩)).2 ⟨w, hw, hpre⟩ hends
    exact ⟨hno, _, rfl, by rw [← hskip hno]; exact h⟩
  · rintro ⟨hno, before', rfl, h⟩
    rw [hskip hno]
    exact h

/-- The label pattern finds in the folded passages exactly the labels, iff they have at most three digits
and no passage spells another. -/
theorem labels_iff (nonce : Nonce) (cs : List Context) : ∀ (pos i : Nat) (before : List Char),
    spans (matchesFrom citationLabel pos before (foldedPassages nonce i cs)) =
        writtenLabels nonce pos i cs ↔
      (cs ≠ [] → i + cs.length < 1000) ∧
        ∀ c ∈ cs, Regex.search citationLabel (joinedFields c) = false := by
  induction cs with
  | nil =>
    intro pos i before
    have hnil : foldedPassages nonce i [] = [] := rfl
    rw [hnil, matchesFrom_nil citationLabel_not_nil]
    simp [spans, writtenLabels]
  | cons c cs ih =>
    intro pos i before
    have hsep : '[' ∉ separator i := by
      unfold separator
      split <;> simp
    have hlabel : label i ≠ [] := by simp [label]
    rw [foldedPassages_cons, skip_without (fun w => citationLabel_head) hsep, writtenLabels]
    by_cases hi : i + 1 < 1000
    · rw [spans_take hlabel (label_takes hi), List.cons.injEq, eq_self_iff_true, true_and,
        spans_after_label_iff nonce c cs rfl, List.forall_mem_cons, List.length_cons]
      constructor
      · rintro ⟨hno, before', -, h⟩
        obtain ⟨hlen, hcs⟩ := (ih _ _ _).1 h
        refine ⟨fun _ => ?_, hno, hcs⟩
        by_cases hnil : cs = []
        · rw [hnil, List.length_nil]
          omega
        · have := hlen hnil
          omega
      · rintro ⟨hlen, hno, hcs⟩
        have hlen' := hlen (by simp)
        exact ⟨hno, _, rfl, (ih _ _ _).2 ⟨fun _ => by omega, hcs⟩⟩
    · -- the label of a passage past the 999th is not matched at all
      constructor
      · intro h
        exfalso
        generalize hms : matchesFrom citationLabel (pos + (separator i).length)
          ((separator i).reverse ++ before) (label i ++ ('\n' :: (openTag nonce ++ (foldedBody c ++
            (closeTag nonce ++ foldedPassages nonce (i + 1) cs))))) = ms at h
        cases ms with
        | nil => exact absurd h (by simp [spans])
        | cons m ms =>
          obtain ⟨u, w, rest, hsplit, hw, hstart, hstop⟩ :=
            match_sound citationLabel_not_nil (hms ▸ List.mem_cons_self)
          have h₁ : m.start = pos + (separator i).length := congrArg Prod.fst (List.cons.inj h).1
          have h₂ : m.stop = pos + (separator i).length + (label i).length :=
            congrArg Prod.snd (List.cons.inj h).1
          have hu : u = [] := List.length_eq_zero_iff.1 (by omega)
          rw [hu, List.nil_append] at hsplit
          have hlw := (List.append_inj hsplit (by omega)).1
          exact hi (label_lang (hlw ▸ hw))
      · rintro ⟨hlen, -⟩
        have := hlen (by simp)
        rw [List.length_cons] at this
        omega

/-! ## The block -/

/-- In the folded block the patterns find exactly the tags and the labels that the renderer wrote, iff the
labels have at most three digits and no passage joins its fields into another piece of the grammar. -/
theorem markers_as_written_iff (nonce : Nonce) (contexts : List Context) :
    (spans (finditer fenceMarker (fold (renderContext contexts nonce))) = writtenTags nonce 0 0 contexts ∧
      spans (finditer citationLabel (fold (renderContext contexts nonce))) =
        writtenLabels nonce 0 0 contexts) ↔
    contexts.length < 1000 ∧ ∀ c ∈ contexts, Seamless c := by
  have htags := tags_iff nonce contexts 0 0 []
  have hlabels := labels_iff nonce contexts 0 0 []
  rw [foldedPassages, ← renderContext_eq, Nat.zero_add] at hlabels
  rw [foldedPassages, ← renderContext_eq] at htags
  rw [finditer, finditer, ← matchesFrom, ← matchesFrom, htags, hlabels]
  constructor
  · rintro ⟨hm, hlen, hl⟩
    refine ⟨?_, fun c hc => ⟨hm c hc, hl c hc⟩⟩
    by_cases hnil : contexts = []
    · rw [hnil]
      decide
    · exact hlen hnil
  · rintro ⟨hlen, hs⟩
    exact ⟨fun c hc => (hs c hc).1, fun _ => hlen, fun c hc => (hs c hc).2⟩

/-- `_no_control_characters`. -/
def noControlCharacters (path : String) : Bool :=
  !path.toList.any fun c => c < ' ' || c == '\u007f' || isInvisible c

/-- A path that ends in an open bracket, and a text that begins with the rest of a label. -/
def straddlingContext : Context := ⟨0, 0, "1] as decided in minute 7.", "minutes[", 0⟩

/-- The nonce of a request. -/
def someNonce : Nonce := ⟨['0', '1', '2', '3', 'a', 'b', 'c', 'd'], rfl, by simp [isHex]⟩

/-- The upload accepts the path, and the block has a label that the renderer did not write. -/
theorem field_seam_spells_label : noControlCharacters straddlingContext.path = true ∧
    ¬ (spans (finditer fenceMarker (fold (renderContext [straddlingContext] someNonce))) =
        writtenTags someNonce 0 0 [straddlingContext] ∧
      spans (finditer citationLabel (fold (renderContext [straddlingContext] someNonce))) =
        writtenLabels someNonce 0 0 [straddlingContext]) := by
  rw [fold_of_all_ascii (by decide)]
  decide

end KnowledgeDesk.Proofs
