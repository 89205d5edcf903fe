import KnowledgeDesk.Lib.RegexSub
import KnowledgeDesk.Lib.Words
import KnowledgeDesk.Proofs.BillingProofs
import KnowledgeDesk.Proofs.QuotedPiecesProofs

/-!
# Proofs: the keyless provider's answer under the output checks

`MockAnswerProvider` quotes the first words of the first passage after its path. The checks find nothing
in that answer iff the path and those words carry nothing that the checks object to, and the quotation
marks of the answer are read so that every citation has a quote.
-/

namespace KnowledgeDesk.Proofs

open Regex Normalize Providers OutputChecks

/-! ## What the answer says -/

/-- The answer as it arrives: the texts of the stream's tokens, one after the other. -/
def mockSaid (nonce : Nonce) (question : String) (contexts : List Context) : List Char :=
  (String.join (texts ((mockAnswerProvider nonce).stream question contexts).events)).toList

/-- The path as the checks read it: runs of white space as one space, folded. -/
def shownPath (c : Context) : List Char := fold (PyText.squeeze c.path.toList)

/-- The first eight words of the passage. -/
def firstWords (c : Context) : List Char := [' '].intercalate ((PyText.split c.text.toList).take 8)

/-- The words that the answer quotes, as the checks read them. -/
def evidence (c : Context) : List Char := fold (firstWords c)

/-- The part of the answer that comes from the passage. -/
def sentence (c : Context) : List Char :=
  "[1] (".toList ++ (shownPath c ++ ("): \"".toList ++ (evidence c ++ "\". ".toList)))

def banner : List Char :=
  "[MOCK] no answer-model key set; this reply is not model-generated. Based on the ".toList

def introduction : List Char := " retrieved passage(s), the most relevant source is ".toList

/-- The part of the answer that does not. -/
def preamble (n : Nat) : List Char := banner ++ ((toString n).toList ++ introduction)

theorem mockAnswer_cons (c : Context) (cs : List Context) : mockAnswer (c :: cs) =
    preamble (cs.length + 1) ++ ("[1] (".toList ++ (c.path.toList ++ ("): \"".toList ++
      (firstWords c ++ "\".".toList)))) := by
  have hbanner : ∀ rest, MOCK_BANNER.toList ++ (" Based on the ".toList ++ rest) = banner ++ rest := by
    intro rest
    have h : MOCK_BANNER ++ " Based on the " =
      "[MOCK] no answer-model key set; this reply is not model-generated. Based on the " := by decide
    rw [← List.append_assoc, ← String.toList_append]
    exact congrArg (fun s : String => s.toList ++ rest) h
  have hpassages : ∀ rest, " retrieved passage(s), ".toList ++
      ("the most relevant source is [1] (".toList ++ rest) = introduction ++ ("[1] (".toList ++ rest) := by
    intro rest
    have h : " retrieved passage(s), " ++ "the most relevant source is [1] (" =
      " retrieved passage(s), the most relevant source is " ++ "[1] (" := by decide
    have happend : ∀ {a b c d : String}, a ++ b = c ++ d →
        a.toList ++ (b.toList ++ rest) = c.toList ++ (d.toList ++ rest) := by
      intro a b c d heq
      rw [← List.append_assoc, ← String.toList_append, heq, String.toList_append, List.append_assoc]
    exact happend h
  have hquote : ∀ rest, "): ".toList ++ '"' :: rest = "): \"".toList ++ rest := by simp
  have hid : ∀ s : String, toString s = s := fun _ => rfl
  unfold mockAnswer preamble firstWords
  simp only [hid, List.head?_cons, Option.map_some, Option.getD_some, List.length_cons, String.toList_append,
    List.append_assoc, List.cons_append]
  rw [hbanner, hpassages, hquote]

/-- Words with a space after each. -/
theorem flatMap_words {ws : List (List Char)} (h : ws ≠ []) :
    ws.flatMap (· ++ [' ']) = [' '].intercalate ws ++ [' '] := by
  induction ws with
  | nil => exact absurd rfl h
  | cons w ws ih =>
    rw [List.flatMap_cons]
    by_cases hws : ws = []
    · subst hws
      simp
    · rw [ih hws, PyText.join_cons hws]
      simp

theorem mockSaid_eq (nonce : Nonce) (question : String) (contexts : List Context) :
    mockSaid nonce question contexts = (PyText.split (mockAnswer contexts)).flatMap (· ++ [' ']) := by
  have htexts : texts ((mockAnswerProvider nonce).stream question contexts).events =
      (PyText.split (mockAnswer contexts)).map fun word => .ofList (word ++ [' ']) := by
    rw [mockAnswerProvider, texts, List.filterMap_append, List.filterMap_map]
    simp
  unfold mockSaid
  rw [htexts]
  generalize PyText.split (mockAnswer contexts) = words
  rw [String.toList_join, List.flatMap_map]
  simp only [String.toList_ofList]

/-! ## How the checks read it -/

theorem preamble_ascii (n : Nat) : ∀ c ∈ preamble n, c.toNat < 128 := by
  intro c hc
  simp only [preamble, List.mem_append] at hc
  rcases hc with hc | hc | hc
  · have hall : banner.all (fun c => decide (c.toNat < 128)) = true := by decide
    exact of_decide_eq_true (List.all_eq_true.1 hall c hc)
  · exact lt_of_le_of_lt (Char.isDigit_iff_toNat.1 (PyText.isDigit_toString hc)).2 (by decide)
  · have hall : introduction.all (fun c => decide (c.toNat < 128)) = true := by decide
    exact of_decide_eq_true (List.all_eq_true.1 hall c hc)

theorem squeeze_preamble (n : Nat) : PyText.squeeze (preamble n) = preamble n := by
  have hbanner : PyText.squeeze banner = banner := by decide
  have hintroduction : PyText.squeeze introduction = introduction := by decide
  have hdigits : ∀ c ∈ (toString n).toList, PyText.isSpace c = false := fun c hc =>
    (PyText.isDigit_py (PyText.isDigit_toString hc)).2
  have hne : (toString n).toList ≠ [] := by
    rw [Nat.toString_eq_repr, Nat.toList_repr]
    exact Nat.toDigits_ne_nil
  have hlast : ∃ c ∈ (toString n).toList.getLast?, PyText.isSpace c = false :=
    ⟨_, List.getLast?_eq_some_getLast hne, hdigits _ (List.getLast_mem hne)⟩
  have hhead : ∀ c ∈ ((toString n).toList ++ introduction).head?, PyText.isSpace c = false := by
    intro c hc
    rw [List.head?_append_of_ne_nil _ hne] at hc
    exact hdigits c (List.mem_of_mem_head? hc)
  rw [preamble, PyText.squeeze_append_head hhead, PyText.squeeze_append_last hlast, PyText.squeeze_word hdigits,
    hbanner, hintroduction]

theorem squeeze_mockAnswer (c : Context) (cs : List Context) :
    PyText.squeeze (mockAnswer (c :: cs)) = preamble (cs.length + 1) ++ ("[1] (".toList ++
      (PyText.squeeze c.path.toList ++ ("): \"".toList ++ (firstWords c ++ "\".".toList)))) := by
  have hopen : PyText.squeeze "[1] (".toList = "[1] (".toList := by decide
  have hmiddle : PyText.squeeze "): \"".toList = "): \"".toList := by decide
  have hclose : PyText.squeeze "\".".toList = "\".".toList := by decide
  have hwords : PyText.squeeze (firstWords c) = firstWords c :=
    PyText.squeeze_join fun w hw => PyText.areWords_split _ w (List.mem_of_mem_take hw)
  rw [mockAnswer_cons, PyText.squeeze_append_head (by simp; decide), PyText.squeeze_append_last (by simp; decide),
    PyText.squeeze_append_head (by simp; decide), PyText.squeeze_append_last (by simp; decide),
    PyText.squeeze_append_head (by simp; decide), squeeze_preamble, hopen, hmiddle, hclose, hwords]

/-- What the checks see of the answer. -/
theorem fold_mockSaid (nonce : Nonce) (question : String) (c : Context) (cs : List Context) :
    fold (mockSaid nonce question (c :: cs)) = preamble (cs.length + 1) ++ sentence c := by
  have hhead : ∀ d ∈ (mockAnswer (c :: cs)).head?, PyText.isSpace d = false := by
    have hbanner : ∃ rest, banner = '[' :: rest := ⟨banner.tail, by decide⟩
    obtain ⟨rest, hrest⟩ := hbanner
    rw [mockAnswer_cons, preamble, hrest]
    simp
    decide
  have hlast : ∀ d ∈ (mockAnswer (c :: cs)).getLast?, PyText.isSpace d = false := by
    have hdot : "\".".toList = ['"', '.'] := by decide
    rw [mockAnswer_cons, hdot]
    simp only [List.getLast?_append, List.getLast?_cons_cons, List.getLast?_singleton, Option.some_or]
    intro d hd
    rw [← Option.some.inj hd]
    decide
  have hcollapse := PyText.collapse_eq_squeeze hhead hlast
  rw [squeeze_mockAnswer, PyText.collapse] at hcollapse
  have hne : PyText.split (mockAnswer (c :: cs)) ≠ [] := by
    intro hnil
    rw [hnil, List.intercalate_nil] at hcollapse
    simp at hcollapse
  have hclose : "\".".toList ++ [' '] = "\". ".toList := by decide
  have hfold : fold "[1] (".toList = "[1] (".toList ∧ fold "): \"".toList = "): \"".toList ∧
      fold "\". ".toList = "\". ".toList := ⟨fold_ascii (by simp), fold_ascii (by simp), fold_ascii (by simp)⟩
  rw [mockSaid_eq, flatMap_words hne, hcollapse]
  simp only [List.append_assoc, hclose, fold_append, fold_ascii (preamble_ascii _), hfold.1, hfold.2.1,
    hfold.2.2]
  rfl

/-! ## When nothing is found -/

/-- The numbers cited in a text. -/
def citedIn (text : List Char) : List Nat := (finditer CITATION text).map citedNumber

theorem mem_citedIn {text : List Char} {k : Nat} :
    k ∈ citedIn text ↔ ∃ w, w <:+: text ∧ CITATION.Lang w ∧ numberOf w = k := by
  rw [citedIn, List.mem_map]
  constructor
  · rintro ⟨m, hm, rfl⟩
    obtain ⟨u, w, rest, rfl, hw, -, -, hnumber⟩ := mem_finditer_citation hm
    exact ⟨w, ⟨u, rest, List.append_assoc ..⟩, hw, hnumber.symm⟩
  · rintro ⟨w, ⟨u, rest, rfl⟩, hw, rfl⟩
    exact citation_found (List.append_assoc ..) hw

theorem report_eq_nil {α : Type} {code : String} {found : List α} {detail : List α → String} :
    report code found detail = [] ↔ found = [] := by
  rw [report]
  cases found <;> simp

theorem guarded_eq_nil {b : Bool} : (if b = true then [()] else []) = [] ↔ b = false := by
  cases b <;> simp

/-- Every number cited is that of a passage and has a quote, the quotes are in the passages, and none of
the other patterns is in the answer. -/
theorem checkAnswer_eq_nil (env : Env) (answer : List Char) (contexts : List Context) :
    checkAnswer env answer contexts = [] ↔
      (∀ k ∈ citedIn (fold answer), inRange contexts k = true ∧
        k ∈ (finditer CITED_QUOTE (fold answer)).map citedNumber) ∧
      unsupported env (fold answer) contexts = [] ∧ markerShaped (fold answer) = false ∧
      PyText.contains (fold answer) SYSTEM_CANARY.toList = false ∧
      finditer MD_IMAGE (fold answer) = [] ∧ finditer MD_LINK (fold answer) = [] := by
  unfold checkAnswer
  simp only [List.append_eq_nil_iff, report_eq_nil, sortedSet_eq_nil, guarded_eq_nil, List.map_eq_nil_iff,
    List.filter_eq_nil_iff]
  rw [← citedIn]
  constructor
  · rintro ⟨⟨⟨⟨⟨⟨hbad, hunsupported⟩, hunquoted⟩, hmarker⟩, hcanary⟩, himage⟩, hlink⟩
    refine ⟨fun k hk => ?_, hunsupported, hmarker, hcanary, himage, hlink⟩
    have hrange : inRange contexts k = true := by simpa using hbad k hk
    refine ⟨hrange, ?_⟩
    simpa [hrange] using hunquoted k hk
  · rintro ⟨hcited, hunsupported, hmarker, hcanary, himage, hlink⟩
    refine ⟨⟨⟨⟨⟨⟨fun k hk => ?_, hunsupported⟩, fun k hk => ?_⟩, hmarker⟩, hcanary⟩, himage⟩, hlink⟩
    · simp [(hcited k hk).1]
    · simp [(hcited k hk).2]

theorem bracketed_not_nil : ¬ bracketed.Lang [] := not_lang_nil_of_char

theorem bracketed_plain : bracketed.Plain :=
  ⟨trivial, char_plain _, trivial, trivial, char_plain _, char_plain _⟩

/-- No image and no link: nowhere a bracketed text with an address after it. -/
theorem no_links_iff {text : List Char} : finditer MD_IMAGE text = [] ∧ finditer MD_LINK text = [] ↔
    Regex.search bracketed text = false := by
  have himage : ¬ MD_IMAGE.Lang [] := by
    rintro ⟨u, v, ⟨c, -, rfl⟩, -, hnil⟩
    cases hnil
  have hlink : ¬ MD_LINK.Lang [] := by
    rintro ⟨u, v, rfl, hv, hnil⟩
    exact bracketed_not_nil (hnil ▸ hv)
  have hnil : ∀ r : Re, finditer r text = [] ↔ Regex.search r text = false := fun r => by
    rw [Regex.search, Bool.not_eq_false', List.isEmpty_iff]
  rw [hnil, hnil, search_eq_false_iff himage, search_eq_false_iff hlink,
    search_eq_false_iff bracketed_not_nil]
  have hlink' : ∀ s : State, MD_LINK.ends s = if s.before.head? != some '!' then bracketed.ends s else [] := by
    intro s
    rw [MD_LINK, Re.ends, notAfter, Re.ends]
    split <;> simp
  constructor
  · rintro ⟨hi, hl⟩ u v rfl
    by_cases hbang : u.reverse.head? = some '!'
    · -- what follows an exclamation mark is an image
      rw [List.head?_reverse] at hbang
      obtain ⟨u', rfl⟩ := List.getLast?_eq_some_iff.1 hbang
      have := hi u' ('!' :: v) (by simp)
      rw [MD_IMAGE, Re.ends, List.flatMap_eq_nil_iff] at this
      rw [List.reverse_append]
      exact this ⟨'!' :: u'.reverse, v, []⟩ (by simp [Re.ends])
    · have := hl u v rfl
      rwa [hlink', if_pos (by simpa using hbang)] at this
  · intro h
    refine ⟨fun u v hsplit => ?_, fun u v hsplit => ?_⟩
    · rw [MD_IMAGE, Re.ends, List.flatMap_eq_nil_iff]
      intro s hs
      rw [Re.ends] at hs
      cases v with
      | nil => exact absurd hs List.not_mem_nil
      | cons c v =>
        simp only at hs
        split at hs
        · rename_i hc
          rw [List.mem_singleton.1 hs]
          have := h (u ++ [c]) v (by rw [hsplit]; simp)
          rwa [List.reverse_append] at this
        · exact absurd hs List.not_mem_nil
    · rw [hlink', h u v hsplit, ite_self]

/-! ## What the words around the passage contribute -/

/-- The words before the citation: one square bracket, at the start, and no character that the prompt's
grammar begins with. -/
theorem preamble_shape (n : Nat) : ∃ rest, preamble n = '[' :: ("MOCK".toList ++ ']' :: ' ' :: rest) ∧
    ∀ c ∈ rest, c ≠ '[' ∧ c ≠ '<' ∧ c ≠ 'T' := by
  have hbanner : banner = '[' :: ("MOCK".toList ++ ']' :: ' ' :: banner.drop 7) := by decide
  refine ⟨banner.drop 7 ++ ((toString n).toList ++ introduction), ?_, fun c hc => ?_⟩
  · rw [preamble]
    generalize (toString n).toList ++ introduction = after
    rw [hbanner]
    simp
  · have hclass : ∀ l : List Char, (l.all fun c => c != '[' && c != '<' && c != 'T') = true →
        c ∈ l → c ≠ '[' ∧ c ≠ '<' ∧ c ≠ 'T' := fun l hl hm => by
      simpa [and_assoc] using List.all_eq_true.1 hl c hm
    rcases List.mem_append.1 hc with hc | hc
    · exact hclass _ (by decide) hc
    · rcases List.mem_append.1 hc with hc | hc
      · have hdigit := PyText.isDigit_toString hc
        refine ⟨?_, ?_, ?_⟩ <;> (rintro rfl; exact absurd hdigit (by decide))
      · exact hclass _ (by decide) hc

theorem citation_head {w : List Char} (hw : CITATION.Lang w) :
    ∃ d v, w = '[' :: d :: v ∧ (PyText.isSpace d = true ∨ PyText.isDigit d = true) := by
  obtain ⟨a, d, b, ha, hd, -, hlo, -, rfl⟩ := citation_lang.1 hw
  cases a with
  | cons c a => exact ⟨c, _, rfl, .inl (ha c List.mem_cons_self)⟩
  | nil =>
    cases d with
    | nil => exact absurd hlo (by decide)
    | cons c d => exact ⟨c, _, rfl, .inr (hd c List.mem_cons_self)⟩

/-- No citation begins in those words. -/
theorem no_citation_in_preamble {n : Nat} {u v rest w x : List Char} (hsplit : preamble n = u ++ v)
    (hne : v ≠ []) (hw : v ++ rest = w ++ x) : ¬ CITATION.Lang w := by
  intro hlang
  obtain ⟨d, w, rfl, hd⟩ := citation_head hlang
  obtain ⟨after, hshape, hafter⟩ := preamble_shape n
  rw [hshape] at hsplit
  cases u with
  | nil =>
    rw [List.nil_append] at hsplit
    rw [← hsplit] at hw
    have hmock : "MOCK".toList = 'M' :: "OCK".toList := by simp
    rw [hmock] at hw
    simp only [List.cons_append, List.cons.injEq] at hw
    obtain rfl := hw.2.1
    revert hd
    decide
  | cons e u =>
    obtain ⟨c, v, rfl⟩ := List.exists_cons_of_ne_nil hne
    obtain rfl : c = '[' := by simpa using congrArg List.head? hw
    have hmem : '[' ∈ "MOCK".toList ++ ']' :: ' ' :: after := by
      rw [(List.cons.inj hsplit).2]
      exact List.mem_append_right u List.mem_cons_self
    rcases List.mem_append.1 hmem with hmem | hmem
    · exact absurd hmem (by decide)
    · simp only [List.mem_cons] at hmem
      rcases hmem with h | h | h
      · exact absurd h (by decide)
      · exact absurd h (by decide)
      · exact (hafter _ h).1 rfl

theorem citedIn_preamble {n k : Nat} {rest : List Char} : k ∈ citedIn (preamble n ++ rest) ↔ k ∈ citedIn rest := by
  rw [mem_citedIn, mem_citedIn]
  constructor
  · rintro ⟨w, ⟨u, x, h⟩, hw, hk⟩
    refine ⟨w, ?_, hw, hk⟩
    rw [List.append_assoc] at h
    rcases List.append_eq_append_iff.1 h with ⟨v, hpre, hrest⟩ | ⟨v, -, hrest⟩
    · by_cases hv : v = []
      · subst hv
        exact ⟨[], x, by simpa using hrest⟩
      · exact absurd hw (no_citation_in_preamble hpre hv hrest.symm)
    · exact ⟨v, x, by rw [hrest, List.append_assoc]⟩
  · rintro ⟨w, hw, hlang⟩
    exact ⟨w, hw.trans (List.suffix_append _ _).isInfix, hlang⟩

/-- A text can be cut, for the purpose of citations, at a character that no citation has. -/
theorem citedIn_cut {u v : List Char} {c : Char} {k : Nat}
    (hc : c ≠ '[' ∧ c ≠ ']' ∧ PyText.isSpace c = false ∧ PyText.isDigit c = false) :
    k ∈ citedIn (u ++ c :: v) ↔ k ∈ citedIn u ∨ k ∈ citedIn v := by
  have hnot : ∀ {w}, CITATION.Lang w → c ∉ w := by
    intro w hw hm
    obtain ⟨a, d, b, ha, hd, hb, -, -, rfl⟩ := citation_lang.1 hw
    obtain ⟨h₁, h₂, h₃, h₄⟩ := hc
    simp only [List.mem_cons, List.mem_append, List.not_mem_nil, or_false] at hm
    rcases hm with hm | hm | hm | hm | hm
    · exact h₁ hm
    · rw [ha c hm] at h₃
      cases h₃
    · rw [hd c hm] at h₄
      cases h₄
    · rw [hb c hm] at h₃
      cases h₃
    · exact h₂ hm
  simp only [mem_citedIn]
  constructor
  · rintro ⟨w, hin, hw, hk⟩
    exact ((PyText.infix_cut (hnot hw)).1 hin).imp (fun h => ⟨w, h, hw, hk⟩) fun h => ⟨w, h, hw, hk⟩
  · rintro (⟨w, hin, hw, hk⟩ | ⟨w, hin, hw, hk⟩)
    · exact ⟨w, (PyText.infix_cut (hnot hw)).2 (.inl hin), hw, hk⟩
    · exact ⟨w, (PyText.infix_cut (hnot hw)).2 (.inr hin), hw, hk⟩

/-- The numbers that the answer cites. -/
theorem mem_citedIn_answer {n k : Nat} {c : Context} : k ∈ citedIn (preamble n ++ sentence c) ↔
    k ∈ 1 :: (citedIn (shownPath c) ++ citedIn (evidence c)) := by
  have hsentence : sentence c = "[1] ".toList ++ '(' :: (shownPath c ++ ')' :: (": ".toList ++
      '"' :: (evidence c ++ '"' :: ". ".toList))) := by
    rw [sentence]
    simp
  have hnumbers : citedIn "[1] ".toList = [1] ∧ citedIn ": ".toList = [] ∧ citedIn ". ".toList = [] := by
    decide
  rw [citedIn_preamble, hsentence, citedIn_cut (by decide), citedIn_cut (by decide), citedIn_cut (by decide),
    citedIn_cut (by decide), hnumbers.1, hnumbers.2.1, hnumbers.2.2]
  simp

/-- The words before the path lack what opens a marker or the canary. -/
theorem preamble_lacks (n : Nat) : '<' ∉ preamble n ++ "[1] (".toList ∧ 'T' ∉ preamble n ++ "[1] (".toList := by
  obtain ⟨after, hshape, hafter⟩ := preamble_shape n
  have hmock : "MOCK".toList = ['M', 'O', 'C', 'K'] := by simp
  have hopen : "[1] (".toList = ['[', '1', ']', ' ', '('] := by simp
  rw [hshape, hmock, hopen]
  constructor <;>
  · intro hm
    simp only [List.mem_append, List.mem_cons, List.not_mem_nil, or_false, List.cons_append, List.nil_append] at hm
    simp at hm
    exact absurd rfl (by first | exact (hafter _ hm).2.1 | exact (hafter _ hm).2.2)

theorem fenceMarker_last {w : List Char} (hw : fenceMarker.Lang w) : w.getLast? = some '>' := by
  have hparts : fenceMarker = seqs ([plus (.char (· == '<')), star space, opt (.char (· == '/')), star space,
      opt (.seq (litIgnoreCase "END") (star joint)), litIgnoreCase "UNTRUSTED", star joint,
      litIgnoreCase "DOCUMENT", star (.char (· != '>'))] ++ [plus (.char (· == '>'))]) := rfl
  rw [hparts] at hw
  obtain ⟨u, v, -, hv, rfl⟩ := lang_seqs_append.1 hw
  obtain ⟨hall, hne⟩ := lang_plus_char.1 hv
  have hlast : v.getLast hne = '>' := by simpa using hall _ (List.getLast_mem hne)
  rw [List.getLast?_append, List.getLast?_eq_some_getLast hne, hlast, Option.some_or]

/-- A marker in the answer lies between the path's first character and the evidence's last. -/
theorem markerShaped_answer (n : Nat) (c : Context) : markerShaped (preamble n ++ sentence c) =
    markerShaped (shownPath c ++ ("): \"".toList ++ evidence c)) := by
  have hparts : preamble n ++ sentence c = preamble n ++ "[1] (".toList ++
      (shownPath c ++ ("): \"".toList ++ evidence c) ++ "\". ".toList) := by
    rw [sentence]
    simp only [List.append_assoc]
  have hclose : '>' ∉ "\". ".toList := by simp
  rw [Bool.eq_iff_iff, markerShaped, markerShaped, search_iff_infix fenceMarker_not_nil fenceMarker_plain,
    search_iff_infix fenceMarker_not_nil fenceMarker_plain, hparts]
  refine exists_congr fun w => and_congr_left fun hw => ?_
  rw [PyText.infix_skip (fenceMarker_head hw) (preamble_lacks n).1,
    PyText.infix_skip_last (fenceMarker_last hw) hclose]

/-- The canary stands in the answer only where it stands in the path or in the evidence. -/
theorem canary_answer (n : Nat) (c : Context) :
    PyText.contains (preamble n ++ sentence c) SYSTEM_CANARY.toList = true ↔
      PyText.contains (shownPath c) SYSTEM_CANARY.toList = true ∨
        PyText.contains (evidence c) SYSTEM_CANARY.toList = true := by
  have hparts : preamble n ++ sentence c = preamble n ++ "[1] (".toList ++ (shownPath c ++ ')' ::
      (": \"".toList ++ (evidence c ++ '"' :: ". ".toList))) := by
    rw [sentence]
    simp
  have hhead : SYSTEM_CANARY.toList.head? = some 'T' := by decide
  have hno : ')' ∉ SYSTEM_CANARY.toList ∧ '"' ∉ SYSTEM_CANARY.toList := by decide
  have hlong : ¬ SYSTEM_CANARY.toList <:+: ". ".toList := fun h =>
    absurd h.length_le (by decide)
  rw [PyText.contains_iff, PyText.contains_iff, PyText.contains_iff, hparts,
    PyText.infix_skip hhead (preamble_lacks n).2, PyText.infix_cut hno.1, PyText.infix_skip hhead (by simp),
    PyText.infix_cut hno.2, or_iff_left hlong]

theorem bracketed_head {w : List Char} (hw : bracketed.Lang w) :
    ∃ x z, w = '[' :: (x ++ ']' :: '(' :: z) ∧ ']' ∉ x := by
  obtain ⟨u₁, v₁, ⟨c₁, hc₁, rfl⟩, h₁, rfl⟩ := lang_seqs_cons.1 hw
  obtain ⟨x, v₂, hx, h₂, rfl⟩ := lang_seqs_cons.1 h₁
  obtain ⟨u₃, v₃, ⟨c₃, hc₃, rfl⟩, h₃, rfl⟩ := lang_seqs_cons.1 h₂
  obtain ⟨u₄, z, ⟨c₄, hc₄, rfl⟩, -, rfl⟩ := lang_seqs_cons.1 h₃
  obtain rfl : c₁ = '[' := by simpa using hc₁
  obtain rfl : c₃ = ']' := by simpa using hc₃
  obtain rfl : c₄ = '(' := by simpa using hc₄
  exact ⟨x, z, rfl, fun hm => absurd (lang_star_char.1 hx _ hm) (by decide)⟩

/-- A bracketed text with anything but a parenthesis after it is no link. -/
theorem bracketed_skip {w y rest : List Char} {c : Char} (hw : bracketed.Lang w) (hy : ']' ∉ y) (hc : c ≠ '(')
    (hout : '[' ∉ y ++ ']' :: [c]) :
    w <:+: '[' :: (y ++ ']' :: c :: rest) ↔ w <:+: rest := by
  obtain ⟨x, z, rfl, hx⟩ := bracketed_head hw
  have hsplit : y ++ ']' :: c :: rest = y ++ ']' :: [c] ++ rest := by simp
  rw [List.infix_cons_iff, or_iff_right, hsplit]
  · exact PyText.infix_skip rfl hout
  · rintro ⟨t, ht⟩
    have hcut : x ++ ']' :: ('(' :: z ++ t) = y ++ ']' :: (c :: rest) := by
      simpa using (List.cons.inj ht).2
    have hclass : ∀ l : List Char, ']' ∉ l → ∀ d ∈ l, (d != ']') = true := fun l hl d hd => by
      simpa using fun he : d = ']' => hl (he ▸ hd)
    obtain ⟨-, hrest⟩ := span_unique hcut (hclass x hx) (hclass y hy) (by simp) (by simp)
    simp only [List.cons_append, List.cons.injEq, true_and] at hrest
    exact hc hrest.1.symm

/-- A link in the answer begins in the path or in the evidence. -/
theorem links_answer (n : Nat) (c : Context) : Regex.search bracketed (preamble n ++ sentence c) =
    Regex.search bracketed (shownPath c ++ ("): \"".toList ++ (evidence c ++ "\". ".toList))) := by
  obtain ⟨after, hshape, hafter⟩ := preamble_shape n
  generalize hrest : shownPath c ++ ("): \"".toList ++ (evidence c ++ "\". ".toList)) = rest
  have hparts : preamble n ++ sentence c = '[' :: ("MOCK".toList ++ ']' :: ' ' ::
      (after ++ ('[' :: (['1'] ++ ']' :: ' ' :: (['('] ++ rest))))) := by
    rw [hshape, sentence, hrest]
    simp
  rw [Bool.eq_iff_iff, search_iff_infix bracketed_not_nil bracketed_plain,
    search_iff_infix bracketed_not_nil bracketed_plain, hparts]
  refine exists_congr fun w => and_congr_left fun hw => ?_
  obtain ⟨x, z, hw', -⟩ := bracketed_head hw
  have hhead : w.head? = some '[' := by
    rw [hw']
    rfl
  rw [bracketed_skip hw (by simp) (by decide) (by simp), PyText.infix_skip hhead fun hm => (hafter _ hm).1 rfl,
    bracketed_skip hw (by simp) (by decide) (by simp), PyText.infix_skip hhead (by simp)]

end KnowledgeDesk.Proofs
