import KnowledgeDesk.Lib.RegexWords
import KnowledgeDesk.Lib.Strip
import KnowledgeDesk.Proofs.RedactProofs
import KnowledgeDesk.Tenancy

/-!
# What redaction does to the ids of the audit log

The text of a uuid has no at sign, and no group of two or three characters between hyphens. Whole groups
of decimal digits add up to a card-shaped number in two ways: the first three, and the last two.
-/

open Regex

namespace KnowledgeDesk.Proofs

open Pii

variable {env : Env}

/-- The random part of a version-4 uuid, in the order of its text. -/
structure RandomUuid where
  timeLow : Fin 8 → Fin 16
  timeMid : Fin 4 → Fin 16
  timeHigh : Fin 3 → Fin 16
  variant : Fin 4
  clock : Fin 3 → Fin 16
  node : Fin 12 → Fin 16

/-- A lower-case hexadecimal digit. -/
def hexDigit (d : Fin 16) : Char := Nat.digitChar d

/-- The groups of the text: the third starts with the version, the fourth with the variant. -/
def RandomUuid.groups (u : RandomUuid) : List (List Char) :=
  [List.ofFn (hexDigit ∘ u.timeLow), List.ofFn (hexDigit ∘ u.timeMid),
    '4' :: List.ofFn (hexDigit ∘ u.timeHigh),
    hexDigit (u.variant.natAdd 8 |>.castLE (by omega)) :: List.ofFn (hexDigit ∘ u.clock),
    List.ofFn (hexDigit ∘ u.node)]

/-- The canonical text. -/
def RandomUuid.text (u : RandomUuid) : String := .ofList (['-'].intercalate u.groups)

/-- The first three groups, or the last two, are decimal. -/
def RandomUuid.CardShaped (u : RandomUuid) : Prop :=
  ((∀ i, u.timeLow i < 10) ∧ (∀ i, u.timeMid i < 10) ∧ ∀ i, u.timeHigh i < 10) ∨
    (u.variant < 2 ∧ (∀ i, u.clock i < 10) ∧ ∀ i, u.node i < 10)

/-- A group of decimal digits. -/
def Decimal (g : List Char) : Prop := ∀ c ∈ g, PyText.isDigit c = true

theorem isDigit_hexDigit : ∀ d : Fin 16, PyText.isDigit (hexDigit d) = true ↔ d < 10 := by decide

theorem hexDigit_alphanum : ∀ d : Fin 16, (hexDigit d).isAlphanum = true ∧ (hexDigit d).toNat < 128 := by
  decide

theorem decimal_ofFn {n : Nat} {f : Fin n → Fin 16} :
    Decimal (List.ofFn (hexDigit ∘ f)) ↔ ∀ i, f i < 10 := by
  simp only [Decimal, List.mem_ofFn, forall_exists_index, Function.comp_apply, forall_apply_eq_imp_iff,
    isDigit_hexDigit]

theorem decimal_cons {c : Char} {g : List Char} :
    Decimal (c :: g) ↔ PyText.isDigit c = true ∧ Decimal g := List.forall_mem_cons

theorem cardShaped_iff {u : RandomUuid} : u.CardShaped ↔
    (∀ g ∈ u.groups.take 3, Decimal g) ∨ ∀ g ∈ u.groups.drop 3, Decimal g := by
  have h4 : PyText.isDigit '4' = true := by decide
  have hv : ∀ v : Fin 4, PyText.isDigit (hexDigit (v.natAdd 8 |>.castLE (by omega))) = true ↔ v < 2 := by
    decide
  simp only [RandomUuid.groups, List.take_succ_cons, List.take_zero, List.drop_succ_cons, List.drop_zero,
    List.forall_mem_cons, decimal_ofFn, decimal_cons, h4, hv, true_and]
  simp [RandomUuid.CardShaped, and_assoc]

/-! ## The text of a uuid -/

/-- `str.isalnum` on ASCII. -/
def AsciiAlnum (env : Env) : Prop := ∀ c : Char, c.toNat < 128 → env.isAlnum c = c.isAlphanum

/-- The lengths of the groups. -/
def groupLengths : List Nat := [8, 4, 4, 4, 12]

theorem map_length_groups (u : RandomUuid) : u.groups.map List.length = groupLengths := by
  simp [RandomUuid.groups, groupLengths]

theorem hex_of_mem_group {u : RandomUuid} {g : List Char} (hg : g ∈ u.groups) {c : Char} (hc : c ∈ g) :
    ∃ d, c = hexDigit d := by
  have hofFn : ∀ {n : Nat} {f : Fin n → Fin 16}, c ∈ List.ofFn (hexDigit ∘ f) → ∃ d, c = hexDigit d := by
    intro n f h
    obtain ⟨i, hi⟩ := List.mem_ofFn.1 h
    exact ⟨f i, hi.symm⟩
  simp only [RandomUuid.groups, List.mem_cons, List.not_mem_nil, or_false] at hg
  rcases hg with rfl | rfl | rfl | rfl | rfl
  · exact hofFn hc
  · exact hofFn hc
  · rcases List.mem_cons.1 hc with rfl | hc
    · exact ⟨4, by decide⟩
    · exact hofFn hc
  · rcases List.mem_cons.1 hc with rfl | hc
    · exact ⟨_, rfl⟩
    · exact hofFn hc
  · exact hofFn hc

theorem isWord_of_ascii (henv : AsciiAlnum env) (d : Fin 16) : env.isWord (hexDigit d) = true := by
  obtain ⟨halnum, hascii⟩ := hexDigit_alphanum d
  rw [Env.isWord, henv _ hascii, halnum, Bool.true_or]

theorem words_groups (henv : AsciiAlnum env) (u : RandomUuid) : Words env.isWord u.groups := by
  intro g hg
  constructor
  · rintro rfl
    have hlen : (0 : Nat) ∈ u.groups.map List.length := List.mem_map.2 ⟨[], hg, rfl⟩
    rw [map_length_groups] at hlen
    revert hlen
    decide
  · intro c hc
    obtain ⟨d, rfl⟩ := hex_of_mem_group hg hc
    exact isWord_of_ascii henv d

/-! ## Runs of decimal groups -/

/-- Between `lo` and `hi` digits, and no other hexadecimal digit. -/
structure DigitCount (lo hi : Nat) (w : List Char) : Prop where
  hex : ∀ d, hexDigit d ∈ w → PyText.isDigit (hexDigit d) = true
  many : lo ≤ (w.filter PyText.isDigit).length ∧ (w.filter PyText.isDigit).length ≤ hi

theorem DigitCount.append {lo lo' hi hi' : Nat} {u v : List Char} (hu : DigitCount lo hi u)
    (hv : DigitCount lo' hi' v) : DigitCount (lo + lo') (hi + hi') (u ++ v) := by
  constructor
  · intro d hd
    exact (List.mem_append.1 hd).elim (hu.hex d) (hv.hex d)
  · have hu' := hu.many
    have hv' := hv.many
    rw [List.filter_append, List.length_append]
    omega

theorem digitCount_digits {n : Nat} {w : List Char} (h : (exactly n digit).Lang w) : DigitCount n n w := by
  obtain ⟨hall, hlo, hhi⟩ := lang_rep_char.1 h
  refine ⟨fun d hd => hall _ hd, ?_⟩
  rw [List.filter_eq_self.2 hall]
  exact ⟨hlo, hhi n rfl⟩

/-- A separator: neither a digit nor a hexadecimal digit. -/
theorem digitCount_separator {p : Char → Bool} (hdigit : ∀ c, p c = true → PyText.isDigit c = false)
    (hhex : ∀ d, p (hexDigit d) = false) {w : List Char} (h : (Re.char p).Lang w) : DigitCount 0 0 w := by
  obtain ⟨c, hc, rfl⟩ := h
  constructor
  · intro d hd
    rw [← List.mem_singleton.1 hd, hhex d] at hc
    cases hc
  · simp [hdigit c hc]

/-- How many digits `n` groups from the `i`-th on have. -/
def runLength (i n : Nat) : Nat := ((groupLengths.drop i).take n).sum

/-- A pattern of digits and separators between two `\b` matches whole decimal groups. -/
theorem groups_of_match (henv : AsciiAlnum env) {u : RandomUuid} {r : Re} {L : List Char → Prop}
    {lo hi : Nat} (hne : ¬ r.Lang []) (hr : r.Between L (boundary env.isWord))
    (hL : ∀ w, L w → DigitCount lo hi w ∧ ∃ c ∈ w.head?, c ≠ '-') (h : Regex.search r u.text.toList = true) :
    ∃ i n, i < 5 ∧ 0 < n ∧ n ≤ 5 - i ∧ (∀ g ∈ (u.groups.drop i).take n, Decimal g) ∧
      lo ≤ runLength i n ∧ runLength i n ≤ hi := by
  have hmatch : ∃ x y, ['-'].intercalate u.groups = x ++ y ∧ r.ends ⟨x.reverse, y, []⟩ ≠ [] := by
    by_contra hno
    have hnone : Regex.search r u.text.toList = false := by
      refine (search_eq_false_iff hne).2 fun x y hxy => ?_
      by_contra hends
      exact hno ⟨x, y, by rw [← hxy, RandomUuid.text, String.toList_ofList], hends⟩
    rw [hnone] at h
    cases h
  obtain ⟨x, y, hxy, hends⟩ := hmatch
  obtain ⟨w, i, n, hw, hi, hpos, hn, hcase⟩ :=
    hr.words (fun w hw => (hL w hw).2) (words_groups henv u) hxy hends
  have hrun := (hL w hw).1
  have hlen : u.groups.length = 5 := rfl
  have hsub : ∀ g ∈ (u.groups.drop i).take n, g ∈ u.groups := fun g hg =>
    List.mem_of_mem_drop (List.mem_of_mem_take hg)
  have hdec : ∀ g ∈ (u.groups.drop i).take n, Decimal g := by
    intro g hg c hc
    obtain ⟨d, rfl⟩ := hex_of_mem_group (hsub g hg) hc
    have hcw : hexDigit d ∈ w := by
      rcases hcase with rfl | rfl
      · exact subset_intercalate hg hc
      · exact List.mem_append_left _ (subset_intercalate hg hc)
    exact hrun.hex d hcw
  have hcount : (w.filter PyText.isDigit).length = runLength i n := by
    have hsep : (['-'] : List Char).filter PyText.isDigit = [] := by decide
    have hfilter : w.filter PyText.isDigit = ((u.groups.drop i).take n).flatMap (List.filter PyText.isDigit) := by
      rcases hcase with rfl | rfl
      · exact PyText.filter_intercalate hsep _
      · rw [List.filter_append, hsep, List.append_nil]
        exact PyText.filter_intercalate hsep _
    rw [hfilter, List.length_flatMap, runLength, ← map_length_groups u, ← List.map_drop, ← List.map_take]
    congr 1
    exact List.map_congr_left fun g hg => by rw [List.filter_eq_self.2 (hdec g hg)]
  refine ⟨i, n, by omega, hpos, by omega, hdec, ?_⟩
  rw [← hcount]
  exact hrun.many

/-- A text that starts with digits does not start with a hyphen. -/
theorem first_of_digits {n : Nat} (hn : 0 < n) {u v : List Char} (h : (exactly n digit).Lang u) :
    ∃ c ∈ (u ++ v).head?, c ≠ '-' := by
  obtain ⟨hall, hlo, -⟩ := lang_rep_char.1 h
  obtain ⟨c, u, rfl⟩ := List.exists_cons_of_length_pos (Nat.lt_of_lt_of_le hn hlo)
  refine ⟨c, rfl, ?_⟩
  rintro rfl
  have hdash := hall '-' List.mem_cons_self
  revert hdash
  decide

theorem digitCount_hyphen {w : List Char} (h : (lit "-").Lang w) : DigitCount 0 0 w := by
  have hchar : lit "-" = .char (· == '-') := rfl
  rw [hchar] at h
  refine digitCount_separator (fun c hc => ?_) (by decide) h
  rw [beq_iff_eq.1 hc]
  decide

theorem digitCount_phoneSep {w : List Char} (h : phoneSep.Lang w) : DigitCount 0 0 w := by
  refine digitCount_separator (fun c hc => ?_) (by decide) h
  simp only [Bool.or_eq_true, beq_iff_eq] at hc
  rcases hc with (rfl | rfl) | hc
  · decide
  · decide
  · exact Bool.eq_false_iff.2 fun hd => by simp [PyText.isSpace_of_isDigit hd] at hc

theorem ssn_digitCount {w : List Char} (h : (seqs [exactly 3 digit, lit "-", exactly 2 digit, lit "-",
    exactly 4 digit]).Lang w) : DigitCount 9 9 w ∧ ∃ c ∈ w.head?, c ≠ '-' := by
  obtain ⟨a, w₁, ha, h₁, rfl⟩ := lang_seqs_cons.1 h
  obtain ⟨b, w₂, hb, h₂, rfl⟩ := lang_seqs_cons.1 h₁
  obtain ⟨c, w₃, hc, h₃, rfl⟩ := lang_seqs_cons.1 h₂
  obtain ⟨d, e, hd, he, rfl⟩ := lang_seqs_cons.1 h₃
  refine ⟨?_, first_of_digits (by decide) ha⟩
  exact (digitCount_digits ha).append ((digitCount_hyphen hb).append ((digitCount_digits hc).append
    ((digitCount_hyphen hd).append (digitCount_digits he))))

theorem phone_digitCount {w : List Char} (h : (seqs [exactly 3 digit, phoneSep, exactly 3 digit, phoneSep,
    exactly 4 digit]).Lang w) : DigitCount 10 10 w ∧ ∃ c ∈ w.head?, c ≠ '-' := by
  obtain ⟨a, w₁, ha, h₁, rfl⟩ := lang_seqs_cons.1 h
  obtain ⟨b, w₂, hb, h₂, rfl⟩ := lang_seqs_cons.1 h₁
  obtain ⟨c, w₃, hc, h₃, rfl⟩ := lang_seqs_cons.1 h₂
  obtain ⟨d, e, hd, he, rfl⟩ := lang_seqs_cons.1 h₃
  refine ⟨?_, first_of_digits (by decide) ha⟩
  exact (digitCount_digits ha).append ((digitCount_phoneSep hb).append ((digitCount_digits hc).append
    ((digitCount_phoneSep hd).append (digitCount_digits he))))

/-- One round of the card pattern: a digit, and a separator at most. -/
theorem digitCount_cardItem {w : List Char} (h : (Re.seq digit (opt (oneOf " -"))).Lang w) : DigitCount 1 1 w := by
  obtain ⟨u, v, hu, hv, rfl⟩ := h
  have hdigit : DigitCount 1 1 u := digitCount_digits ⟨[u], by simpa using hu, by simp, by simp, by simp⟩
  have hsep : DigitCount 0 0 v := by
    rcases lang_opt.1 hv with rfl | hv
    · exact ⟨by simp, by simp⟩
    · refine digitCount_separator (fun c hc => ?_) (by decide) hv
      have hcases : c = ' ' ∨ c = '-' := by simpa using hc
      rcases hcases with rfl | rfl <;> decide
  exact hdigit.append hsep

theorem card_digitCount {w : List Char} (h : (seqs [between 13 16 (.seq digit (opt (oneOf " -")))]).Lang w) :
    DigitCount 13 16 w ∧ ∃ c ∈ w.head?, c ≠ '-' := by
  obtain ⟨us, hus, hlo, hhi, rfl⟩ := h
  have hcount : DigitCount us.length us.length us.flatten := by
    clear hlo hhi
    induction us with
    | nil => exact ⟨by simp, by simp⟩
    | cons u us ih =>
      have hrest := (digitCount_cardItem (hus u List.mem_cons_self)).append
        (ih fun v hv => hus v (List.mem_cons_of_mem u hv))
      rwa [List.length_cons, Nat.add_comm us.length, List.flatten_cons]
  constructor
  · have hhi' := hhi 16 rfl
    exact ⟨hcount.hex, hlo.trans hcount.many.1, hcount.many.2.trans hhi'⟩
  · obtain ⟨u, us, rfl⟩ := List.exists_cons_of_length_pos (Nat.lt_of_lt_of_le (by decide) hlo)
    obtain ⟨x, y, hx, -, rfl⟩ := hus u List.mem_cons_self
    rw [List.flatten_cons, List.append_assoc]
    exact first_of_digits (by decide : 0 < 1) ⟨[x], by simpa using hx, by simp, by simp, by simp⟩

/-! ## What the patterns find in the text of a uuid -/

theorem not_mem_text {u : RandomUuid} {c : Char} (hc : c ≠ '-') (hhex : ∀ d, c ≠ hexDigit d) :
    c ∉ u.text.toList := by
  rw [RandomUuid.text, String.toList_ofList]
  intro hmem
  obtain ⟨g, hg, hcg⟩ := (mem_intercalate hmem).resolve_left hc
  obtain ⟨d, hd⟩ := hex_of_mem_group hg hcg
  exact hhex d hd

theorem search_email_text (u : RandomUuid) : Regex.search email u.text.toList = false := by
  have hhas : email.Has (· = '@') := by
    simp [email, seqs, plus, lit, Re.Has]
  refine (search_eq_false_iff hhas.not_lang_nil).2 fun x y hxy => List.eq_nil_iff_forall_not_mem.2 fun t ht => ?_
  obtain ⟨w, hw, hread⟩ := ends_sound ht
  obtain ⟨c, hc, rfl⟩ := hhas.lang hw
  have hno : '@' ∉ u.text.toList := not_mem_text (by decide) (by decide)
  refine hno ?_
  rw [hxy, show y = w ++ t.after from hread.1]
  exact List.mem_append_right x (List.mem_append_left _ hc)

theorem search_ssn_text (henv : AsciiAlnum env) (u : RandomUuid) :
    Regex.search (ssn env) u.text.toList = false := by
  have hplain : ∀ r ∈ [exactly 3 digit, lit "-", exactly 2 digit, lit "-", exactly 4 digit], r.Plain := by
    simp [digits_plain, show (lit "-").Plain from trivial]
  have hlengths : ∀ i < 5, ∀ n ≤ 5, runLength i n ≠ 9 := by decide
  refine Bool.eq_false_iff.2 fun h => ?_
  obtain ⟨i, n, hi, -, hn, -, hlo, hhi⟩ := groups_of_match henv ssn_pattern.nonempty
    (between_wordBoundary hplain) (fun w hw => ssn_digitCount hw) h
  exact hlengths i hi n (by omega) (le_antisymm hhi hlo)

theorem search_phone_text (henv : AsciiAlnum env) (u : RandomUuid) :
    Regex.search (phone env) u.text.toList = false := by
  have hplain : ∀ r ∈ [exactly 3 digit, phoneSep, exactly 3 digit, phoneSep, exactly 4 digit], r.Plain := by
    simp [digits_plain, show phoneSep.Plain from trivial]
  have hlengths : ∀ i < 5, ∀ n ≤ 5, runLength i n ≠ 10 := by decide
  refine Bool.eq_false_iff.2 fun h => ?_
  obtain ⟨i, n, hi, -, hn, -, hlo, hhi⟩ := groups_of_match henv phone_pattern.nonempty
    (between_wordBoundary hplain) (fun w hw => phone_digitCount hw) h
  exact hlengths i hi n (by omega) (le_antisymm hhi hlo)

/-- The body of the card pattern. -/
def cardBody : Re := seqs [between 13 16 (.seq digit (opt (oneOf " -")))]

theorem between_creditCard : (creditCard env).Between cardBody.Lang (boundary env.isWord) := by
  refine @between_wordBoundary env.isWord [between 13 16 (.seq digit (opt (oneOf " -")))] ?_
  simp [between, digit, opt, oneOf, Re.Plain, Re.Lang]

/-- Decimal groups are rounds of the card pattern, one for each digit. -/
theorem card_rounds {gs : List (List Char)} (hne : ∀ g ∈ gs, g ≠ []) (hdec : ∀ g ∈ gs, Decimal g) :
    ∃ us : List (List Char), (∀ u ∈ us, (Re.seq digit (opt (oneOf " -"))).Lang u) ∧
      us.length = (gs.map List.length).sum ∧ ['-'].intercalate gs = us.flatten := by
  have hround : ∀ c : Char, PyText.isDigit c = true → ∀ v, v = [] ∨ v = ['-'] →
      (Re.seq digit (opt (oneOf " -"))).Lang (c :: v) := by
    intro c hc v hv
    refine ⟨[c], v, ⟨c, hc, rfl⟩, lang_opt.2 (hv.imp_right fun h => ?_), rfl⟩
    exact ⟨'-', by decide, h⟩
  have hdigits : ∀ g : List Char, Decimal g → ∀ u ∈ g.map fun c => [c],
      (Re.seq digit (opt (oneOf " -"))).Lang u := by
    intro g hg u hu
    obtain ⟨c, hc, rfl⟩ := List.mem_map.1 hu
    exact hround c (hg c hc) [] (.inl rfl)
  have hflat : ∀ g : List Char, (g.map fun c => [c]).flatten = g := fun g => by
    rw [← List.flatMap_def, List.flatMap_singleton']
  induction gs with
  | nil => exact ⟨[], by simp, rfl, rfl⟩
  | cons g gs ih =>
    have hg := hdec g List.mem_cons_self
    cases gs with
    | nil => exact ⟨g.map fun c => [c], hdigits g hg, by simp, by rw [hflat, List.intercalate_singleton]⟩
    | cons g' gs =>
      obtain ⟨us, hus, hlen, hjoin⟩ := ih (fun x hx => hne x (List.mem_cons_of_mem g hx))
        fun x hx => hdec x (List.mem_cons_of_mem g hx)
      -- the last digit of the group takes the hyphen after it
      have hgne := hne g List.mem_cons_self
      have hsplit := List.dropLast_append_getLast hgne
      have hcount : g.dropLast.length + 1 = g.length := by
        have := congrArg List.length hsplit
        rwa [List.length_append, List.length_singleton] at this
      refine ⟨(g.dropLast.map fun c => [c]) ++ [g.getLast hgne, '-'] :: us, ?_, ?_, ?_⟩
      · intro u hu
        rcases List.mem_append.1 hu with hu | hu
        · exact hdigits g.dropLast (fun c hc => hg c (List.mem_of_mem_dropLast hc)) u hu
        · rcases List.mem_cons.1 hu with rfl | hu
          · exact hround _ (hg _ (List.getLast_mem hgne)) _ (.inr rfl)
          · exact hus u hu
      · simp only [List.length_append, List.length_map, List.length_cons, hlen, List.map_cons, List.sum_cons]
        omega
      · rw [List.intercalate_cons_cons, hjoin, List.flatten_append, hflat, List.flatten_cons]
        conv_lhs => rw [← hsplit]
        simp

/-- Decimal groups of thirteen to sixteen digits, between other groups or the ends, are a match. -/
theorem search_card_of_groups (henv : AsciiAlnum env) {u : RandomUuid} {pre gs post : List (List Char)}
    (hgroups : u.groups = pre ++ gs ++ post) (hne : gs ≠ []) (hdec : ∀ g ∈ gs, Decimal g)
    (hmany : 13 ≤ (gs.map List.length).sum ∧ (gs.map List.length).sum ≤ 16) :
    Regex.search (creditCard env) u.text.toList = true := by
  have hws : Words env.isWord (pre ++ gs ++ post) := hgroups ▸ words_groups henv u
  have hgs : Words env.isWord gs := fun g hg => hws g (by simp [hg])
  obtain ⟨us, hus, hlen, hjoin⟩ := card_rounds (fun g hg => (hgs g hg).1) hdec
  have hlang : cardBody.Lang (['-'].intercalate gs) := ⟨us, hus, by omega, fun n hn => by
    obtain rfl := Option.some.inj hn
    omega, hjoin⟩
  obtain ⟨x, z, htext, hx, hz⟩ := @around_words '-' gs pre post hne
  obtain ⟨c, hc, hfirst⟩ := @head_intercalate _ '-' _ hgs hne
  obtain ⟨d, hd, hlast⟩ := @last_intercalate _ '-' _ hgs hne
  have hhyphen : env.isWord '-' = false := by
    rw [Env.isWord, henv '-' (by decide)]
    decide
  by_contra hno
  refine between_creditCard.complete (s := ⟨x.reverse, ['-'].intercalate gs ++ z, []⟩) hlang rfl ?_ ?_
    ((search_eq_false_iff creditCard_pattern.nonempty).1 (Bool.eq_false_iff.2 hno) x
      (['-'].intercalate gs ++ z) ?_)
  · rw [boundary, List.head?_reverse, List.head?_append, Option.mem_def.1 hc]
    rcases hx with rfl | hx
    · simp [hfirst]
    · simp [hx, hfirst, hhyphen]
  · rw [boundary, List.head?_append, List.head?_reverse, Option.mem_def.1 hd]
    rcases hz with rfl | hz
    · simp [hlast]
    · simp [hz, hlast, hhyphen]
  · rw [RandomUuid.text, String.toList_ofList, hgroups, htext, List.append_assoc]

theorem search_creditCard_text (henv : AsciiAlnum env) (u : RandomUuid) :
    Regex.search (creditCard env) u.text.toList = true ↔ u.CardShaped := by
  constructor
  · intro h
    have hruns : ∀ i < 5, ∀ n < 6, (13 ≤ runLength i n ∧ runLength i n ≤ 16) →
        (i = 0 ∧ n = 3) ∨ (i = 3 ∧ 2 ≤ n) := by decide
    obtain ⟨i, n, hi, -, hn, hdec, hlo, hhi⟩ := groups_of_match henv creditCard_pattern.nonempty
      between_creditCard (fun w hw => card_digitCount hw) h
    rw [cardShaped_iff]
    rcases hruns i hi n (by omega) ⟨hlo, hhi⟩ with ⟨rfl, rfl⟩ | ⟨rfl, h2⟩
    · exact .inl hdec
    · obtain rfl : n = 2 := by omega
      exact .inr hdec
  · intro h
    rcases cardShaped_iff.1 h with h | h
    · refine @search_card_of_groups env henv u [] (u.groups.take 3) (u.groups.drop 3) ?_ ?_ h ?_
      · rw [List.nil_append, List.take_append_drop]
      · exact List.cons_ne_nil _ _
      · rw [List.map_take, map_length_groups]
        decide
    · refine @search_card_of_groups env henv u (u.groups.take 3) (u.groups.drop 3) [] ?_ ?_ h ?_
      · rw [List.append_nil, List.take_append_drop]
      · exact List.cons_ne_nil _ _
      · rw [List.map_drop, map_length_groups]
        decide

/-! ## The entries of the audit log -/

theorem redact_eq_self_iff {text : String} : redact env text = text ↔ detectTypes env text = [] := by
  constructor
  · intro h
    rw [← h]
    exact detectTypes_redact text
  · exact redact_of_detectTypes

theorem redact_text_iff (henv : AsciiAlnum env) (u : RandomUuid) :
    redact env u.text = u.text ↔ ¬ u.CardShaped := by
  rw [redact_eq_self_iff, detectTypes_eq_nil, ← search_creditCard_text henv u]
  simp [patterns, search_email_text, search_ssn_text henv, search_phone_text henv]

/-- The fixed strings an entry's detail may hold: the roles, and the reasons of `_limit_block`. -/
def fixedTexts : List String :=
  ["member", "admin", "owner", "daily budget exhausted", "monthly question limit reached",
    "service daily budget exhausted"]

/-- A value an entry's detail may hold: an id, a fixed string, a number or a boolean. -/
inductive Recordable : DetailValue → Prop where
  | id (u : RandomUuid) : Recordable (.str u.text)
  | fixed {s : String} (h : s ∈ fixedTexts) : Recordable (.str s)
  | num (n : Nat) : Recordable (.num n)
  | bool (b : Bool) : Recordable (.bool b)

theorem redact_fixed {s : String} (h : s ∈ fixedTexts) : redact env s = s := by
  have hall : (fixedTexts.all fun s => s.toList.all fun c => !decide (Telling c)) = true := by
    decide
  exact redact_of_detectTypes (detectTypes_of_no_telling (not_telling (List.all_eq_true.1 hall s h)))

/-- The detail of an entry is stored as passed iff none of its ids is card-shaped. -/
theorem redactDetail_iff (henv : AsciiAlnum env) {detail : List (String × DetailValue)}
    (h : ∀ kv ∈ detail, Recordable kv.2) : redactDetail env detail = detail ↔
      ∀ k u, (k, DetailValue.str (RandomUuid.text u)) ∈ detail → ¬ u.CardShaped := by
  have hmap : redactDetail env detail = detail ↔ ∀ k s, (k, DetailValue.str s) ∈ detail → redact env s = s := by
    conv_lhs => rhs; rw [← List.map_id detail]
    rw [redactDetail, List.map_inj_left]
    constructor
    · intro hall k s hmem
      simpa using hall (k, .str s) hmem
    · rintro hall ⟨k, v⟩ hmem
      cases v with
      | str s => simp [hall k s hmem]
      | num n => rfl
      | bool b => rfl
  rw [hmap]
  constructor
  · exact fun hall k u hmem => (redact_text_iff henv u).1 (hall k u.text hmem)
  · intro hall k s hmem
    have hval : Recordable (.str s) := h _ hmem
    generalize hv : DetailValue.str s = v at hval
    cases hval with
    | id u =>
      obtain rfl := DetailValue.str.inj hv
      exact (redact_text_iff henv u).2 (hall k u hmem)
    | fixed hs =>
      obtain rfl := DetailValue.str.inj hv
      exact redact_fixed hs
    | num n => cases hv
    | bool b => cases hv

/-- The audit log keeps an id iff it is not card-shaped, and an entry's detail iff none of its ids is. -/
theorem audit_keeps_ids_iff (env : Env) (henv : AsciiAlnum env) :
    (∀ u : RandomUuid, redact env u.text = u.text ↔ ¬ u.CardShaped) ∧
    ∀ (orgId : Uuid) (actorUserId : Option Uuid) (action : String)
      (detail : List (String × DetailValue)) (now : Time) (db db' : Db),
      (∀ kv ∈ detail, Recordable kv.2) →
      auditTx env orgId actorUserId action detail now db = .ok ((), db') →
      ∃ row, db'.auditLog = db.auditLog ++ [row] ∧ (row.detail = detail ↔
        ∀ k u, (k, DetailValue.str (RandomUuid.text u)) ∈ detail → ¬ u.CardShaped) := by
  refine ⟨redact_text_iff henv, ?_⟩
  intro orgId actorUserId action detail now db db' hdetail htx
  simp only [auditTx, Db.references] at htx
  split at htx
  · simp only [bind, Except.bind, Except.ok.injEq, Prod.mk.injEq, true_and] at htx
    subst htx
    exact ⟨_, rfl, redactDetail_iff henv hdetail⟩
  · cases htx

/-- An id with letters in each group. -/
def letterUuid : RandomUuid := ⟨fun _ => 10, fun _ => 11, fun _ => 12, 3, fun _ => 13, fun _ => 14⟩

/-- The entry of a member added under such an id is stored as passed. -/
theorem audit_keeps_letter_id : ∃ db' row,
    auditTx (asciiEnv id) 1 none "member.added"
        [("user_id", .str letterUuid.text), ("role", .str "member")] 0 { orgs := [⟨1, "acme", "Acme"⟩] } =
      .ok ((), db') ∧ db'.auditLog = [row] ∧
    row.detail = [("user_id", .str letterUuid.text), ("role", .str "member")] := by
  obtain ⟨hids, hentries⟩ := audit_keeps_ids_iff (asciiEnv id) fun _ _ => rfl
  obtain ⟨row, hlog, hiff⟩ := hentries 1 none "member.added"
    [("user_id", .str letterUuid.text), ("role", .str "member")] 0 { orgs := [⟨1, "acme", "Acme"⟩] } _
    (by
      intro kv hkv
      simp only [List.mem_cons, List.not_mem_nil, or_false] at hkv
      rcases hkv with rfl | rfl
      · exact .id letterUuid
      · exact .fixed (by decide)) rfl
  refine ⟨_, row, rfl, hlog, hiff.2 fun k u hmem => (hids u).1 ?_⟩
  simp only [List.mem_cons, Prod.mk.injEq, DetailValue.str.injEq, List.not_mem_nil, or_false] at hmem
  rcases hmem with ⟨-, htext⟩ | ⟨-, htext⟩
  · rw [htext]
    exact (hids letterUuid).2 (by simp [letterUuid, RandomUuid.CardShaped])
  · rw [htext]
    exact redact_fixed (by decide)

/-- An id whose first three groups are decimal is stored as a card number. -/
def decimalUuid : RandomUuid :=
  ⟨fun i => i.castLE (by omega), fun i => i.castLE (by omega), fun i => i.castLE (by omega), 0,
    fun i => i.castLE (by omega), fun i => i.castLE (by omega)⟩

theorem decimal_id_is_redacted : decimalUuid.text = "01234567-0123-4012-8012-0123456789ab" ∧
    redact (asciiEnv id) decimalUuid.text = "[REDACTED-CREDIT_CARD]8012-0123456789ab" := by
  decide +kernel

end KnowledgeDesk.Proofs
