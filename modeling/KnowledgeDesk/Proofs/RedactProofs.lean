import KnowledgeDesk.Lib.RegexSub
import KnowledgeDesk.Pii

/-!
# `pii.redact` leaves nothing `pii.detect_types` finds

Every match has a digit or an at sign and no bracket, and every marker has brackets around and neither
inside, so no match reaches into a marker or across one. What a marker puts next to the text left
standing changes no `\b` either, since the match it stands for was between two of them.
-/

open Regex

namespace KnowledgeDesk.Proofs

open Pii

variable {env : Env}

/-- A character every match has one of, and no marker. -/
def Telling (c : Char) : Prop := c = '@' ∨ PyText.isDigit c = true

instance : DecidablePred Telling := fun c => inferInstanceAs (Decidable (c = '@' ∨ PyText.isDigit c = true))

/-- A pattern as `_PATTERNS` has them. -/
structure PiiPattern (r : Re) (f : Option Char → Option Char → Bool) : Prop where
  nonempty : ¬ r.Lang []
  body : ∃ q : Re, r.Between q.Lang f ∧ q.Only (fun c => c ≠ '[' ∧ c ≠ ']') ∧ q.Has Telling

/-- A marker as `redact` writes them. -/
structure IsMarker (m : List Char) : Prop where
  opening : m.head? = some '['
  closing : m.getLast? = some ']'
  inside : ∀ c ∈ m, ¬ Telling c

/-- A pattern that has been replaced by markers, or did not match before, does not match. -/
theorem PiiPattern.redacted {r q : Re} {fr fq : Option Char → Option Char → Bool} (hr : PiiPattern r fr)
    (hq : PiiPattern q fq) (himp : ∀ b a, fr b a = true → fq b a = true) {m text : List Char}
    (hm : IsMarker m) (h : q = r ∨ search q text = false) : search q (sub r m text) = false := by
  obtain ⟨_, hbr, -, -⟩ := hr.body
  obtain ⟨body, hbq, honly, hhas⟩ := hq.body
  have hwall : ∀ w, body.Lang w → w ≠ [] ∧ '[' ∉ w := fun w hw => by
    obtain ⟨d, hd, -⟩ := hhas.lang hw
    exact ⟨List.ne_nil_of_mem hd, fun ho => (honly.lang hw _ ho).1 rfl⟩
  have hout : StartsOutside body.Lang m := startsOutside_of_last hm.closing fun w hw => by
    obtain ⟨d, hd, htell⟩ := hhas.lang hw
    exact ⟨fun hc => (honly.lang hw _ hc).2 rfl, d, hd, fun hdm => hm.inside d hdm htell⟩
  exact (hbq.walled hbr hr.nonempty himp hm.opening hwall hout).search_sub hr.nonempty hq.nonempty h

theorem PiiPattern.search_eq_false {r : Re} {f : Option Char → Option Char → Bool} (hr : PiiPattern r f)
    {text : List Char} (h : ∀ c ∈ text, ¬ Telling c) : search r text = false := by
  obtain ⟨body, hb, -, hhas⟩ := hr.body
  refine (search_eq_false_iff hr.nonempty).2 fun u v huv => List.eq_nil_iff_forall_not_mem.2 fun t ht => ?_
  obtain ⟨w, hw, hst, -⟩ := hb.sound ht
  obtain ⟨c, hc, htell⟩ := hhas.lang hw
  refine h c ?_ htell
  rw [huv, show v = w ++ t.after from hst.1]
  exact List.mem_append_right u (List.mem_append_left _ hc)

/-- A character class without brackets. -/
theorem class_without_brackets {p : Char → Bool} (ho : p '[' = false) (hc : p ']' = false) (c : Char)
    (h : p c = true) : c ≠ '[' ∧ c ≠ ']' := by
  constructor
  · rintro rfl
    cases h.symm.trans ho
  · rintro rfl
    cases h.symm.trans hc

/-! ## The four patterns -/

/-- A pattern between two `\b`. -/
theorem piiPattern_of_bounded {rs : List Re} (hplain : ∀ r ∈ rs, r.Plain)
    (honly : ∀ r ∈ rs, r.Only fun c => c ≠ '[' ∧ c ≠ ']') {r : Re} (hr : r ∈ rs) (hhas : r.Has Telling) :
    PiiPattern (seqs (wordBoundary env.isWord :: (rs ++ [wordBoundary env.isWord])))
      (boundary env.isWord) :=
  ⟨(Re.Has.seqs (List.mem_cons_of_mem _ (List.mem_append_left _ hr)) hhas).not_lang_nil, seqs rs,
    between_wordBoundary hplain, Re.Only.seqs honly, Re.Has.seqs hr hhas⟩

theorem digits_plain (n : Nat) : (exactly n digit).Plain := by
  simp [exactly, digit, Re.Plain, Re.Lang]

theorem digits_only (n : Nat) : (exactly n digit).Only fun c => c ≠ '[' ∧ c ≠ ']' :=
  class_without_brackets (by decide) (by decide)

theorem digits_has {n : Nat} (h : 0 < n) : (exactly n digit).Has Telling :=
  ⟨h, fun _ hc => .inr hc⟩

theorem email_pattern : PiiPattern email fun _ _ => true := by
  have hhas : email.Has Telling := by
    simp [email, seqs, plus, lit, Re.Has, Telling]
  refine ⟨hhas.not_lang_nil, email, Re.Plain.between ?_, ⟨?_, ?_, ?_, ?_, ?_⟩, hhas⟩
  · simp [email, seqs, plus, lit, Re.Plain, Re.Lang]
  all_goals exact class_without_brackets (by decide) (by decide)

theorem ssn_pattern : PiiPattern (ssn env) (boundary env.isWord) := by
  have hdash : (lit "-").Plain ∧ (lit "-").Only fun c => c ≠ '[' ∧ c ≠ ']' :=
    ⟨trivial, class_without_brackets (by decide) (by decide)⟩
  refine @piiPattern_of_bounded env [exactly 3 digit, lit "-", exactly 2 digit, lit "-", exactly 4 digit]
    ?_ ?_ _ List.mem_cons_self (digits_has (by decide))
  · simp [digits_plain, hdash.1]
  · simp [digits_only, hdash.2]

theorem creditCard_pattern : PiiPattern (creditCard env) (boundary env.isWord) := by
  refine @piiPattern_of_bounded env [between 13 16 (.seq digit (opt (oneOf " -")))] ?_ ?_ _
    List.mem_cons_self ⟨by decide, .inl fun _ hc => .inr hc⟩
  · simp [between, digit, opt, oneOf, Re.Plain, Re.Lang]
  · refine List.forall_mem_singleton.2 ⟨?_, ?_⟩
    all_goals exact class_without_brackets (by decide) (by decide)

theorem phone_pattern : PiiPattern (phone env) (boundary env.isWord) := by
  have hsep : phoneSep.Plain ∧ phoneSep.Only fun c => c ≠ '[' ∧ c ≠ ']' :=
    ⟨trivial, class_without_brackets (by decide) (by decide)⟩
  refine @piiPattern_of_bounded env [exactly 3 digit, phoneSep, exactly 3 digit, phoneSep, exactly 4 digit]
    ?_ ?_ _ List.mem_cons_self (digits_has (by decide))
  · simp [digits_plain, hsep.1]
  · simp [digits_only, hsep.2]

/-! ## The whole of `redact` -/

theorem not_telling {m : List Char} (h : (m.all fun c => !decide (Telling c)) = true) :
    ∀ c ∈ m, ¬ Telling c := by
  simpa using h

theorem isMarker_of {m : List Char} (h : m.head? = some '[' ∧ m.getLast? = some ']' ∧
    (m.all fun c => !decide (Telling c)) = true) : IsMarker m :=
  ⟨h.1, h.2.1, not_telling h.2.2⟩

/-- No pattern matches a redacted text. -/
theorem search_redact {p : String × Re × String} (hp : p ∈ patterns env) (text : String) :
    search p.2.1 (redact env text).toList = false := by
  have hemail := @isMarker_of "[REDACTED-EMAIL]".toList (by decide)
  have hssn := @isMarker_of "[REDACTED-SSN]".toList (by decide)
  have hcard := @isMarker_of "[REDACTED-CREDIT_CARD]".toList (by decide)
  have hphone := @isMarker_of "[REDACTED-PHONE]".toList (by decide)
  have hany : ∀ b a, boundary env.isWord b a = true → true = true := fun _ _ _ => rfl
  have hsame : ∀ b a, boundary env.isWord b a = true → boundary env.isWord b a = true := fun _ _ => id
  rw [redact, String.toList_ofList]
  simp only [patterns, List.mem_cons, List.not_mem_nil, or_false] at hp
  simp only [patterns, List.foldl_cons, List.foldl_nil]
  rcases hp with rfl | rfl | rfl | rfl
  · -- an email address: gone after the first substitution, and the later ones make none
    refine phone_pattern.redacted email_pattern hany hphone (.inr ?_)
    refine creditCard_pattern.redacted email_pattern hany hcard (.inr ?_)
    refine ssn_pattern.redacted email_pattern hany hssn (.inr ?_)
    exact email_pattern.redacted email_pattern (fun _ _ => id) hemail (.inl rfl)
  · refine phone_pattern.redacted ssn_pattern hsame hphone (.inr ?_)
    refine creditCard_pattern.redacted ssn_pattern hsame hcard (.inr ?_)
    exact ssn_pattern.redacted ssn_pattern hsame hssn (.inl rfl)
  · refine phone_pattern.redacted creditCard_pattern hsame hphone (.inr ?_)
    exact creditCard_pattern.redacted creditCard_pattern hsame hcard (.inl rfl)
  · exact phone_pattern.redacted phone_pattern hsame hphone (.inl rfl)

theorem detectTypes_eq_nil {text : String} :
    detectTypes env text = [] ↔ ∀ p ∈ patterns env, search p.2.1 text.toList = false := by
  have hnil : ∀ l : List String, Table.orderBy codePointLe l = [] ↔ l = [] := fun l => by
    rw [← List.length_eq_zero_iff, ← List.length_eq_zero_iff, Table.orderBy, List.length_insertionSort]
  rw [detectTypes, hnil, List.map_eq_nil_iff, List.filter_eq_nil_iff]
  simp

/-- Nothing is detected in a text without a digit and without an at sign. -/
theorem detectTypes_of_no_telling {text : String} (h : ∀ c ∈ text.toList, ¬ Telling c) :
    detectTypes env text = [] := by
  refine detectTypes_eq_nil.2 fun p hp => ?_
  simp only [patterns, List.mem_cons, List.not_mem_nil, or_false] at hp
  rcases hp with rfl | rfl | rfl | rfl
  · exact email_pattern.search_eq_false h
  · exact ssn_pattern.search_eq_false h
  · exact creditCard_pattern.search_eq_false h
  · exact phone_pattern.search_eq_false h

/-- Redaction is complete for its own detector. -/
theorem detectTypes_redact (text : String) : detectTypes env (redact env text) = [] :=
  detectTypes_eq_nil.2 fun _ hp => search_redact hp text

/-- A text in which nothing is detected is redacted to itself. -/
theorem redact_of_detectTypes {text : String} (h : detectTypes env text = []) : redact env text = text := by
  have hsub : ∀ ps : List (String × Re × String), (∀ p ∈ ps, search p.2.1 text.toList = false) →
      ps.foldl (fun t p => sub p.2.1 p.2.2.toList t) text.toList = text.toList := by
    intro ps
    induction ps with
    | nil => exact fun _ => rfl
    | cons p ps ih =>
      intro hps
      rw [List.foldl_cons, sub_of_not_search (hps p List.mem_cons_self)]
      exact ih fun q hq => hps q (List.mem_cons_of_mem p hq)
  rw [redact, hsub _ (detectTypes_eq_nil.1 h), String.ofList_toList]

/-- Redaction is complete for its own detector, and idempotent. -/
theorem redact_settles (env : Env) (text : String) :
    detectTypes env (redact env text) = [] ∧ redact env (redact env text) = redact env text :=
  ⟨detectTypes_redact text, redact_of_detectTypes (detectTypes_redact text)⟩

end KnowledgeDesk.Proofs
