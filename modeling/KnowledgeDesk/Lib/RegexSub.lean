import KnowledgeDesk.Lib.RegexLang

/-!
# Substitution

What `r.sub` leaves behind. A replacement whose ends occur in no match of a pattern, and which has no
match inside, walls off the text between two replacements: `search_sub_eq_false` says that a pattern
that did not match before does not match afterwards, and that `r` itself does not.
-/

namespace Regex

/-! ## Characters of the language -/

/-- Every character the pattern consumes satisfies `P`. -/
def Re.Only (P : Char → Prop) : Re → Prop
  | .eps => True
  | .char p => ∀ c, p c = true → P c
  | .seq r q => r.Only P ∧ q.Only P
  | .alt r q => r.Only P ∧ q.Only P
  | .rep r _ _ _ => r.Only P
  | .cap _ r => r.Only P
  | .assert _ => True

/-- Every match of the pattern has a character that satisfies `P`. -/
def Re.Has (P : Char → Prop) : Re → Prop
  | .eps => False
  | .char p => ∀ c, p c = true → P c
  | .seq r q => r.Has P ∨ q.Has P
  | .alt r q => r.Has P ∧ q.Has P
  | .rep r lo _ _ => 0 < lo ∧ r.Has P
  | .cap _ r => r.Has P
  | .assert _ => False

theorem Re.Only.lang {P : Char → Prop} {r : Re} (h : r.Only P) :
    ∀ {w : List Char}, r.Lang w → ∀ c ∈ w, P c := by
  induction r with
  | eps | assert p =>
    rintro w rfl c hc
    cases hc
  | char p =>
    rintro w ⟨d, hd, rfl⟩ c hc
    rw [List.mem_singleton.1 hc]
    exact h d hd
  | seq r q ihr ihq =>
    rintro w ⟨u, v, hu, hv, rfl⟩ c hc
    rcases List.mem_append.1 hc with hc | hc
    · exact ihr h.1 hu c hc
    · exact ihq h.2 hv c hc
  | alt r q ihr ihq =>
    rintro w (hw | hw) c hc
    · exact ihr h.1 hw c hc
    · exact ihq h.2 hw c hc
  | rep r lo hi greedy ih =>
    rintro w ⟨us, hus, -, -, rfl⟩ c hc
    obtain ⟨u, hu, hcu⟩ := List.mem_flatten.1 hc
    exact ih h (hus u hu) c hcu
  | cap i r ih => exact fun hw => ih h hw

theorem Re.Has.lang {P : Char → Prop} {r : Re} (h : r.Has P) :
    ∀ {w : List Char}, r.Lang w → ∃ c ∈ w, P c := by
  induction r with
  | eps | assert p => exact h.elim
  | char p =>
    rintro w ⟨d, hd, rfl⟩
    exact ⟨d, List.mem_singleton_self d, h d hd⟩
  | seq r q ihr ihq =>
    rintro w ⟨u, v, hu, hv, rfl⟩
    rcases h with h | h
    · obtain ⟨c, hc, hp⟩ := ihr h hu
      exact ⟨c, List.mem_append_left v hc, hp⟩
    · obtain ⟨c, hc, hp⟩ := ihq h hv
      exact ⟨c, List.mem_append_right u hc, hp⟩
  | alt r q ihr ihq =>
    rintro w (hw | hw)
    · exact ihr h.1 hw
    · exact ihq h.2 hw
  | rep r lo hi greedy ih =>
    rintro w ⟨us, hus, hlo, -, rfl⟩
    obtain ⟨u, hu⟩ := List.exists_mem_of_length_pos (Nat.lt_of_lt_of_le h.1 hlo)
    obtain ⟨c, hc, hp⟩ := ih h.2 (hus u hu)
    exact ⟨c, List.mem_flatten.2 ⟨u, hu, hc⟩, hp⟩
  | cap i r ih => exact fun hw => ih h hw

theorem Re.Only.seqs {P : Char → Prop} {rs : List Re} (h : ∀ r ∈ rs, r.Only P) : (seqs rs).Only P := by
  induction rs with
  | nil => trivial
  | cons r rs ih =>
    have hrest := ih fun q hq => h q (List.mem_cons_of_mem r hq)
    cases rs with
    | nil => exact h r List.mem_cons_self
    | cons q rs => exact ⟨h r List.mem_cons_self, hrest⟩

theorem Re.Has.seqs {P : Char → Prop} {rs : List Re} {r : Re} (hr : r ∈ rs) (h : r.Has P) :
    (seqs rs).Has P := by
  induction rs with
  | nil => cases hr
  | cons q rs ih =>
    cases rs with
    | nil => rwa [← List.mem_singleton.1 hr]
    | cons q' rs =>
      rcases List.mem_cons.1 hr with rfl | hr
      · exact .inl h
      · exact .inr (ih hr)

/-- What has a character matches no empty text. -/
theorem Re.Has.not_lang_nil {P : Char → Prop} {r : Re} (h : r.Has P) : ¬ r.Lang [] := fun hw => by
  obtain ⟨_, hc, -⟩ := h.lang hw
  cases hc

/-! ## Patterns between two conditions -/

/-- The pattern matches the texts of `L` that stand between two places where `f` holds of the characters
before and after. -/
structure Re.Between (r : Re) (L : List Char → Prop) (f : Option Char → Option Char → Bool) : Prop where
  sound : ∀ {s t : State}, t ∈ r.ends s → ∃ w, L w ∧ s.Reads w t ∧
    f s.before.head? s.after.head? = true ∧ f t.before.head? t.after.head? = true
  complete : ∀ {s : State} {w rest : List Char}, L w → s.after = w ++ rest →
    f s.before.head? s.after.head? = true → f (w.reverse ++ s.before).head? rest.head? = true → r.ends s ≠ []

/-- A plain pattern matches anywhere. -/
theorem Re.Plain.between {r : Re} (h : r.Plain) : r.Between r.Lang fun _ _ => true := by
  refine ⟨fun ht => ?_, fun hw hs _ _ => (ends_ne_nil_iff h).2 ⟨_, hw, _, hs.symm⟩⟩
  obtain ⟨w, hw, hst⟩ := ends_sound ht
  exact ⟨w, hw, hst, rfl, rfl⟩

/-- The boundary of `\b`. -/
def boundary (isWord : Char → Bool) (b a : Option Char) : Bool := b.any isWord != a.any isWord

theorem mem_ends_wordBoundary {isWord : Char → Bool} {s t : State} :
    t ∈ (wordBoundary isWord).ends s ↔ t = s ∧ boundary isWord s.before.head? s.after.head? = true := by
  rw [wordBoundary, Re.ends, ← boundary]
  split <;> simp [*]

/-- A sequence of plain patterns, then `\b`. -/
theorem ends_seqs_wordBoundary {isWord : Char → Bool} {rs : List Re} (hrs : ∀ r ∈ rs, r.Plain) :
    (∀ {s t : State}, t ∈ (seqs (rs ++ [wordBoundary isWord])).ends s → ∃ w, (seqs rs).Lang w ∧
      s.Reads w t ∧ boundary isWord t.before.head? t.after.head? = true) ∧
    ∀ {s : State} {w rest : List Char}, (seqs rs).Lang w → s.after = w ++ rest →
      boundary isWord (w.reverse ++ s.before).head? rest.head? = true →
      (seqs (rs ++ [wordBoundary isWord])).ends s ≠ [] := by
  induction rs with
  | nil =>
    refine ⟨fun {s t} ht => ?_, ?_⟩
    · obtain ⟨rfl, hb⟩ := mem_ends_wordBoundary.1 ht
      exact ⟨[], rfl, State.Reads.refl t, hb⟩
    · rintro s w rest rfl hs hb
      refine List.ne_nil_of_mem (mem_ends_wordBoundary.2 ⟨rfl, ?_⟩)
      rw [hs]
      exact hb
  | cons r rs ih =>
    obtain ⟨ihs, ihc⟩ := ih fun q hq => hrs q (List.mem_cons_of_mem r hq)
    have hr := hrs r List.mem_cons_self
    have hseq : seqs (r :: (rs ++ [wordBoundary isWord])) =
        .seq r (seqs (rs ++ [wordBoundary isWord])) := by
      cases rs <;> rfl
    rw [List.cons_append, hseq]
    refine ⟨fun {s t} ht => ?_, fun {s w rest} hw hs hb => ?_⟩
    · obtain ⟨m, hm, ht⟩ := List.mem_flatMap.1 ht
      obtain ⟨u, hu, hsm⟩ := ends_sound hm
      obtain ⟨v, hv, hmt, hb⟩ := ihs ht
      exact ⟨u ++ v, lang_seqs_cons.2 ⟨u, v, hu, hv, rfl⟩, hsm.trans hmt, hb⟩
    · obtain ⟨u, v, hu, hv, rfl⟩ := lang_seqs_cons.1 hw
      rw [List.append_assoc] at hs
      obtain ⟨m, hm, hma⟩ := ends_complete hr hu hs
      have hbefore : m.before = u.reverse ++ s.before := by
        obtain ⟨u', -, hsm⟩ := ends_sound hm
        have hu' : u' = u := by
          have heq := hsm.1.symm.trans hs
          rw [hma] at heq
          exact List.append_cancel_right heq
        rw [hsm.2, hu']
      obtain ⟨t, ht⟩ := List.exists_mem_of_ne_nil _ (ihc (s := m) hv hma (by
        rw [hbefore, ← List.append_assoc, ← List.reverse_append]
        exact hb))
      exact List.ne_nil_of_mem (List.mem_flatMap.2 ⟨m, hm, ht⟩)

/-- `\b...\b` around plain patterns. -/
theorem between_wordBoundary {isWord : Char → Bool} {rs : List Re} (hrs : ∀ r ∈ rs, r.Plain) :
    (seqs (wordBoundary isWord :: (rs ++ [wordBoundary isWord]))).Between (seqs rs).Lang
      (boundary isWord) := by
  obtain ⟨hsound, hcomplete⟩ := @ends_seqs_wordBoundary isWord rs hrs
  have hseq : seqs (wordBoundary isWord :: (rs ++ [wordBoundary isWord])) =
      .seq (wordBoundary isWord) (seqs (rs ++ [wordBoundary isWord])) := by
    cases rs <;> rfl
  rw [hseq]
  refine ⟨fun {s t} ht => ?_, fun {s w rest} hw hs hb hb' => ?_⟩
  · obtain ⟨m, hm, htm⟩ := List.mem_flatMap.1 ht
    obtain ⟨rfl, hb⟩ := mem_ends_wordBoundary.1 hm
    obtain ⟨w, hw, hst, hb'⟩ := hsound htm
    exact ⟨w, hw, hst, hb, hb'⟩
  · obtain ⟨t, ht⟩ := List.exists_mem_of_ne_nil _ (hcomplete hw hs hb')
    exact List.ne_nil_of_mem (List.mem_flatMap.2 ⟨s, mem_ends_wordBoundary.2 ⟨rfl, hb⟩, ht⟩)

/-! ## What a substitution leaves -/

/-- `r.sub(repl, ...)` from a position on. -/
def subFrom (r : Re) (repl : List Char) (pos : Nat) (before after : List Char) : List Char :=
  substitute repl (matchesFrom r pos before after) pos after

section Substitution

variable {r q : Re} {repl before after rest : List Char} {pos : Nat}

theorem subFrom_nil (hr : ¬ r.Lang []) : subFrom r repl pos before [] = [] := by
  rw [subFrom, matchesFrom_nil hr, substitute]

/-- A character at which nothing matches is kept. -/
theorem subFrom_cons (hr : ¬ r.Lang []) {c : Char} (h : r.ends ⟨before, c :: rest, []⟩ = []) :
    subFrom r repl pos before (c :: rest) = c :: subFrom r repl (pos + 1) (c :: before) rest := by
  rw [subFrom, subFrom, matchesFrom_cons h]
  have hstart := (@matchesFrom_ordered r hr _ (pos + 1) (c :: before) rest rfl).1
  cases hms : matchesFrom r (pos + 1) (c :: before) rest with
  | nil => rfl
  | cons m ms =>
    have hm := hstart m (hms ▸ List.mem_cons_self)
    obtain ⟨i, hi⟩ := Nat.exists_eq_add_of_le hm.1
    obtain ⟨j, hj⟩ := Nat.exists_eq_add_of_le (le_trans hm.1 (Nat.le_of_lt hm.2.1))
    have hi' : m.start - pos = i + 1 := by omega
    have hj' : m.stop - pos = j + 1 := by omega
    rw [substitute, substitute, hi', hj', List.take_succ_cons, List.drop_succ_cons]
    have hi'' : m.start - (pos + 1) = i := by omega
    have hj'' : m.stop - (pos + 1) = j := by omega
    rw [hi'', hj'', List.cons_append, List.cons_append]

/-- A match is replaced. -/
theorem subFrom_match {w : List Char} {g : List (Nat × List Char)} (hw : w ≠ [])
    (h : (r.ends ⟨before, w ++ rest, []⟩).head? = some ⟨w.reverse ++ before, rest, g⟩) :
    subFrom r repl pos before (w ++ rest) =
      repl ++ subFrom r repl (pos + w.length) (w.reverse ++ before) rest := by
  rw [subFrom, subFrom, matchesFrom_match hw h, substitute]
  simp

/-- A text without matches is left as it is. -/
theorem sub_of_not_search {text : List Char} (h : search r text = false) : sub r repl text = text := by
  have hnil : finditer r text = [] := by simpa [search] using h
  rw [sub, hnil, substitute]

/-- A search finds nothing iff the pattern matches at no position. -/
theorem search_eq_false_iff (hr : ¬ r.Lang []) {text : List Char} :
    search r text = false ↔ ∀ u v, text = u ++ v → r.ends ⟨u.reverse, v, []⟩ = [] := by
  have hsearch : search r text = false ↔ matchesFrom r 0 [] text = [] := by
    rw [search, Bool.not_eq_false', List.isEmpty_iff]
    rfl
  rw [hsearch]
  constructor
  · rintro h u v rfl
    rw [← List.append_nil u.reverse]
    refine ends_of_uncovered hr 0 rfl fun m hm => ?_
    rw [h] at hm
    exact absurd hm List.not_mem_nil
  · intro h
    rw [← List.append_nil text, matchesFrom_skip fun w₁ w₂ hw _ => ?_]
    · exact matchesFrom_nil hr
    · rw [List.append_nil, List.append_nil]
      exact h w₁ w₂ hw

/-- A character of the output stood in the input or stands in the replacement. -/
theorem mem_subFrom (hr : ¬ r.Lang []) {c : Char} {n : Nat} : ∀ {pos : Nat} {before after : List Char},
    after.length = n → c ∈ subFrom r repl pos before after → c ∈ repl ∨ c ∈ after := by
  induction n using Nat.strong_induction_on with
  | _ n ih =>
    intro pos before after hn hc
    by_cases hends : r.ends ⟨before, after, []⟩ = []
    · cases after with
      | nil =>
        rw [subFrom_nil hr] at hc
        cases hc
      | cons e after =>
        rw [subFrom_cons hr hends] at hc
        rcases List.mem_cons.1 hc with rfl | hc
        · exact .inr List.mem_cons_self
        · exact (ih after.length (by rw [← hn]; simp) rfl hc).imp_right (List.mem_cons_of_mem e)
    · obtain ⟨w, rest, g, hw, rfl, hhead⟩ := matchesFrom_step hr hends
      have hlen := List.length_pos_iff.2 hw
      rw [subFrom_match hw hhead] at hc
      rcases List.mem_append.1 hc with hc | hc
      · exact .inl hc
      · exact (ih rest.length (by rw [← hn, List.length_append]; omega) rfl hc).imp_right
          (List.mem_append_right w)

variable {o c : Char}

/-- A text without the opening character stands in the output only where it stood in the input. -/
theorem prefix_of_subFrom (hr : ¬ r.Lang []) (hopen : repl.head? = some o) {w x : List Char}
    (ho : o ∉ w) (h : subFrom r repl pos before after = w ++ x) :
    ∃ rest, after = w ++ rest ∧ x = subFrom r repl (pos + w.length) (w.reverse ++ before) rest := by
  induction w generalizing pos before after with
  | nil => exact ⟨after, rfl, h.symm⟩
  | cons d w ih =>
    by_cases hends : r.ends ⟨before, after, []⟩ = []
    · cases after with
      | nil => simp [subFrom_nil hr] at h
      | cons e after =>
        rw [subFrom_cons hr hends, List.cons_append, List.cons.injEq] at h
        obtain ⟨rfl, h⟩ := h
        obtain ⟨rest, rfl, rfl⟩ := ih (fun hm => ho (List.mem_cons_of_mem e hm)) h
        refine ⟨rest, rfl, ?_⟩
        rw [List.length_cons, List.reverse_cons, List.append_assoc, List.singleton_append, Nat.add_assoc,
          Nat.add_comm 1]
    · -- a match puts the opening character here
      obtain ⟨u, rest, g, hu, rfl, hhead⟩ := matchesFrom_step hr hends
      rw [subFrom_match hu hhead] at h
      have hd : (repl ++ subFrom r repl (pos + u.length) (u.reverse ++ before) rest).head? = some d := by
        rw [h]
        rfl
      rw [List.head?_append, hopen, Option.some_or, Option.some.injEq] at hd
      exact absurd (hd ▸ List.mem_cons_self) ho

end Substitution

/-! ## Walls -/

/-- The replacements of `r` by `repl` wall `q` off: it matches nowhere inside of one, and at a place
between two of them only if it did so in the input. `f` is what `q` asks of the place it starts at. -/
structure Re.Walled (q r : Re) (repl : List Char) (f : Option Char → Option Char → Bool) : Prop where
  kept : ∀ {pos : Nat} {before before' after : List Char}, r.ends ⟨before, after, []⟩ = [] →
    (∀ e ∈ after.head?, f before'.head? (some e) = true → f before.head? (some e) = true) →
    q.ends ⟨before', subFrom r repl pos before after, []⟩ ≠ [] → q.ends ⟨before, after, []⟩ ≠ []
  inside : ∀ {u y before rest : List Char}, repl = u ++ y → y ≠ [] →
    q.ends ⟨u.reverse ++ before, y ++ rest, []⟩ = []
  next : ∀ {s t : State} {before' : List Char}, t ∈ r.ends s → ∀ e ∈ t.after.head?,
    f (repl.reverse ++ before').head? (some e) = true → f t.before.head? (some e) = true

section Walls

variable {r q : Re} {repl : List Char} {f : Option Char → Option Char → Bool}

/-- The places of the output: a pattern walled off by the replacement matches at none of them, if it
matches at none of the input where `r` does not. -/
theorem Re.Walled.ends_subFrom (h : q.Walled r repl f) (hr : ¬ r.Lang []) {n : Nat} :
    ∀ {pos : Nat} {before before' after : List Char}, after.length = n →
      (∀ u v, after = u ++ v → r.ends ⟨u.reverse ++ before, v, []⟩ = [] →
        q.ends ⟨u.reverse ++ before, v, []⟩ = []) →
      (∀ e ∈ after.head?, f before'.head? (some e) = true → f before.head? (some e) = true) →
      ∀ u x, subFrom r repl pos before after = u ++ x → q.ends ⟨u.reverse ++ before', x, []⟩ = [] := by
  induction n using Nat.strong_induction_on with
  | _ n ih =>
    intro pos before before' after hn hskip hagree u x hout
    by_cases hends : r.ends ⟨before, after, []⟩ = []
    · cases u with
      | nil =>
        by_contra hne
        rw [List.nil_append] at hout
        rw [← hout] at hne
        exact h.kept hends hagree hne (hskip [] after rfl hends)
      | cons e u =>
        cases after with
        | nil => simp [subFrom_nil hr] at hout
        | cons e' after =>
          rw [subFrom_cons hr hends, List.cons_append, List.cons.injEq] at hout
          obtain ⟨rfl, hout⟩ := hout
          have hrec := @ih after.length (by rw [← hn]; simp) (pos + 1) (e' :: before) (e' :: before')
            after rfl (fun u v hv => ?_) (fun _ _ h => h) u x hout
          · simpa using hrec
          · have := hskip (e' :: u) v (by rw [hv, List.cons_append])
            simpa using this
    · obtain ⟨w, rest, g, hw, rfl, hhead⟩ := matchesFrom_step hr hends
      have hlen := List.length_pos_iff.2 hw
      rw [subFrom_match hw hhead] at hout
      have hsplit : (∃ u', u = repl ++ u' ∧
            subFrom r repl (pos + w.length) (w.reverse ++ before) rest = u' ++ x) ∨
          ∃ y, y ≠ [] ∧ repl = u ++ y ∧
            x = y ++ subFrom r repl (pos + w.length) (w.reverse ++ before) rest := by
        rcases List.append_eq_append_iff.1 hout with hu | ⟨y, hy, hx⟩
        · exact .inl hu
        · by_cases hnil : y = []
          · subst hnil
            exact .inl ⟨[], by simpa using hy.symm, hx.symm⟩
          · exact .inr ⟨y, hnil, hy, hx⟩
      rcases hsplit with ⟨u', rfl, htail⟩ | ⟨y, hy, hrepl, rfl⟩
      · -- after the replacement
        have hrec := @ih rest.length (by rw [← hn, List.length_append]; omega) (pos + w.length)
          (w.reverse ++ before) (repl.reverse ++ before') rest rfl (fun u v hv => ?_)
          (h.next (List.mem_of_head? hhead)) u' x htail
        · simpa using hrec
        · have := hskip (w ++ u) v (by rw [hv, List.append_assoc])
          simpa using this
      · exact h.inside hrepl hy

/-- A pattern that is walled off by a replacement, and is the one replaced or did not match before, does
not match afterwards. -/
theorem Re.Walled.search_sub (h : q.Walled r repl f) (hr : ¬ r.Lang []) (hq : ¬ q.Lang [])
    {text : List Char} (hbefore : q = r ∨ search q text = false) : search q (sub r repl text) = false := by
  refine (search_eq_false_iff hq).2 fun u v huv => ?_
  rw [← List.append_nil u.reverse]
  refine h.ends_subFrom hr rfl (fun u v huv hends => ?_) (fun _ _ h => h) u v huv
  rcases hbefore with rfl | hbefore
  · exact hends
  · rw [List.append_nil]
    exact (search_eq_false_iff hq).1 hbefore u v huv

/-- Whatever follows `repl`, no text of `L` starts inside of it. -/
def StartsOutside (L : List Char → Prop) (repl : List Char) : Prop :=
  ∀ w, L w → ∀ y rest, y ≠ [] → y <:+ repl → ¬ w <+: y ++ rest

variable {L : List Char → Prop} {o c : Char}

/-- A text that has a character `repl` lacks and lacks the last one of `repl`. -/
theorem startsOutside_of_last (hclose : repl.getLast? = some c)
    (h : ∀ w, L w → c ∉ w ∧ ∃ d ∈ w, d ∉ repl) : StartsOutside L repl := by
  rintro w hw y rest hy hsuffix hpre
  obtain ⟨hc, d, hd, hnd⟩ := h w hw
  obtain ⟨u, rfl⟩ := hsuffix
  have hcy : c ∈ y := by
    rw [List.getLast?_append_of_ne_nil u hy] at hclose
    exact List.mem_of_getLast? hclose
  rcases List.prefix_or_prefix_of_prefix hpre (List.prefix_append y rest) with hwy | hyw
  · exact hnd (List.mem_append_right u (hwy.mem hd))
  · exact hc (hyw.mem hcy)

/-- A text that starts with a character `repl` lacks. -/
theorem startsOutside_of_head (h : ∀ w, L w → ∃ d ∈ w.head?, d ∉ repl) : StartsOutside L repl := by
  rintro w hw y rest hy hsuffix ⟨z, hz⟩
  obtain ⟨d, hd, hnd⟩ := h w hw
  obtain ⟨e, y, rfl⟩ := List.exists_cons_of_ne_nil hy
  have hhead := congrArg List.head? hz
  rw [List.head?_append, Option.mem_def.1 hd] at hhead
  have hde : d = e := by simpa using hhead
  exact hnd (hsuffix.mem (hde ▸ List.mem_cons_self))

section TwoConditions

variable {Lr : List Char → Prop} {fr : Option Char → Option Char → Bool} {before after : List Char}
  {pos : Nat}

/-- What holds between a character and the next one of the output holds before the next one of the
input, which may be the start of a match. -/
theorem next_of_subFrom (hr : ¬ r.Lang []) (hbr : r.Between Lr fr)
    (himp : ∀ b a, fr b a = true → f b a = true)
    (h : f before.head? (subFrom r repl pos before after).head? = true) :
    f before.head? after.head? = true := by
  by_cases hends : r.ends ⟨before, after, []⟩ = []
  · cases after with
    | nil => rwa [subFrom_nil hr] at h
    | cons e after => rwa [subFrom_cons hr hends] at h
  · obtain ⟨t, ht⟩ := List.exists_mem_of_ne_nil _ hends
    obtain ⟨-, -, -, hb, -⟩ := hbr.sound ht
    exact himp _ _ hb

/-- A pattern between two conditions that hold around every match of `r` too. -/
theorem Re.Between.walled (hbq : q.Between L f) (hbr : r.Between Lr fr) (hr : ¬ r.Lang [])
    (himp : ∀ b a, fr b a = true → f b a = true) (hopen : repl.head? = some o)
    (hwall : ∀ w, L w → w ≠ [] ∧ o ∉ w) (hout : StartsOutside L repl) : q.Walled r repl f where
  kept {pos before before' after} _ hagree hne := by
    obtain ⟨t, ht⟩ := List.exists_mem_of_ne_nil _ hne
    obtain ⟨w, hw, hst, hb, hb'⟩ := hbq.sound ht
    obtain ⟨hnil, ho⟩ := hwall w hw
    obtain ⟨e, w, rfl⟩ := List.exists_cons_of_ne_nil hnil
    have hx : subFrom r repl pos before after = (e :: w) ++ t.after := hst.1
    obtain ⟨rest, rfl, hrest⟩ := prefix_of_subFrom hr hopen ho hx
    have hlast : t.before.head? = ((e :: w).reverse ++ before).head? := by
      rw [hst.2, List.head?_append, List.head?_append]
      simp
    rw [hx] at hb
    rw [hlast, hrest] at hb'
    exact hbq.complete hw rfl (hagree e rfl hb) (next_of_subFrom hr hbr himp hb')
  inside {u y before rest} hrepl hy := by
    by_contra hne
    obtain ⟨t, ht⟩ := List.exists_mem_of_ne_nil _ hne
    obtain ⟨w, hw, hst, -⟩ := hbq.sound ht
    exact hout w hw y rest hy ⟨u, hrepl.symm⟩ ⟨t.after, hst.1.symm⟩
  next {s t before'} ht e he _ := by
    obtain ⟨-, -, -, -, hend⟩ := hbr.sound ht
    rw [Option.mem_def.1 he] at hend
    exact himp _ _ hend

end TwoConditions

/-- The pattern matches where a text of `L` stands and `f` holds of the characters around its start. -/
def Re.Anchored (q : Re) (L : List Char → Prop) (f : Option Char → Option Char → Bool) : Prop :=
  ∀ s : State, q.ends s ≠ [] ↔ f s.before.head? s.after.head? = true ∧ ∃ w, L w ∧ w <+: s.after

theorem Re.Plain.anchored (h : q.Plain) : q.Anchored q.Lang fun _ _ => true := fun s => by
  rw [ends_ne_nil_iff h]
  simp

/-- `^` before plain patterns. -/
theorem anchored_lineStart {rs : List Re} (hne : rs ≠ []) (h : (seqs rs).Plain) :
    (seqs (lineStart :: rs)).Anchored (seqs rs).Lang fun b _ => b.all (· == '\n') := by
  obtain ⟨r, rs, rfl⟩ := List.exists_cons_of_ne_nil hne
  intro s
  rw [← ends_ne_nil_iff h, show seqs (lineStart :: r :: rs) = .seq lineStart (seqs (r :: rs)) from rfl,
    Re.ends, lineStart, Re.ends]
  cases hs : s.before.head?.all (· == '\n') <;> simp [hs]

/-- An anchored pattern, none of whose texts goes on with the character that opens `repl`. -/
theorem Re.Anchored.walled (hq : q.Anchored L f) (hr : ¬ r.Lang []) (hopen : repl.head? = some o)
    (hclose : repl.getLast? = some c) (hwall : ∀ w, L w → w ≠ [] ∧ o ∉ w.tail)
    (hout : StartsOutside L repl) (hnext : ∀ b a, f (some c) a = true → f b a = true) :
    q.Walled r repl f where
  kept {pos before before' after} hends hagree hne := by
    obtain ⟨hf, w, hw, x, hx⟩ := (hq _).1 hne
    obtain ⟨hnil, ho⟩ := hwall w hw
    obtain ⟨e, w, rfl⟩ := List.exists_cons_of_ne_nil hnil
    cases after with
    | nil => simp [subFrom_nil hr] at hx
    | cons d after =>
      dsimp only at hf hx
      rw [subFrom_cons hr hends] at hf hx
      obtain ⟨rfl, hx⟩ := List.cons.inj hx
      obtain ⟨rest, rfl, -⟩ := prefix_of_subFrom hr hopen ho hx.symm
      exact (hq _).2 ⟨hagree e rfl hf, e :: w, hw, rest, rfl⟩
  inside {u y before rest} hrepl hy := by
    by_contra hne
    obtain ⟨-, w, hw, hpre⟩ := (hq _).1 hne
    exact hout w hw y rest hy ⟨u, hrepl.symm⟩ hpre
  next {s t before'} _ e _ h := by
    rw [List.head?_append, List.head?_reverse, hclose, Option.some_or] at h
    exact hnext _ _ h

end Walls

end Regex
