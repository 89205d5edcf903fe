import KnowledgeDesk.Lib.PyText
import Mathlib.Data.List.Infix

/-!
# The words of a text

What `s.split()` finds and `' '.join(s.split())` makes of a text: every run of white space becomes one
space, and a part of a text stays a part of it.
-/

namespace PyText

/-- `' '.join(s.split())`. -/
def collapse (s : List Char) : List Char := [' '].intercalate (split s)

/-- A text with every run of white space as one space; `inRun` says whether white space came before. -/
def squeezeFrom : Bool → List Char → List Char
  | _, [] => []
  | inRun, c :: s =>
    if isSpace c then if inRun then squeezeFrom true s else ' ' :: squeezeFrom true s
    else c :: squeezeFrom false s

/-- A text with every run of white space as one space. -/
def squeeze (s : List Char) : List Char := squeezeFrom false s

/-- Words: not empty, and without white space. -/
def AreWords (ws : List (List Char)) : Prop := ∀ w ∈ ws, w ≠ [] ∧ ∀ c ∈ w, isSpace c = false

variable {s t w word : List Char} {ws : List (List Char)} {c : Char}

/-! ## Joining -/

theorem join_cons (hws : ws ≠ []) : [' '].intercalate (w :: ws) = w ++ ' ' :: [' '].intercalate ws := by
  obtain ⟨v, ws, rfl⟩ := List.exists_cons_of_ne_nil hws
  rw [List.intercalate_cons_cons, List.append_assoc]
  rfl

theorem join_suffix : [' '].intercalate ws <:+ [' '].intercalate (w :: ws) := by
  cases ws with
  | nil => exact List.nil_suffix
  | cons v ws =>
    rw [join_cons (List.cons_ne_nil v ws)]
    exact (List.suffix_cons _ _).trans (List.suffix_append _ _)

theorem join_prefix {ws' : List (List Char)} (h : ws <+: ws') :
    [' '].intercalate ws <+: [' '].intercalate ws' := by
  induction ws generalizing ws' with
  | nil => exact List.nil_prefix
  | cons w ws ih =>
    obtain ⟨rest, rfl⟩ := h
    rw [List.cons_append]
    have hrest := ih (List.prefix_append ws rest)
    by_cases hws : ws = []
    · subst hws
      rw [List.intercalate_singleton, List.nil_append]
      cases rest with
      | nil =>
        rw [List.intercalate_singleton]
      | cons v rest =>
        rw [join_cons (List.cons_ne_nil v rest)]
        exact List.prefix_append _ _
    · rw [join_cons hws, join_cons (by simp [hws])]
      exact (List.prefix_append_right_inj w).2 ((List.prefix_cons_inj ' ').2 hrest)

/-! ## Splitting -/

theorem splitAux_ne_nil (h : word ≠ [] ∨ ∃ c ∈ s, isSpace c = false) : splitAux word s ≠ [] := by
  induction s generalizing word with
  | nil =>
    have hword : word ≠ [] := h.resolve_right fun ⟨c, hc, _⟩ => List.not_mem_nil hc
    rw [splitAux, if_neg (by simpa using hword)]
    exact List.cons_ne_nil _ _
  | cons c s ih =>
    rw [splitAux]
    by_cases hc : isSpace c = true
    · rw [if_pos hc]
      by_cases hword : word = []
      · rw [if_pos (by simp [hword])]
        refine ih (.inr ?_)
        obtain ⟨d, hd, hspace⟩ := h.resolve_left fun hne => hne hword
        rcases List.mem_cons.1 hd with rfl | hd
        · rw [hc] at hspace
          cases hspace
        · exact ⟨d, hd, hspace⟩
      · rw [if_neg (by simpa using hword)]
        exact List.cons_ne_nil _ _
    · rw [if_neg hc]
      exact ih (.inl (List.cons_ne_nil c word))

theorem areWords_splitAux (hword : ∀ c ∈ word, isSpace c = false) : AreWords (splitAux word s) := by
  have hreverse : ∀ {word : List Char}, word.isEmpty = false → (∀ c ∈ word, isSpace c = false) →
      word.reverse ≠ [] ∧ ∀ c ∈ word.reverse, isSpace c = false := fun hne hword =>
    ⟨by simpa using hne, fun c hc => hword c (List.mem_reverse.1 hc)⟩
  induction s generalizing word with
  | nil =>
    rw [splitAux]
    split
    · exact fun _ h => absurd h List.not_mem_nil
    · rename_i hne
      intro v hv
      rw [List.mem_singleton.1 hv]
      exact hreverse (by simpa using hne) hword
  | cons c s ih =>
    have hnil : AreWords (splitAux [] s) := ih fun _ h => absurd h List.not_mem_nil
    rw [splitAux]
    split
    · split
      · exact hnil
      · rename_i hne
        intro v hv
        rcases List.mem_cons.1 hv with rfl | hv
        · exact hreverse (by simpa using hne) hword
        · exact hnil v hv
    · rename_i hc
      refine ih fun d hd => ?_
      rcases List.mem_cons.1 hd with rfl | hd
      · simpa using hc
      · exact hword d hd

theorem areWords_split (s : List Char) : AreWords (split s) :=
  areWords_splitAux fun _ h => absurd h List.not_mem_nil

/-- A word is read up to the white space after it. -/
theorem splitAux_word (hw : ∀ c ∈ w, isSpace c = false) :
    splitAux word (w ++ s) = splitAux (w.reverse ++ word) s := by
  induction w generalizing word with
  | nil => rfl
  | cons c w ih =>
    have hc : ¬ isSpace c = true := by simp [hw c List.mem_cons_self]
    rw [List.cons_append, splitAux, if_neg hc, ih fun d hd => hw d (List.mem_cons_of_mem c hd),
      List.reverse_cons, List.append_assoc]
    rfl

/-- Joined words are read back. -/
theorem split_join (hws : AreWords ws) : split ([' '].intercalate ws) = ws := by
  induction ws with
  | nil => rfl
  | cons w ws ih =>
    obtain ⟨hne, hw⟩ := hws w List.mem_cons_self
    have hrest := ih fun v hv => hws v (List.mem_cons_of_mem w hv)
    have hword : w.reverse.isEmpty = false := by simpa using hne
    by_cases hnil : ws = []
    · subst hnil
      rw [List.intercalate_singleton, split, ← List.append_nil w, splitAux_word hw, List.append_nil, splitAux,
        hword, if_neg Bool.false_ne_true, List.reverse_reverse, List.append_nil]
    · rw [join_cons hnil, split, splitAux_word hw, List.append_nil, splitAux, if_pos (by decide), hword,
        if_neg Bool.false_ne_true, List.reverse_reverse, ← split, hrest]

/-- Split a text of which some characters were dropped and others replaced, but no white space was made or
lost: the words are those of the text, treated so, less the ones of which nothing is left. -/
theorem split_filterMap {f : Char → Option Char} (hspace : ∀ c, isSpace c = true → f c = some c)
    (hword : ∀ c d, isSpace c = false → f c = some d → isSpace d = false) (s : List Char) :
    split (s.filterMap f) = ((split s).map (List.filterMap f)).filter (· ≠ []) := by
  have haux : ∀ s word : List Char, splitAux (word.filterMap f) (s.filterMap f) =
      ((splitAux word s).map (List.filterMap f)).filter (· ≠ []) := by
    intro s
    induction s with
    | nil =>
      intro word
      rw [List.filterMap_nil, splitAux, splitAux]
      by_cases hw : word = []
      · subst hw
        rfl
      · have hword' : ¬ word.isEmpty = true := by simpa using hw
        rw [if_neg hword', List.map_singleton, List.filterMap_reverse, List.filter_singleton]
        cases word.filterMap f <;> simp
    | cons c s ih =>
      intro word
      rw [splitAux]
      by_cases hc : isSpace c = true
      · rw [List.filterMap_cons_some (hspace c hc), splitAux, if_pos hc, if_pos hc]
        have hrest := ih []
        rw [List.filterMap_nil] at hrest
        by_cases hw : word = []
        · subst hw
          exact hrest
        · rw [if_neg (by simpa using hw : ¬ word.isEmpty = true), List.map_cons, List.filterMap_reverse,
            List.filter_cons, hrest]
          cases word.filterMap f <;> simp
      · rw [if_neg hc]
        cases hf : f c with
        | none =>
          rw [List.filterMap_cons_none hf, ← ih, List.filterMap_cons_none hf]
        | some d =>
          have hd : ¬ isSpace d = true := by simp [hword c d (by simpa using hc) hf]
          rw [List.filterMap_cons_some hf, splitAux, if_neg hd, ← ih, List.filterMap_cons_some hf]
  exact haux s []

/-! ## Squeezing -/

/-- Whether white space comes before what follows the text. -/
def endsInRun (inRun : Bool) (s : List Char) : Bool := (s.getLast?.map isSpace).getD inRun

theorem squeezeFrom_append (inRun : Bool) (s t : List Char) :
    squeezeFrom inRun (s ++ t) = squeezeFrom inRun s ++ squeezeFrom (endsInRun inRun s) t := by
  induction s generalizing inRun with
  | nil => rfl
  | cons c s ih =>
    have hends : endsInRun inRun (c :: s) = endsInRun (isSpace c) s := by
      cases s with
      | nil => rfl
      | cons d s => simp [endsInRun, List.getLast?_eq_some_getLast]
    rw [List.cons_append, squeezeFrom, squeezeFrom, hends]
    by_cases hc : isSpace c = true
    · rw [if_pos hc, if_pos hc, hc, ih]
      cases inRun <;> rfl
    · rw [if_neg hc, if_neg hc, eq_false_of_ne_true hc, ih, List.cons_append]

/-- Text that does not begin with white space is squeezed the same wherever it stands. -/
theorem squeezeFrom_head {inRun : Bool} (h : ∀ c ∈ s.head?, isSpace c = false) :
    squeezeFrom inRun s = squeeze s := by
  cases s with
  | nil => rfl
  | cons c s =>
    have hc : ¬ isSpace c = true := by simp [h c rfl]
    rw [squeeze, squeezeFrom, squeezeFrom, if_neg hc, if_neg hc]

theorem squeeze_append_head (h : ∀ c ∈ t.head?, isSpace c = false) :
    squeeze (s ++ t) = squeeze s ++ squeeze t := by
  rw [squeeze, squeezeFrom_append, squeezeFrom_head h, ← squeeze]

theorem squeeze_append_last (h : ∃ c ∈ s.getLast?, isSpace c = false) :
    squeeze (s ++ t) = squeeze s ++ squeeze t := by
  obtain ⟨c, hc, hspace⟩ := h
  have hends : endsInRun false s = false := by rw [endsInRun, Option.mem_def.1 hc, Option.map_some, hspace]; rfl
  rw [squeeze, squeezeFrom_append, hends, squeeze, squeeze]

/-- Where the text neither begins nor ends with white space, joining its words is squeezing it. -/
theorem join_splitAux_eq (hlast : ∀ c ∈ s.getLast?, isSpace c = false) :
    (word ≠ [] → [' '].intercalate (splitAux word s) = word.reverse ++ squeezeFrom false s) ∧
      (s ≠ [] → [' '].intercalate (splitAux [] s) = squeezeFrom true s) := by
  induction s generalizing word with
  | nil =>
    refine ⟨fun hword => ?_, fun h => absurd rfl h⟩
    rw [splitAux, if_neg (by simpa using hword), List.intercalate_singleton, squeezeFrom, List.append_nil]
  | cons c s ih =>
    have hlast' : ∀ d ∈ s.getLast?, isSpace d = false := fun d hd => hlast d (by
      rw [List.getLast?_cons, Option.mem_def.1 hd]
      rfl)
    by_cases hc : isSpace c = true
    · have hs : s ≠ [] := by
        rintro rfl
        have := hlast c rfl
        rw [hc] at this
        cases this
      obtain ⟨d, hd⟩ := Option.ne_none_iff_exists'.1 (mt List.getLast?_eq_none_iff.1 hs)
      have hsplit : splitAux [] s ≠ [] :=
        splitAux_ne_nil (.inr ⟨d, List.mem_of_getLast? hd, hlast' d hd⟩)
      refine ⟨fun hword => ?_, fun _ => ?_⟩
      · rw [splitAux, if_pos hc, if_neg (by simpa using hword), join_cons hsplit, (@ih [] hlast').2 hs,
          squeezeFrom, if_pos hc, if_neg Bool.false_ne_true]
      · rw [splitAux, if_pos hc, if_pos (by rfl), (@ih [] hlast').2 hs, squeezeFrom, if_pos hc, if_pos rfl]
    · refine ⟨fun _ => ?_, fun _ => ?_⟩
      · rw [splitAux, if_neg hc, (ih hlast').1 (List.cons_ne_nil c word), squeezeFrom, if_neg hc,
          List.reverse_cons, List.append_assoc]
        rfl
      · rw [splitAux, if_neg hc, (ih hlast').1 (List.cons_ne_nil c []), squeezeFrom, if_neg hc,
          List.reverse_singleton]
        rfl

theorem collapse_eq_squeeze (hhead : ∀ c ∈ s.head?, isSpace c = false)
    (hlast : ∀ c ∈ s.getLast?, isSpace c = false) : collapse s = squeeze s := by
  cases s with
  | nil => rfl
  | cons c s =>
    rw [collapse, split, (@join_splitAux_eq (c :: s) [] hlast).2 (List.cons_ne_nil c s), squeezeFrom_head hhead]

theorem squeeze_word (hw : ∀ c ∈ w, isSpace c = false) : squeeze w = w := by
  induction w with
  | nil => rfl
  | cons c w ih =>
    have hc : ¬ isSpace c = true := by simp [hw c List.mem_cons_self]
    rw [squeeze, squeezeFrom, if_neg hc, ← squeeze, ih fun d hd => hw d (List.mem_cons_of_mem c hd)]

/-- Joined words are squeezed already. -/
theorem squeeze_join (hws : AreWords ws) : squeeze ([' '].intercalate ws) = [' '].intercalate ws := by
  induction ws with
  | nil => rfl
  | cons w ws ih =>
    obtain ⟨hne, hw⟩ := hws w List.mem_cons_self
    by_cases hnil : ws = []
    · subst hnil
      rw [List.intercalate_singleton, squeeze_word hw]
    · have hrest : AreWords ws := fun v hv => hws v (List.mem_cons_of_mem w hv)
      have hspace : ∀ c ∈ ([' '].intercalate ws).head?, isSpace c = false := by
        obtain ⟨v, vs, rfl⟩ := List.exists_cons_of_ne_nil hnil
        obtain ⟨hv, hvs⟩ := hws v (by simp)
        obtain ⟨d, v, rfl⟩ := List.exists_cons_of_ne_nil hv
        intro c hc
        cases vs with
        | nil => exact hvs c (List.mem_of_mem_head? hc)
        | cons u us =>
          rw [join_cons (List.cons_ne_nil u us)] at hc
          exact hvs c (by
            rw [← Option.some.inj hc]
            exact List.mem_cons_self)
      have hlast : ∃ c ∈ w.getLast?, isSpace c = false :=
        ⟨w.getLast hne, List.getLast?_eq_some_getLast hne, hw _ (List.getLast_mem hne)⟩
      rw [join_cons hnil, squeeze_append_last hlast, squeeze_word hw, ← List.singleton_append,
        squeeze_append_head hspace, ih hrest]
      rfl

/-! ## Parts of a text -/

theorem collapse_cons : collapse s <:+ collapse (c :: s) := by
  have hfront : ∀ {s word : List Char},
      [' '].intercalate (splitAux word s) <:+ [' '].intercalate (splitAux (word ++ [c]) s) := by
    intro s
    induction s with
    | nil =>
      intro word
      rw [splitAux, splitAux, if_neg (by simp : ¬ (word ++ [c]).isEmpty = true)]
      split
      · exact List.nil_suffix
      · rw [List.intercalate_singleton, List.intercalate_singleton, List.reverse_append]
        exact List.suffix_append _ _
    | cons d s ih =>
      intro word
      rw [splitAux, splitAux]
      by_cases hd : isSpace d = true
      · rw [if_pos hd, if_pos hd, if_neg (by simp : ¬ (word ++ [c]).isEmpty = true)]
        split
        · exact join_suffix
        · by_cases hnil : splitAux [] s = []
          · rw [hnil, List.intercalate_singleton, List.intercalate_singleton, List.reverse_append]
            exact List.suffix_append _ _
          · rw [join_cons hnil, join_cons hnil, List.reverse_append, List.append_assoc]
            exact List.suffix_append _ _
      · rw [if_neg hd, if_neg hd]
        exact ih
  rw [collapse, collapse, split, split, splitAux]
  split
  · exact List.suffix_refl _
  · exact @hfront s []

theorem collapse_concat : collapse s <+: collapse (s ++ [c]) := by
  have hback : ∀ {s word : List Char},
      [' '].intercalate (splitAux word s) <+: [' '].intercalate (splitAux word (s ++ [c])) := by
    intro s
    induction s with
    | nil =>
      intro word
      rw [List.nil_append, splitAux]
      by_cases hword : word = []
      · subst hword
        exact List.nil_prefix
      · have hword' : ¬ word.isEmpty = true := by simpa using hword
        rw [if_neg hword', splitAux]
        split
        · exact join_prefix (List.prefix_append [word.reverse] _)
        · rw [splitAux, if_neg (by simp), List.intercalate_singleton, List.intercalate_singleton,
            List.reverse_cons]
          exact List.prefix_append _ _
    | cons d s ih =>
      intro word
      rw [List.cons_append, splitAux, splitAux]
      by_cases hd : isSpace d = true
      · rw [if_pos hd, if_pos hd]
        split
        · exact ih
        · by_cases hnil : splitAux [] s = []
          · rw [hnil]
            exact join_prefix (List.prefix_append [word.reverse] _)
          · have hne : splitAux [] (s ++ [c]) ≠ [] := by
              intro h
              have := @ih []
              rw [h] at this
              obtain ⟨v, vs, hv⟩ := List.exists_cons_of_ne_nil hnil
              have hvne := (areWords_split s v (by rw [split, hv]; exact List.mem_cons_self)).1
              rw [hv, List.intercalate_nil, List.prefix_nil] at this
              cases vs with
              | nil => exact hvne (by simpa using this)
              | cons u us =>
                rw [join_cons (List.cons_ne_nil u us)] at this
                exact hvne (List.append_eq_nil_iff.1 this).1
            rw [join_cons hnil, join_cons hne]
            exact (List.prefix_append_right_inj _).2 ((List.prefix_cons_inj ' ').2 ih)
      · rw [if_neg hd, if_neg hd]
        exact ih
  exact @hback s []

/-- What stands in a text stands in it when white space is collapsed in both. -/
theorem collapse_infix {u v : List Char} : collapse s <:+: collapse (u ++ (s ++ v)) := by
  have hright : collapse s <+: collapse (s ++ v) := by
    induction v generalizing s with
    | nil => rw [List.append_nil]
    | cons c v ih =>
      have h : s ++ c :: v = (s ++ [c]) ++ v := by simp
      rw [h]
      exact collapse_concat.trans ih
  have hleft : collapse (s ++ v) <:+ collapse (u ++ (s ++ v)) := by
    induction u with
    | nil => exact List.suffix_refl _
    | cons c u ih => exact ih.trans collapse_cons
  exact hright.isInfix.trans hleft.isInfix

theorem contains_iff {sub : List Char} : contains s sub = true ↔ sub <:+: s := by
  rw [contains, List.any_eq_true, List.infix_iff_prefix_suffix]
  simp only [List.mem_tails, List.isPrefixOf_iff_prefix]
  exact ⟨fun ⟨t, hs, hp⟩ => ⟨t, hp, hs⟩, fun ⟨t, hp, hs⟩ => ⟨t, hs, hp⟩⟩

/-- A part without the character at which a text is cut lies on one side of it. -/
theorem infix_cut {α : Type*} {w u v : List α} {c : α} (hc : c ∉ w) : w <:+: u ++ c :: v ↔ w <:+: u ∨ w <:+: v := by
  constructor
  · rintro ⟨s, t, h⟩
    rcases List.append_eq_append_iff.1 h with ⟨a, hu, -⟩ | ⟨a, hu, hv⟩
    · exact .inl ⟨s, a, hu.symm⟩
    · cases a with
      | nil =>
        rw [List.append_nil] at hu
        exact .inl ⟨s, [], by rw [hu, List.append_nil]⟩
      | cons d a =>
        rw [List.cons_append, List.cons.injEq] at hv
        obtain ⟨rfl, rfl⟩ := hv
        rcases List.append_eq_append_iff.1 hu with ⟨b, -, hw⟩ | ⟨b, -, hw⟩
        · exact absurd (by rw [hw]; simp) hc
        · cases b with
          | nil => exact absurd (by rw [← List.nil_append w, ← hw]; exact List.mem_cons_self) hc
          | cons e b =>
            rw [List.cons_append, List.cons.injEq] at hw
            exact .inr ⟨b, t, by rw [hw.2]⟩
  · rintro (h | h)
    · exact h.trans (List.prefix_append u _).isInfix
    · exact h.trans ((List.suffix_cons c v).trans (List.suffix_append u _)).isInfix

/-- A part does not begin in a stretch that lacks its first character. -/
theorem infix_skip {α : Type*} {w u v : List α} {c : α} (hw : w.head? = some c) (hc : c ∉ u) :
    w <:+: u ++ v ↔ w <:+: v := by
  refine ⟨?_, fun h => h.trans (List.suffix_append u v).isInfix⟩
  induction u with
  | nil => exact id
  | cons d u ih =>
    intro h
    rw [List.cons_append, List.infix_cons_iff] at h
    rcases h with h | h
    · obtain ⟨t, ht⟩ := h
      cases w with
      | nil => cases hw
      | cons e w =>
        rw [List.head?_cons, Option.some.injEq] at hw
        exact absurd (by rw [← hw, (List.cons.inj ht).1]; exact List.mem_cons_self) hc
    · exact ih (fun hm => hc (List.mem_cons_of_mem d hm)) h

/-- A part does not end in a stretch that lacks its last character. -/
theorem infix_skip_last {α : Type*} {w u v : List α} {c : α} (hw : w.getLast? = some c) (hc : c ∉ v) :
    w <:+: u ++ v ↔ w <:+: u := by
  rw [← List.reverse_infix, List.reverse_append, ← @List.reverse_infix _ w u]
  exact infix_skip (by rw [List.head?_reverse, hw]) fun h => hc (List.mem_reverse.1 h)

end PyText
