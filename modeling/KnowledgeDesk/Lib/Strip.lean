import KnowledgeDesk.Lib.PyText
import Mathlib.Data.List.DropRight
import Mathlib.Data.List.Infix

/-!
# What `str.strip` cuts off

A stripped text is the text between its first and its last character that is not white space. Up to
white space (`ink`) it is the text.
-/

namespace PyText

/-- The characters of a text that are not white space. -/
def ink (s : List Char) : List Char := s.filter fun c => !isSpace c

theorem mem_ink {s : List Char} {c : Char} : c ∈ ink s ↔ c ∈ s ∧ isSpace c = false := by
  simp [ink]

@[simp] theorem ink_nil : ink [] = [] := rfl

theorem ink_append (s t : List Char) : ink (s ++ t) = ink s ++ ink t := List.filter_append ..

/-- Texts joined by what a filter drops. -/
theorem filter_intercalate {p : Char → Bool} {sep : List Char} (hsep : sep.filter p = [])
    (l : List (List Char)) : (sep.intercalate l).filter p = l.flatMap (List.filter p) := by
  induction l with
  | nil => rfl
  | cons x l ih =>
    cases l with
    | nil => simp
    | cons y l =>
      rw [List.intercalate_cons_cons, List.filter_append, List.filter_append, hsep, List.append_nil, ih,
        List.flatMap_cons, List.flatMap_cons, List.flatMap_cons]

theorem ink_intercalate {sep : List Char} (hsep : ink sep = []) (l : List (List Char)) :
    ink (sep.intercalate l) = l.flatMap ink := filter_intercalate hsep l

theorem ink_eq_nil_iff {s : List Char} : ink s = [] ↔ ∀ c ∈ s, isSpace c = true := by
  simp [ink, List.filter_eq_nil_iff]

theorem strip_eq (s : List Char) : strip s = (lstrip s).rdropWhile isSpace := rfl

theorem strip_prefix_lstrip (s : List Char) : strip s <+: lstrip s := by
  rw [strip_eq]
  exact List.rdropWhile_prefix isSpace _

/-- How many characters `str.lstrip` cuts off. -/
def leading (s : List Char) : Nat := s.findIdx fun c => !isSpace c

theorem lstrip_eq_drop (s : List Char) : lstrip s = s.drop (leading s) :=
  List.dropWhile_eq_drop_findIdx_not

/-- Where the stripped text stands in the text. -/
theorem strip_prefix_drop (s : List Char) : strip s <+: s.drop (leading s) := by
  rw [← lstrip_eq_drop]
  exact strip_prefix_lstrip s

theorem isSpace_of_lt_leading {s : List Char} {i : Nat} {c : Char} (hi : i < leading s)
    (hc : s[i]? = some c) : isSpace c = true := by
  obtain ⟨hlt, hget⟩ := List.getElem?_eq_some_iff.1 hc
  have hnot := List.not_of_lt_findIdx hi
  rw [hget] at hnot
  simpa using hnot

/-- The first character left. -/
theorem exists_getElem?_leading {s : List Char} (h : ink s ≠ []) :
    ∃ c, s[leading s]? = some c ∧ isSpace c = false := by
  obtain ⟨c, hc⟩ := List.exists_mem_of_ne_nil _ h
  have hlt : leading s < s.length := List.findIdx_lt_length_of_exists ⟨c, List.mem_filter.1 hc⟩
  have hfirst : (!isSpace s[leading s]) = true := List.findIdx_getElem (w := hlt)
  exact ⟨s[leading s], List.getElem?_eq_getElem hlt, by simpa using hfirst⟩

/-- What is cut off is white space. -/
theorem strip_split (s : List Char) : ∃ post, s = s.take (leading s) ++ strip s ++ post ∧
    ∀ c ∈ post, isSpace c = true := by
  refine ⟨(lstrip s).rtakeWhile isSpace, ?_, fun c hc => List.mem_rtakeWhile_imp hc⟩
  rw [strip_eq, List.append_assoc, List.rdropWhile_append_rtakeWhile, lstrip_eq_drop]
  exact (List.take_append_drop ..).symm

/-- A character that is not white space is kept. -/
theorem getElem?_strip {s : List Char} {i : Nat} {c : Char} (hget : s[i]? = some c)
    (hc : isSpace c = false) : leading s ≤ i ∧ (strip s)[i - leading s]? = some c := by
  have hle : leading s ≤ i := by
    by_contra hlt
    rw [isSpace_of_lt_leading (Nat.lt_of_not_le hlt) hget] at hc
    cases hc
  obtain ⟨post, hs, hpost⟩ := strip_split s
  have hlen : (s.take (leading s)).length = leading s := by
    rw [List.length_take]
    exact min_eq_left List.findIdx_le_length
  refine ⟨hle, ?_⟩
  rw [hs, List.append_assoc, List.getElem?_append_right (hlen.symm ▸ hle), hlen] at hget
  by_cases hin : i - leading s < (strip s).length
  · rwa [List.getElem?_append_left hin] at hget
  · rw [List.getElem?_append_right (Nat.not_lt.1 hin)] at hget
    rw [hpost c (List.mem_of_getElem? hget)] at hc
    cases hc

theorem ink_strip (s : List Char) : ink (strip s) = ink s := by
  obtain ⟨post, hs, hpost⟩ := strip_split s
  have hpre : ink (s.take (leading s)) = [] := by
    refine ink_eq_nil_iff.2 fun c hc => ?_
    obtain ⟨i, hi, hget⟩ := List.mem_take_iff_getElem.1 hc
    exact isSpace_of_lt_leading (Nat.lt_of_lt_of_le hi (Nat.min_le_left ..))
      (List.getElem?_eq_some_iff.2 ⟨_, hget⟩)
  conv_rhs => rw [hs]
  rw [ink_append, ink_append, hpre, ink_eq_nil_iff.2 hpost, List.nil_append, List.append_nil]

theorem strip_eq_nil_iff {s : List Char} : strip s = [] ↔ ink s = [] := by
  constructor
  · intro h
    rw [← ink_strip, h, ink_nil]
  · intro h
    have hall := ink_eq_nil_iff.1 h
    rw [strip_eq, List.rdropWhile_eq_nil_iff]
    exact fun c hc => hall c ((List.dropWhile_suffix isSpace).subset hc)

theorem length_strip_le (s : List Char) : (strip s).length ≤ s.length := by
  refine (strip_prefix_drop s).length_le.trans ?_
  rw [List.length_drop]
  omega

/-- A text that neither starts nor ends with white space. -/
def Trimmed (s : List Char) : Prop :=
  (∀ c ∈ s.head?, isSpace c = false) ∧ ∀ c ∈ s.getLast?, isSpace c = false

theorem trimmed_strip (s : List Char) : Trimmed (strip s) := by
  constructor
  · intro c hc
    obtain ⟨t, ht⟩ := strip_prefix_lstrip s
    have hhead : (lstrip s).head? = some c := by
      rw [← ht, List.head?_append, Option.mem_def.1 hc, Option.some_or]
    have hne : lstrip s ≠ [] := by
      intro h
      rw [h] at hhead
      cases hhead
    have hfirst : isSpace ((lstrip s).head hne) = false := List.head_dropWhile_not isSpace hne
    rw [List.head?_eq_some_head hne] at hhead
    rwa [Option.some.inj hhead] at hfirst
  · intro c hc
    have hne : strip s ≠ [] := by
      intro h
      rw [h] at hc
      cases hc
    have hlast := List.rdropWhile_last_not isSpace (lstrip s) hne
    rw [List.getLast?_eq_some_getLast hne] at hc
    rw [← Option.some.inj hc]
    exact Bool.eq_false_iff.2 hlast

/-- A text with nothing to cut off. -/
theorem strip_of_all_ink {s : List Char} (h : ∀ c ∈ s, isSpace c = false) : strip s = s := by
  have hl : lstrip s = s := by
    cases s with
    | nil => rfl
    | cons c s => rw [lstrip, List.dropWhile_cons_of_neg (by simp [h c List.mem_cons_self])]
  rw [strip_eq, hl, List.rdropWhile_eq_self_iff]
  intro hne
  simp [h _ (List.getLast_mem hne)]

end PyText
