import KnowledgeDesk.Anchors
import Mathlib.Data.List.DropRight

/-!
# Proofs: how a link is read

A link that `LINK` matches, part by part. The parts of a link are those that the pattern reads from it,
whatever stands around it, so that a link which is written out is read back.
-/

namespace KnowledgeDesk.Proofs

open Regex Anchors

/-! ## The name of a module -/

/-- `[a-z_]+\.py`. -/
def IsModule (w : List Char) : Prop :=
  ∃ stem, stem ≠ [] ∧ (∀ c ∈ stem, isModuleChar c = true) ∧ w = stem ++ ['.', 'p', 'y']

theorem lang_moduleName {w : List Char} : moduleName.Lang w ↔ IsModule w := by
  constructor
  · intro h
    obtain ⟨stem, v₁, hstem, h₁, rfl⟩ := lang_seqs_cons.1 h
    obtain ⟨_, v₂, ⟨c, hc, rfl⟩, h₂, rfl⟩ := lang_seqs_cons.1 h₁
    obtain ⟨_, v₃, ⟨d, hd, rfl⟩, ⟨e, he, rfl⟩, rfl⟩ := lang_seqs_cons.1 h₂
    obtain ⟨hall, hne⟩ := lang_plus_char.1 hstem
    obtain rfl : c = '.' := by simpa using hc
    obtain rfl : d = 'p' := by simpa using hd
    obtain rfl : e = 'y' := by simpa using he
    exact ⟨stem, hne, hall, rfl⟩
  · rintro ⟨stem, hne, hall, rfl⟩
    refine lang_seqs_cons.2 ⟨stem, _, lang_plus_char.2 ⟨hall, hne⟩, ?_, rfl⟩
    refine lang_seqs_cons.2 ⟨['.'], _, ⟨'.', rfl, rfl⟩, ?_, rfl⟩
    exact lang_seqs_cons.2 ⟨['p'], _, ⟨'p', rfl, rfl⟩, ⟨'y', rfl, rfl⟩, rfl⟩

theorem moduleName_plain : moduleName.Plain := ⟨char_plain _, trivial, trivial, trivial⟩

theorem IsModule.getLast {w : List Char} (h : IsModule w) (u : List Char) : (u ++ w).getLast? = some 'y' := by
  obtain ⟨stem, -, -, rfl⟩ := h
  rw [← List.append_assoc, List.getLast?_append]
  rfl

theorem IsModule.pathChar {w : List Char} (h : IsModule w) : ∀ c ∈ w, isPathChar c = true := by
  have hspaces : ∀ n ∈ PyText.spaces, ¬ ('a'.toNat ≤ n ∧ n ≤ 'z'.toNat) ∧ n ≠ '_'.toNat := by decide
  obtain ⟨stem, -, hall, rfl⟩ := h
  intro c hc
  rcases List.mem_append.1 hc with hc | hc
  · have hmod := hall c hc
    simp only [isModuleChar, Bool.or_eq_true, Bool.and_eq_true, decide_eq_true_eq, beq_iff_eq] at hmod
    rw [isPathChar, Bool.and_eq_true, Bool.not_eq_true', bne_iff_ne, PyText.isSpace]
    refine ⟨?_, ?_⟩
    · rintro rfl
      revert hmod
      decide
    · rw [List.contains_eq_mem, decide_eq_false_iff_not]
      intro hmem
      obtain ⟨hrange, hline⟩ := hspaces _ hmem
      rcases hmod with ⟨hlo, hhi⟩ | rfl
      · exact hrange ⟨hlo, hhi⟩
      · exact hline rfl
  · have hsuffix : ['.', 'p', 'y'].all isPathChar = true := by decide
    exact List.all_eq_true.1 hsuffix c hc

/-- A path ends in the name of a module. -/
theorem exists_last_module {u w : List Char} (h : IsModule w) :
    ∃ dir mod, u ++ w = dir ++ mod ∧ dir <+: u ∧ (∀ c ∈ dir.getLast?, isModuleChar c = false) ∧ IsModule mod := by
  obtain ⟨stem, hne, hall, rfl⟩ := h
  refine ⟨u.rdropWhile isModuleChar, u.rtakeWhile isModuleChar ++ stem ++ ['.', 'p', 'y'], ?_,
    List.rdropWhile_prefix isModuleChar u, fun c hc => ?_, _, by simp [hne], fun c hc => ?_, rfl⟩
  · rw [List.append_assoc, ← List.append_assoc (u.rdropWhile isModuleChar), List.rdropWhile_append_rtakeWhile]
  · have hnil : u.rdropWhile isModuleChar ≠ [] := fun hnil => by
      rw [hnil] at hc
      cases hc
    have hlast := List.rdropWhile_last_not isModuleChar u hnil
    rw [List.getLast?_eq_some_getLast hnil] at hc
    rw [← Option.some.inj hc]
    simpa using hlast
  · rcases List.mem_append.1 hc with hc | hc
    · exact List.mem_rtakeWhile_imp hc
    · exact hall c hc

theorem takesWith_moduleName {before w rest : List Char} (h : IsModule w) :
    moduleName.TakesWith before w rest [] := by
  obtain ⟨stem, hne, hall, rfl⟩ := h
  refine (takesWith_plus_char hall hne (by simp; decide)).seqs_plain ?_
  exact takesWith_char_cons rfl (takesWith_char_cons rfl (takesWith_char rfl))

/-! ## The fragment and the title -/

/-- What comes after the path of a link: the lines, and the title with the white space before it. -/
@[ext] structure Fragment where
  start : List Char
  stop : Option (List Char)
  title : Option (List Char × List Char)
  start_digits : start ≠ [] ∧ ∀ c ∈ start, PyText.isDigit c = true
  stop_digits : ∀ s ∈ stop, s ≠ [] ∧ ∀ c ∈ s, PyText.isDigit c = true
  title_space : ∀ t ∈ title, t.1 ≠ [] ∧ ∀ c ∈ t.1, PyText.isSpace c = true
  title_symbol : ∀ t ∈ title, t.2 ≠ [] ∧ ∀ c ∈ t.2, (c != '"') = true

/-- `-L34`. -/
def stopText : Option (List Char) → List Char
  | none => []
  | some s => '-' :: 'L' :: s

/-- ` "symbol"`. -/
def titleText : Option (List Char × List Char) → List Char
  | none => []
  | some t => t.1 ++ '"' :: (t.2 ++ ['"'])

/-- `#L12-L34 "symbol")`. -/
def Fragment.text (f : Fragment) : List Char :=
  '#' :: 'L' :: (f.start ++ (stopText f.stop ++ (titleText f.title ++ [')'])))

/-- The part of `LINK` that reads it. -/
def fragmentPart : Re :=
  seqs [.char (· == '#'), .char (· == 'L'), .cap 5 (plus digit), stopPart, titlePart, .char (· == ')')]

theorem lang_stopPart {w : List Char} : stopPart.Lang w ↔
    ∃ stop, (∀ s ∈ stop, s ≠ [] ∧ ∀ c ∈ s, PyText.isDigit c = true) ∧ w = stopText stop := by
  rw [stopPart, lang_opt]
  constructor
  · rintro (rfl | h)
    · exact ⟨none, by simp, rfl⟩
    · obtain ⟨_, v₁, ⟨c, hc, rfl⟩, h₁, rfl⟩ := lang_seqs_cons.1 h
      obtain ⟨_, s, ⟨d, hd, rfl⟩, hs, rfl⟩ := lang_seqs_cons.1 h₁
      obtain ⟨hall, hne⟩ := lang_plus_char.1 (show (plus digit).Lang s from hs)
      obtain rfl : c = '-' := by simpa using hc
      obtain rfl : d = 'L' := by simpa using hd
      exact ⟨some s, fun s' hs' => Option.some.inj hs' ▸ ⟨hne, hall⟩, rfl⟩
  · rintro ⟨stop, hstop, rfl⟩
    cases stop with
    | none => exact .inl rfl
    | some s =>
      obtain ⟨hne, hall⟩ := hstop s rfl
      refine .inr (lang_seqs_cons.2 ⟨['-'], _, ⟨'-', rfl, rfl⟩, ?_, rfl⟩)
      exact lang_seqs_cons.2 ⟨['L'], s, ⟨'L', rfl, rfl⟩, lang_plus_char.2 ⟨hall, hne⟩, rfl⟩

theorem lang_titlePart {w : List Char} : titlePart.Lang w ↔
    ∃ title : Option (List Char × List Char), (∀ t ∈ title, t.1 ≠ [] ∧ ∀ c ∈ t.1, PyText.isSpace c = true) ∧
      (∀ t ∈ title, t.2 ≠ [] ∧ ∀ c ∈ t.2, (c != '"') = true) ∧ w = titleText title := by
  rw [titlePart, lang_opt]
  constructor
  · rintro (rfl | h)
    · exact ⟨none, by simp, by simp, rfl⟩
    · obtain ⟨a, v₁, ha, h₁, rfl⟩ := lang_seqs_cons.1 h
      obtain ⟨_, v₂, ⟨c, hc, rfl⟩, h₂, rfl⟩ := lang_seqs_cons.1 h₁
      obtain ⟨s, _, hs, ⟨d, hd, rfl⟩, rfl⟩ := lang_seqs_cons.1 h₂
      obtain ⟨hspace, hne⟩ := lang_plus_char.1 ha
      obtain ⟨hall, hne'⟩ := lang_plus_char.1 (show (plus (.char (· != '"'))).Lang s from hs)
      obtain rfl : c = '"' := by simpa using hc
      obtain rfl : d = '"' := by simpa using hd
      exact ⟨some (a, s), fun t ht => Option.some.inj ht ▸ ⟨hne, hspace⟩,
        fun t ht => Option.some.inj ht ▸ ⟨hne', hall⟩, rfl⟩
  · rintro ⟨title, hspace, hsymbol, rfl⟩
    cases title with
    | none => exact .inl rfl
    | some t =>
      obtain ⟨hne, hall⟩ := hspace t rfl
      obtain ⟨hne', hall'⟩ := hsymbol t rfl
      refine .inr (lang_seqs_cons.2 ⟨t.1, _, lang_plus_char.2 ⟨hall, hne⟩, ?_, rfl⟩)
      refine lang_seqs_cons.2 ⟨['"'], _, ⟨'"', rfl, rfl⟩, ?_, rfl⟩
      exact lang_seqs_cons.2 ⟨t.2, ['"'], lang_plus_char.2 ⟨hall', hne'⟩, ⟨'"', rfl, rfl⟩, rfl⟩

theorem fragmentPart_plain : fragmentPart.Plain := by
  have hstop : ¬ (seqs [.char (· == '-'), .char (· == 'L'), .cap 6 (plus digit)]).Lang [] := by
    intro h
    obtain ⟨_, v, ⟨c, -, rfl⟩, -, hnil⟩ := lang_seqs_cons.1 h
    cases hnil
  have htitle : ¬ (seqs [plus space, .char (· == '"'), .cap 7 (plus (.char (· != '"'))),
      .char (· == '"')]).Lang [] := by
    intro h
    obtain ⟨a, v, ha, -, hnil⟩ := lang_seqs_cons.1 h
    exact (lang_plus_char.1 ha).2 (List.append_eq_nil_iff.1 hnil.symm).1
  exact ⟨trivial, trivial, char_plain _, ⟨⟨trivial, trivial, char_plain _⟩, hstop⟩,
    ⟨⟨char_plain _, trivial, char_plain _, trivial⟩, htitle⟩, trivial⟩

theorem lang_fragmentPart {w : List Char} : fragmentPart.Lang w ↔ ∃ f : Fragment, w = f.text := by
  constructor
  · intro h
    obtain ⟨_, v₁, ⟨c, hc, rfl⟩, h₁, rfl⟩ := lang_seqs_cons.1 h
    obtain ⟨_, v₂, ⟨d, hd, rfl⟩, h₂, rfl⟩ := lang_seqs_cons.1 h₁
    obtain ⟨start, v₃, hstart, h₃, rfl⟩ := lang_seqs_cons.1 h₂
    obtain ⟨_, v₄, hstop, h₄, rfl⟩ := lang_seqs_cons.1 h₃
    obtain ⟨_, _, htitle, ⟨e, he, rfl⟩, rfl⟩ := lang_seqs_cons.1 h₄
    obtain ⟨hall, hne⟩ := lang_plus_char.1 (show (plus digit).Lang start from hstart)
    obtain ⟨stop, hdigits, rfl⟩ := lang_stopPart.1 hstop
    obtain ⟨title, hspace, hsymbol, rfl⟩ := lang_titlePart.1 htitle
    obtain rfl : c = '#' := by simpa using hc
    obtain rfl : d = 'L' := by simpa using hd
    obtain rfl : e = ')' := by simpa using he
    exact ⟨⟨start, stop, title, ⟨hne, hall⟩, hdigits, hspace, hsymbol⟩, rfl⟩
  · rintro ⟨f, rfl⟩
    refine lang_seqs_cons.2 ⟨['#'], _, ⟨'#', rfl, rfl⟩, ?_, rfl⟩
    refine lang_seqs_cons.2 ⟨['L'], _, ⟨'L', rfl, rfl⟩, ?_, rfl⟩
    refine lang_seqs_cons.2 ⟨f.start, _, lang_plus_char.2 ⟨f.start_digits.2, f.start_digits.1⟩, ?_, rfl⟩
    refine lang_seqs_cons.2 ⟨stopText f.stop, _, lang_stopPart.2 ⟨f.stop, f.stop_digits, rfl⟩, ?_, rfl⟩
    exact lang_seqs_cons.2 ⟨titleText f.title, [')'],
      lang_titlePart.2 ⟨f.title, f.title_space, f.title_symbol, rfl⟩, ⟨')', rfl, rfl⟩, rfl⟩

theorem Fragment.text_append (f : Fragment) (rest : List Char) : f.text ++ rest =
    '#' :: 'L' :: (f.start ++ (stopText f.stop ++ (titleText f.title ++ ')' :: rest))) := by
  rw [Fragment.text]
  simp

/-- After the lines comes white space or the closing parenthesis. -/
theorem Fragment.head_close (f : Fragment) (rest : List Char) :
    ∀ c ∈ (titleText f.title ++ ')' :: rest).head?, PyText.isSpace c = true ∨ c = ')' := by
  intro c hc
  cases htitle : f.title with
  | none =>
    rw [htitle] at hc
    exact .inr (Option.some.inj hc).symm
  | some t =>
    obtain ⟨hne, hall⟩ := f.title_space t htitle
    rw [htitle, titleText, List.append_assoc, List.head?_append_of_ne_nil _ hne] at hc
    exact .inl (hall c (List.mem_of_mem_head? hc))

theorem isDigit_close {c : Char} (h : PyText.isSpace c = true ∨ c = ')') :
    PyText.isDigit c = false ∧ c ≠ '-' := by
  rcases h with h | rfl
  · refine ⟨?_, ?_⟩
    · by_contra hd
      rw [PyText.isSpace_of_isDigit (by simpa using hd)] at h
      cases h
    · rintro rfl
      revert h
      decide
  · decide

theorem Fragment.head_stop (f : Fragment) (rest : List Char) :
    ∀ c ∈ (stopText f.stop ++ (titleText f.title ++ ')' :: rest)).head?, PyText.isDigit c = false := by
  intro c hc
  cases hstop : f.stop with
  | none =>
    rw [hstop] at hc
    exact (isDigit_close (f.head_close rest c hc)).1
  | some s =>
    rw [hstop] at hc
    rw [← Option.some.inj hc]
    decide

/-- The groups of a fragment, latest first. -/
def Fragment.groups (f : Fragment) : List (Nat × List Char) :=
  (f.title.toList.map fun t => (7, t.2)) ++ ((f.stop.toList.map fun s => (6, s)) ++ [(5, f.start)])

theorem Fragment.takesWith_stop (f : Fragment) {before rest : List Char} :
    stopPart.TakesWith before (stopText f.stop) (titleText f.title ++ ')' :: rest)
      (f.stop.toList.map fun s => (6, s)) := by
  have hclose := f.head_close rest
  cases hs : f.stop with
  | none =>
    refine takesWith_opt_nil fun g => Re.Plain.ends_eq_nil ?_ ?_
    · exact ⟨trivial, trivial, char_plain _⟩
    · rintro ⟨w, hw, t, ht⟩
      obtain ⟨_, v, ⟨c, hc, rfl⟩, -, rfl⟩ := lang_seqs_cons.1 hw
      obtain rfl : c = '-' := by simpa using hc
      have hsplit : titleText f.title ++ ')' :: rest = '-' :: (v ++ t) := ht.symm
      exact (isDigit_close (hclose '-' (by rw [hsplit]; rfl))).2 rfl
  | some s =>
    obtain ⟨hne, hall⟩ := f.stop_digits s hs
    refine Re.TakesWith.opt (List.cons_ne_nil _ _) ?_
    refine takesWith_char_cons rfl (takesWith_char_cons rfl ?_)
    exact (takesWith_plus_char hall hne fun c hc => (isDigit_close (hclose c hc)).1).cap

theorem Fragment.takesWith_title (f : Fragment) {before rest : List Char} :
    titlePart.TakesWith before (titleText f.title) (')' :: rest) (f.title.toList.map fun t => (7, t.2)) := by
  cases ht : f.title with
  | none =>
    refine takesWith_opt_nil fun g => Re.Plain.ends_eq_nil ?_ ?_
    · exact ⟨char_plain _, trivial, char_plain _, trivial⟩
    · rintro ⟨w, hw, t, ht⟩
      obtain ⟨a, v, ha, -, rfl⟩ := lang_seqs_cons.1 hw
      obtain ⟨hall, hne⟩ := lang_plus_char.1 ha
      obtain ⟨c, a, rfl⟩ := List.exists_cons_of_ne_nil hne
      have hc := hall c List.mem_cons_self
      rw [(List.cons.inj ht).1] at hc
      revert hc
      decide
  | some t =>
    obtain ⟨hne, hall⟩ := f.title_space t ht
    obtain ⟨hne', hall'⟩ := f.title_symbol t ht
    refine Re.TakesWith.opt (by rw [titleText]; simp) ?_
    refine (takesWith_plus_char hall hne (by simp; decide)).seqs_plain ?_
    refine takesWith_char_cons rfl ?_
    exact (takesWith_plus_char hall' hne' (by simp)).cap.seqs_last (takesWith_char rfl)

theorem Fragment.takesWith (f : Fragment) {before rest : List Char} :
    fragmentPart.TakesWith before f.text rest f.groups := by
  have hstop : ∀ c ∈ ((stopText f.stop ++ (titleText f.title ++ [')'])) ++ rest).head?,
      PyText.isDigit c = false := by
    have h := f.head_stop rest
    simpa using h
  have htitle : (titleText f.title ++ [')']) ++ rest = titleText f.title ++ ')' :: rest := by simp
  have hgroups : f.groups = ((f.title.toList.map fun t => (7, t.2)) ++
      (f.stop.toList.map fun s => (6, s))) ++ [(5, f.start)] := (List.append_assoc ..).symm
  rw [hgroups, fragmentPart]
  refine takesWith_char_cons rfl (takesWith_char_cons rfl ?_)
  refine (takesWith_plus_char f.start_digits.2 f.start_digits.1 hstop).cap.seqs_cons ?_
  refine Re.TakesWith.seqs_cons (by rw [htitle]; exact f.takesWith_stop) ?_
  exact f.takesWith_title.seqs_last (takesWith_char rfl)

/-! ## The link -/

/-- Two paths, each with lines after it: the text says where the path ends. -/
theorem path_unique {a b rest rest' : List Char} {f f' : Fragment} (ha : ∀ c ∈ a, isPathChar c = true)
    (ha' : a.getLast? = some 'y') (hb : ∀ c ∈ b, isPathChar c = true) (hb' : b.getLast? = some 'y')
    (h : a ++ (f.text ++ rest) = b ++ (f'.text ++ rest')) : a = b := by
  -- if one path were the longer, its last character would stand in the lines after the other
  have hlonger : ∀ {c x y : List Char} {g : Fragment}, (∀ d ∈ c, isPathChar d = true) → c.getLast? = some 'y' →
      c ++ x = g.text ++ y → False := by
    intro c x y g hc hlast heq
    rw [g.text_append, ← List.append_assoc, ← List.cons_append, ← List.cons_append] at heq
    have hlines : ∀ d ∈ '#' :: 'L' :: (g.start ++ stopText g.stop), isPathChar d = true ∧ d ≠ 'y' := by
      have hdigit : ∀ d, PyText.isDigit d = true → isPathChar d = true ∧ d ≠ 'y' := by
        intro d hd
        refine ⟨?_, ?_⟩
        · rw [isPathChar, PyText.isSpace_of_isDigit hd, Bool.not_false, Bool.and_true, bne_iff_ne]
          rintro rfl
          revert hd
          decide
        · rintro rfl
          revert hd
          decide
      intro d hd
      simp only [List.mem_cons, List.mem_append] at hd
      rcases hd with rfl | rfl | hd | hd
      · decide
      · decide
      · exact hdigit d (g.start_digits.2 d hd)
      · cases hs : g.stop with
        | none =>
          rw [hs] at hd
          exact absurd hd List.not_mem_nil
        | some s =>
          rw [hs] at hd
          simp only [stopText, List.mem_cons] at hd
          rcases hd with rfl | rfl | hd
          · decide
          · decide
          · exact hdigit d ((g.stop_digits s hs).2 d hd)
    rcases List.append_eq_append_iff.1 heq with ⟨z, hz, -⟩ | ⟨z, hz, hrest⟩
    · have hmem : 'y' ∈ '#' :: 'L' :: (g.start ++ stopText g.stop) := by
        rw [hz]
        exact List.mem_append_left z (List.mem_of_getLast? hlast)
      exact (hlines 'y' hmem).2 rfl
    · cases z with
      | nil =>
        rw [List.append_nil] at hz
        exact (hlines 'y' (hz ▸ List.mem_of_getLast? hlast)).2 rfl
      | cons d z =>
        have hd : d ∈ (titleText g.title ++ ')' :: y).head? := by rw [hrest]; rfl
        have hpath := hc d (by rw [hz]; simp)
        rcases g.head_close y d hd with hspace | rfl
        · rw [isPathChar, hspace, Bool.not_true, Bool.and_false] at hpath
          cases hpath
        · revert hpath
          decide
  rcases List.append_eq_append_iff.1 h with ⟨c, rfl, hc⟩ | ⟨c, rfl, hc⟩
  · by_cases hne : c = []
    · rw [hne, List.append_nil]
    · rw [List.getLast?_append_of_ne_nil _ hne] at hb'
      exact (hlonger (fun d hd => hb d (List.mem_append_right a hd)) hb' hc.symm).elim
  · by_cases hne : c = []
    · rw [hne, List.append_nil]
    · rw [List.getLast?_append_of_ne_nil _ hne] at ha'
      exact (hlonger (fun d hd => ha d (List.mem_append_right b hd)) ha' hc.symm).elim

/-- A link, part by part: the module in its path is as long as can be. -/
@[ext] structure Link where
  textMod : List Char
  textRange : List Char
  dir : List Char
  mod : List Char
  fragment : Fragment
  textMod_module : IsModule textMod
  textRange_chars : textRange ≠ [] ∧ ∀ c ∈ textRange, isRangeChar c = true
  dir_chars : ∀ c ∈ dir, isPathChar c = true
  dir_last : ∀ c ∈ dir.getLast?, isModuleChar c = false
  mod_module : IsModule mod

def Link.path (l : Link) : List Char := l.dir ++ l.mod

/-- `[mod.py:12-34](any/path/mod.py#L12-L34 "symbol")`. -/
def Link.text (l : Link) : List Char :=
  '[' :: (l.textMod ++ ':' :: (l.textRange ++ ']' :: '(' :: (l.path ++ l.fragment.text)))

/-- The groups of a link, latest first. -/
def Link.groups (l : Link) : List (Nat × List Char) :=
  l.fragment.groups ++ [(3, l.path), (4, l.mod), (2, l.textRange), (1, l.textMod)]

theorem Link.path_chars (l : Link) : ∀ c ∈ l.path, isPathChar c = true := by
  intro c hc
  rcases List.mem_append.1 hc with hc | hc
  · exact l.dir_chars c hc
  · exact l.mod_module.pathChar c hc

theorem Link.path_last (l : Link) : l.path.getLast? = some 'y' := l.mod_module.getLast l.dir

theorem lang_link {w : List Char} : LINK.Lang w ↔ ∃ l : Link, w = l.text := by
  constructor
  · intro h
    obtain ⟨_, v₁, ⟨c₁, hc₁, rfl⟩, h₁, rfl⟩ := lang_seqs_cons.1 h
    obtain ⟨textMod, v₂, hmod, h₂, rfl⟩ := lang_seqs_cons.1 h₁
    obtain ⟨_, v₃, ⟨c₂, hc₂, rfl⟩, h₃, rfl⟩ := lang_seqs_cons.1 h₂
    obtain ⟨textRange, v₄, hrange, h₄, rfl⟩ := lang_seqs_cons.1 h₃
    obtain ⟨_, v₅, ⟨c₃, hc₃, rfl⟩, h₅, rfl⟩ := lang_seqs_cons.1 h₄
    obtain ⟨_, v₆, ⟨c₄, hc₄, rfl⟩, h₆, rfl⟩ := lang_seqs_cons.1 h₅
    obtain ⟨_, _, ⟨u, m, hu, hm, rfl⟩, hfragment, rfl⟩ := lang_seqs_cons.1 h₆
    obtain ⟨f, rfl⟩ := lang_fragmentPart.1 hfragment
    obtain ⟨hall, hne⟩ := lang_plus_char.1 (show (plus (.char isRangeChar)).Lang textRange from hrange)
    obtain ⟨dir, mod, hpath, hdir, hlast, hmodule⟩ := @exists_last_module u m (lang_moduleName.1 hm)
    have hchars := (lang_rep_char.1 hu).1
    obtain rfl : c₁ = '[' := by simpa using hc₁
    obtain rfl : c₂ = ':' := by simpa using hc₂
    obtain rfl : c₃ = ']' := by simpa using hc₃
    obtain rfl : c₄ = '(' := by simpa using hc₄
    refine ⟨⟨textMod, textRange, dir, mod, f, lang_moduleName.1 hmod, ⟨hne, hall⟩,
      fun c hc => hchars c (hdir.subset hc), hlast, hmodule⟩, ?_⟩
    rw [Link.text, Link.path, ← hpath]
    simp
  · rintro ⟨l, rfl⟩
    refine lang_seqs_cons.2 ⟨['['], _, ⟨'[', rfl, rfl⟩, ?_, rfl⟩
    refine lang_seqs_cons.2 ⟨l.textMod, _, lang_moduleName.2 l.textMod_module, ?_, rfl⟩
    refine lang_seqs_cons.2 ⟨[':'], _, ⟨':', rfl, rfl⟩, ?_, rfl⟩
    refine lang_seqs_cons.2 ⟨l.textRange, _, lang_plus_char.2 ⟨l.textRange_chars.2, l.textRange_chars.1⟩, ?_, rfl⟩
    refine lang_seqs_cons.2 ⟨[']'], _, ⟨']', rfl, rfl⟩, ?_, rfl⟩
    refine lang_seqs_cons.2 ⟨['('], _, ⟨'(', rfl, rfl⟩, ?_, rfl⟩
    refine lang_seqs_cons.2 ⟨l.path, _, ⟨l.dir, l.mod, ?_, lang_moduleName.2 l.mod_module, rfl⟩,
      lang_fragmentPart.2 ⟨l.fragment, rfl⟩, rfl⟩
    exact lang_rep_char.2 ⟨l.dir_chars, Nat.zero_le _, by simp⟩

theorem Link.takesWith (l : Link) (before rest : List Char) : LINK.TakesWith before l.text rest l.groups := by
  have hpath : ∀ u₁ u₂ t g, l.dir = u₁ ++ u₂ → u₂ ≠ [] →
      ∀ b, t ∈ (Re.cap 4 moduleName).ends ⟨b, u₂ ++ (l.mod ++ (l.fragment.text ++ rest)), g⟩ →
      ∀ g', fragmentPart.ends ⟨t.before, t.after, g'⟩ = [] := by
    -- a name that began earlier would have to reach back over a character that names do not have
    intro u₁ u₂ t g hdir hne b ht g'
    refine fragmentPart_plain.ends_eq_nil ?_
    rintro ⟨_, hw, rest', hafter⟩
    obtain ⟨f, rfl⟩ := lang_fragmentPart.1 hw
    obtain ⟨m, hm, hreads⟩ := ends_sound ht
    have hmodule := lang_moduleName.1 (show moduleName.Lang m from hm)
    have heq : u₂ ++ l.mod ++ (l.fragment.text ++ rest) = m ++ (f.text ++ rest') := by
      rw [List.append_assoc, hafter]
      exact hreads.1
    have hname : u₂ ++ l.mod = m := path_unique
      (fun c hc => l.path_chars c (by rw [Link.path, hdir, List.append_assoc]; exact List.mem_append_right u₁ hc))
      (l.mod_module.getLast u₂) hmodule.pathChar (hmodule.getLast []) heq
    obtain ⟨stem, -, hstem, hmod⟩ := l.mod_module
    obtain ⟨stem', -, hstem', rfl⟩ := hmodule
    rw [hmod, ← List.append_assoc] at hname
    have hlast := l.dir_last (u₂.getLast hne) (by
      rw [hdir, List.getLast?_append_of_ne_nil _ hne, List.getLast?_eq_some_getLast hne]
      rfl)
    rw [hstem' _ (List.append_cancel_right hname ▸ List.mem_append_left stem (List.getLast_mem hne))] at hlast
    cases hlast
  have hrange : ∀ c ∈ (']' :: '(' :: (l.path ++ l.fragment.text) ++ rest).head?, isRangeChar c = false := by
    simp
    decide
  have hgroups : l.groups = ((l.fragment.groups ++ (3, l.dir ++ l.mod) :: [(4, l.mod)]) ++ [(2, l.textRange)]) ++
      [(1, l.textMod)] := by
    rw [Link.groups, Link.path]
    simp
  rw [hgroups]
  refine takesWith_char_cons rfl ?_
  refine (takesWith_moduleName l.textMod_module).cap.seqs_cons ?_
  refine takesWith_char_cons rfl ?_
  refine (takesWith_plus_char l.textRange_chars.2 l.textRange_chars.1 hrange).cap.seqs_cons ?_
  refine takesWith_char_cons rfl (takesWith_char_cons rfl ?_)
  exact takesWith_lazy l.dir_chars (takesWith_moduleName l.mod_module).cap l.fragment.takesWith
    fun u₁ u₂ t g hdir hne ht => hpath u₁ u₂ t g hdir hne _ ht

theorem exact_link : LINK.Exact Link.text Link.groups where
  plain := ⟨trivial, moduleName_plain, trivial, char_plain _, trivial, trivial, ⟨char_plain _, moduleName_plain⟩,
    fragmentPart_plain⟩
  lang := lang_link
  ne_nil _ := List.cons_ne_nil _ _
  takes := Link.takesWith

end KnowledgeDesk.Proofs
