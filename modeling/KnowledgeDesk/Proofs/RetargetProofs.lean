import KnowledgeDesk.Proofs.LinkProofs

/-!
# Proofs: links that are written anew

A link whose path and title stay may be written anew, with other lines: the text around it is still outside
of every link. What might begin a link before it would run into its path or into its title, and there
nothing changed.
-/

namespace KnowledgeDesk.Proofs

open Regex Anchors

/-! ## The title that a text closes -/

/-- The first quotation mark of the text stands before a closing parenthesis. -/
def Closes (s : List Char) : Prop := ∃ u z, s = u ++ '"' :: ')' :: z ∧ '"' ∉ u

theorem closes_skip {u s : List Char} (hu : '"' ∉ u) : Closes (u ++ s) ↔ Closes s := by
  constructor
  · rintro ⟨v, z, h, hv⟩
    rcases List.append_eq_append_iff.1 h with ⟨a, rfl, hs⟩ | ⟨a, ha, hs⟩
    · exact ⟨a, z, hs, fun hm => hv (List.mem_append_right u hm)⟩
    · cases a with
      | nil => exact ⟨[], z, hs.symm, List.not_mem_nil⟩
      | cons c a =>
        obtain ⟨rfl, -⟩ := List.cons.inj hs
        exact absurd (by rw [ha]; simp) hu
  · rintro ⟨v, z, rfl, hv⟩
    exact ⟨u ++ v, z, by simp, fun hm => (List.mem_append.1 hm).elim hu hv⟩

theorem closes_quote {s : List Char} : Closes ('"' :: s) ↔ s.head? = some ')' := by
  constructor
  · rintro ⟨u, z, h, hu⟩
    cases u with
    | nil => rw [(List.cons.inj h).2, List.head?_cons]
    | cons c u =>
      obtain ⟨rfl, -⟩ := List.cons.inj h
      exact absurd List.mem_cons_self hu
  · intro h
    obtain ⟨z, rfl⟩ := List.head?_eq_some_iff.1 h
    exact ⟨[], z, rfl, List.not_mem_nil⟩

/-- What stands before the title of a link. -/
def Link.front (l : Link) : List Char := '[' :: (l.textMod ++ ':' :: (l.textRange ++ [']', '(']))

/-- The lines of a link. -/
def Fragment.lines (f : Fragment) : List Char := '#' :: 'L' :: (f.start ++ stopText f.stop)

theorem Link.text_append (l : Link) (rest : List Char) : l.text ++ rest =
    l.front ++ (l.path ++ (l.fragment.lines ++ (titleText l.fragment.title ++ ')' :: rest))) := by
  rw [Link.text, Link.front, Fragment.lines, Fragment.text]
  simp

theorem IsModule.lacks {w : List Char} (h : IsModule w) : '"' ∉ w ∧ '[' ∉ w := by
  obtain ⟨stem, -, hall, rfl⟩ := h
  constructor <;>
  · intro hm
    rcases List.mem_append.1 hm with hm | hm
    · have hc := hall _ hm
      revert hc
      decide
    · revert hm
      decide

theorem Link.front_chars (l : Link) : ∀ c ∈ l.front, isPathChar c = true ∧ c ≠ '"' := by
  intro c hc
  simp only [Link.front, List.mem_cons, List.mem_append, List.not_mem_nil, or_false] at hc
  rcases hc with rfl | hc | rfl | hc | rfl | rfl
  · decide
  · exact ⟨l.textMod_module.pathChar c hc, fun h => l.textMod_module.lacks.1 (h ▸ hc)⟩
  · decide
  · have hrange := l.textRange_chars.2 c hc
    rw [isRangeChar, Bool.or_eq_true, beq_iff_eq] at hrange
    rcases hrange with hd | rfl
    · refine ⟨?_, ?_⟩
      · rw [isPathChar, PyText.isSpace_of_isDigit hd, Bool.not_false, Bool.and_true, bne_iff_ne]
        rintro rfl
        revert hd
        decide
      · rintro rfl
        revert hd
        decide
    · decide
  · decide
  · decide

/-- The one square bracket that opens in what stands before the path is the first character. -/
theorem Link.front_bracket (l : Link) : ∃ x, l.front = '[' :: x ∧ '[' ∉ x := by
  refine ⟨_, rfl, fun hm => ?_⟩
  simp only [List.mem_cons, List.mem_append, List.not_mem_nil, or_false] at hm
  rcases hm with hm | hm | hm | hm | hm
  · exact l.textMod_module.lacks.2 hm
  · revert hm
    decide
  · have hrange := l.textRange_chars.2 _ hm
    revert hrange
    decide
  · revert hm
    decide
  · revert hm
    decide

theorem Fragment.lines_lacks (f : Fragment) : '"' ∉ f.lines ∧ '[' ∉ f.lines := by
  have hdigits : ∀ s : List Char, (∀ c ∈ s, PyText.isDigit c = true) → '"' ∉ s ∧ '[' ∉ s := by
    intro s hs
    constructor <;>
    · intro hm
      have hc := hs _ hm
      revert hc
      decide
  have hstop : '"' ∉ stopText f.stop ∧ '[' ∉ stopText f.stop := by
    cases hs : f.stop with
    | none => exact ⟨List.not_mem_nil, List.not_mem_nil⟩
    | some s =>
      have := hdigits s (f.stop_digits s hs).2
      simp [stopText, this.1, this.2]
  have hstart := hdigits f.start f.start_digits.2
  simp [Fragment.lines, hstart.1, hstart.2, hstop.1, hstop.2]

/-- Whether the first quotation mark of a text that begins with a link closes a title. -/
theorem Link.closes_iff (l : Link) (rest : List Char) : Closes (l.text ++ rest) ↔ '"' ∉ l.path ∧
    match l.fragment.title with
    | none => Closes rest
    | some t => t.2.head? = some ')' := by
  rw [l.text_append, closes_skip fun hm => (l.front_chars _ hm).2 rfl]
  by_cases hpath : '"' ∈ l.path
  · -- after a quotation mark in the path comes a character of the path
    refine iff_of_false ?_ fun h => h.1 hpath
    obtain ⟨u, v, hsplit, hu⟩ := List.eq_append_cons_of_mem hpath
    rw [hsplit, List.append_assoc, closes_skip hu, List.cons_append, closes_quote]
    cases v with
    | nil =>
      have hlast := l.path_last
      rw [hsplit, List.getLast?_append] at hlast
      simp at hlast
    | cons c v =>
      intro hc
      have hchar := l.path_chars c (by rw [hsplit]; simp)
      rw [List.cons_append, List.head?_cons, Option.some.injEq] at hc
      rw [hc] at hchar
      revert hchar
      decide
  · rw [closes_skip hpath, closes_skip l.fragment.lines_lacks.1, and_iff_right hpath]
    have hparen : ∀ {s : List Char}, Closes (')' :: s) ↔ Closes s := fun {s} =>
      @closes_skip [')'] s (by decide)
    cases ht : l.fragment.title with
    | none => exact hparen
    | some t =>
      obtain ⟨-, hspace⟩ := l.fragment.title_space t ht
      have hno : '"' ∉ t.1 := fun hm => by
        have hc := hspace _ hm
        revert hc
        decide
      have hne := (l.fragment.title_symbol t ht).1
      simp only [titleText, List.append_assoc, List.cons_append, List.nil_append]
      rw [closes_skip hno, closes_quote, List.head?_append_of_ne_nil _ hne]

/-! ## The same path and the same title -/

/-- `l'` is `l` with other lines: the path and the symbol are the same. -/
structure Retargeted (l l' : Link) : Prop where
  dir : l.dir = l'.dir
  mod : l.mod = l'.mod
  symbol : l.fragment.title.map Prod.snd = l'.fragment.title.map Prod.snd

theorem Retargeted.refl (l : Link) : Retargeted l l := ⟨rfl, rfl, rfl⟩

theorem Retargeted.path {l l' : Link} (h : Retargeted l l') : l.path = l'.path := by
  rw [Link.path, Link.path, h.dir, h.mod]

/-- Retargeting links closes no title that was open. -/
theorem Retargeted.closes {l l' : Link} (h : Retargeted l l') {rest rest' : List Char}
    (hrest : Closes rest' → Closes rest) (hc : Closes (l'.text ++ rest')) : Closes (l.text ++ rest) := by
  rw [Link.closes_iff] at hc ⊢
  refine ⟨h.path ▸ hc.1, ?_⟩
  have hsymbol := h.symbol
  cases ht : l.fragment.title <;> cases ht' : l'.fragment.title <;> rw [ht, ht'] at hsymbol <;> rw [ht'] at hc
  · exact hrest hc.2
  · cases hsymbol
  · cases hsymbol
  · have hcloses := hc.2
    simp only at hcloses ⊢
    rwa [Option.some.inj hsymbol]

theorem closes_joined {ps qs : List (List Char × Link)} {tail : List Char} (h : Rewritten Retargeted ps qs) :
    Closes (joined Link.text qs tail) → Closes (joined Link.text ps tail) := by
  induction h with
  | nil => exact id
  | @cons p q ps qs hpq hrest ih =>
    obtain ⟨hgap, hlink⟩ := hpq
    rw [joined, joined, ← hgap]
    by_cases hquote : '"' ∈ p.1
    · -- the gap's first quotation mark comes first, and a link does not begin with a parenthesis
      obtain ⟨u, v, hsplit, hu⟩ := List.eq_append_cons_of_mem hquote
      rw [hsplit, List.append_assoc, List.append_assoc, closes_skip hu, closes_skip hu, List.cons_append,
        List.cons_append, closes_quote, closes_quote]
      cases v with
      | nil =>
        intro hc
        rw [List.nil_append, Link.text, List.cons_append, List.head?_cons] at hc
        cases hc
      | cons c v => exact id
    · rw [closes_skip hquote, closes_skip hquote]
      exact hlink.closes ih

/-- A link is spelled from what stands before its path, the path and the fragment. -/
theorem Link.text_eq (l : Link) : l.text = l.front ++ (l.path ++ l.fragment.text) := by
  rw [Link.text, Link.front]
  simp

/-- A link whose path runs on into another link: it takes the other's lines and title for its own. -/
theorem begins_through_path {x a : Link} {v₁ : List Char} (hv : v₁ <+: x.path) :
    Begins Link.text (x.front ++ (v₁ ++ a.text)) := by
  have hdir : ∀ c ∈ v₁ ++ a.front ++ a.dir, isPathChar c = true := by
    intro c hc
    simp only [List.mem_append] at hc
    rcases hc with (hc | hc) | hc
    · exact x.path_chars c (hv.subset hc)
    · exact (a.front_chars c hc).1
    · exact a.dir_chars c hc
  have hlast : ∀ c ∈ (v₁ ++ a.front ++ a.dir).getLast?, isModuleChar c = false := by
    intro c hc
    rw [List.getLast?_append] at hc
    by_cases hnil : a.dir = []
    · rw [hnil, List.getLast?_nil, Option.none_or, Link.front] at hc
      have hparen : ∀ u : List Char, (u ++ [']', '(']).getLast? = some '(' := fun u => by
        rw [List.getLast?_append]
        rfl
      have hfront : (v₁ ++ '[' :: (a.textMod ++ ':' :: (a.textRange ++ [']', '(']))) =
          (v₁ ++ '[' :: (a.textMod ++ ':' :: a.textRange)) ++ [']', '('] := by simp
      rw [hfront, hparen] at hc
      rw [← Option.some.inj hc]
      decide
    · rw [List.getLast?_eq_some_getLast hnil, Option.some_or] at hc
      exact a.dir_last c (by rw [List.getLast?_eq_some_getLast hnil]; exact hc)
  refine ⟨⟨x.textMod, x.textRange, v₁ ++ a.front ++ a.dir, a.mod, a.fragment, x.textMod_module,
    x.textRange_chars, hdir, hlast, a.mod_module⟩, [], ?_⟩
  rw [Link.text_eq, Link.text_eq, Link.path, Link.path]
  simp only [Link.front, List.append_assoc, List.append_nil]

/-- A link whose title runs on to where another text closes it. -/
theorem begins_through_title {x : Link} {t : List Char × List Char} (ht : x.fragment.title = some t) {u v z : List Char}
    (hv : v <+: t.2) (hu : '"' ∉ u) (hne : u ≠ []) :
    Begins Link.text (x.front ++ (x.path ++ (x.fragment.lines ++ (t.1 ++ '"' :: (v ++ (u ++ '"' :: ')' :: z)))))) := by
  have hsymbol : ∀ c ∈ v ++ u, (c != '"') = true := by
    intro c hc
    rcases List.mem_append.1 hc with hc | hc
    · exact (x.fragment.title_symbol t ht).2 c (hv.subset hc)
    · simpa using fun he : c = '"' => hu (he ▸ hc)
  refine ⟨⟨x.textMod, x.textRange, x.dir, x.mod, ⟨x.fragment.start, x.fragment.stop, some (t.1, v ++ u),
    x.fragment.start_digits, x.fragment.stop_digits, ?_, ?_⟩, x.textMod_module, x.textRange_chars, x.dir_chars,
    x.dir_last, x.mod_module⟩, z, ?_⟩
  · intro t' ht'
    rw [← Option.some.inj ht']
    exact x.fragment.title_space t ht
  · intro t' ht'
    rw [← Option.some.inj ht']
    exact ⟨by simp [hne], hsymbol⟩
  · simp [Link.text, Link.front, Link.path, Fragment.text, Fragment.lines, titleText]

/-- A character that the first part of a text lacks stands in the second. -/
theorem split_after {u s w z : List Char} {c : Char} (hu : c ∉ u) (h : u ++ s = w ++ c :: z) :
    ∃ w', w = u ++ w' ∧ s = w' ++ c :: z := by
  rcases List.append_eq_append_iff.1 h with ⟨w', hw, hs⟩ | ⟨d, hu', hd⟩
  · exact ⟨w', hw, hs⟩
  · cases d with
    | nil => exact ⟨[], by simpa using hu'.symm, hd.symm⟩
    | cons e d =>
      obtain ⟨rfl, -⟩ := List.cons.inj hd
      exact absurd (by rw [hu']; simp) hu

/-- A link whose title runs on into links that are retargeted: something closes the title still. -/
theorem begins_of_title {x a b : Link} {ps qs : List (List Char × Link)} {v c z tail : List Char}
    (hab : Retargeted a b) (hrest : Rewritten Retargeted ps qs) (hv : x.fragment.text = v ++ '[' :: c)
    (hz : b.text ++ joined Link.text qs tail = '[' :: c ++ z) :
    Begins Link.text (x.front ++ (x.path ++ v ++ (a.text ++ joined Link.text ps tail))) := by
  have hlines : x.fragment.text = x.fragment.lines ++ (titleText x.fragment.title ++ [')']) := by
    rw [Fragment.text, Fragment.lines]
    simp
  rw [hlines] at hv
  obtain ⟨v₁, rfl, htitle⟩ := split_after x.fragment.lines_lacks.2 hv
  cases ht : x.fragment.title with
  | none =>
    rw [ht] at htitle
    have hmem : '[' ∈ titleText none ++ [')'] := by
      rw [htitle]
      simp
    exact absurd hmem (by decide)
  | some t =>
    obtain ⟨-, hspace⟩ := x.fragment.title_space t ht
    obtain ⟨-, hsymbol⟩ := x.fragment.title_symbol t ht
    have hno : '[' ∉ t.1 ++ ['"'] := fun hm => by
      rcases List.mem_append.1 hm with hm | hm
      · have hc := hspace _ hm
        revert hc
        decide
      · revert hm
        decide
    have htext : t.1 ++ ['"'] ++ (t.2 ++ ['"', ')']) = v₁ ++ '[' :: c := by
      rw [← htitle, ht, titleText]
      simp
    obtain ⟨v₂, rfl, hsplit⟩ := split_after hno htext
    obtain ⟨s, hs, rfl⟩ : ∃ s, t.2 = v₂ ++ '[' :: s ∧ c = s ++ ['"', ')'] := by
      rcases List.append_eq_append_iff.1 hsplit with ⟨d, -, hd⟩ | ⟨d, hd, hd'⟩
      · have hmem : '[' ∈ ['"', ')'] := by
          rw [hd]
          simp
        exact absurd hmem (by decide)
      · cases d with
        | nil => exact absurd (List.cons.inj hd').1 (by decide)
        | cons e d =>
          obtain ⟨rfl, rfl⟩ := List.cons.inj hd'
          exact ⟨d, hd, rfl⟩
    have hquote : '"' ∉ '[' :: s := fun hm => by
      have hc := hsymbol '"' (hs ▸ List.mem_append_right v₂ hm)
      revert hc
      decide
    obtain ⟨u, z', hu, hno'⟩ : Closes (a.text ++ joined Link.text ps tail) :=
      hab.closes (closes_joined hrest) ⟨'[' :: s, z, by rw [hz]; simp, hquote⟩
    have hne : u ≠ [] := by
      rintro rfl
      rw [Link.text, List.cons_append, List.nil_append] at hu
      exact absurd (List.cons.inj hu).1 (by decide)
    have hbegins := begins_through_title ht (z := z') ⟨_, hs.symm⟩ hno' hne
    rw [hu]
    simpa using hbegins

/-- Where a link begins before links that are retargeted, one began before. -/
theorem begins_of_retargeted {v : List Char} {a b : Link} {ps qs : List (List Char × Link)} {tail : List Char}
    (hv : v ≠ []) (hab : Retargeted a b) (hrest : Rewritten Retargeted ps qs)
    (h : Begins Link.text (v ++ (b.text ++ joined Link.text qs tail))) :
    Begins Link.text (v ++ (a.text ++ joined Link.text ps tail)) := by
  obtain ⟨x, z, hx⟩ := h
  rcases List.append_eq_append_iff.1 hx with ⟨c, rfl, -⟩ | ⟨c, hc, hz⟩
  · exact ⟨x, c ++ (a.text ++ joined Link.text ps tail), by simp⟩
  cases c with
  | nil =>
    rw [List.append_nil] at hc
    exact ⟨x, a.text ++ joined Link.text ps tail, by rw [hc]⟩
  | cons e c =>
    -- the link `x` runs on into `b`, whose first bracket is in the path or in the title of `x`
    obtain rfl : '[' = e := by
      rw [Link.text, List.cons_append, List.cons_append] at hz
      exact (List.cons.inj hz).1
    obtain ⟨front, hfront, hbracket⟩ := x.front_bracket
    obtain ⟨d, v', rfl⟩ := List.exists_cons_of_ne_nil hv
    have hsplit : front ++ (x.path ++ x.fragment.text) = v' ++ '[' :: c := by
      rw [Link.text_eq, hfront] at hc
      exact (List.cons.inj hc).2
    obtain rfl : '[' = d := by
      rw [Link.text_eq, hfront] at hc
      exact (List.cons.inj hc).1
    obtain ⟨v₁, rfl, hpath⟩ := split_after hbracket hsplit
    have hv₁ : '[' :: (front ++ v₁) = x.front ++ v₁ := by
      rw [hfront]
      rfl
    rw [hv₁, List.append_assoc]
    rcases List.append_eq_append_iff.1 hpath with ⟨v₂, rfl, hfragment⟩ | ⟨p, hp, hrest'⟩
    · exact begins_of_title hab hrest hfragment hz
    · cases p with
      | nil =>
        have hv₁' : v₁ = x.path ++ [] := by simpa using hp.symm
        rw [hv₁']
        exact begins_of_title hab hrest (by simpa using hrest'.symm) hz
      | cons e p =>
        have hthrough := @begins_through_path x a v₁ ⟨_, hp.symm⟩
        exact hthrough.mono ⟨joined Link.text ps tail, by simp⟩

end KnowledgeDesk.Proofs
