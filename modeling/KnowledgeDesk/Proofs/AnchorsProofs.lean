import KnowledgeDesk.Lib.Digits
import KnowledgeDesk.Proofs.RetargetProofs

/-!
# Proofs: repairing the anchors

A run that only fixes leaves links whose ranges are right, and a run after it changes nothing and finds
nothing but unknown symbols and blank lines. The module that the text of a link names, and an end of 0, are
what it does not look at.
-/

namespace KnowledgeDesk.Proofs

open Regex Anchors

/-! ## What is asked of a link -/

/-- The lines that a link points at are those of the symbol. -/
def PointsAt (m : Hit) (want : Span) : Prop :=
  PyText.intOfDigits (m.group 5) = want.1.val ∧
    PyText.intOfDigits (if m.group 6 = [] then m.group 5 else m.group 6) = want.2.val

/-- The text of a link names the module that the link is to, and these lines. -/
def TextNames (m : Hit) (range : List Char) : Prop := m.group 1 = m.group 4 ∧ m.group 2 = range

/-- The lines of a link's own anchor, as its text is to give them. -/
def anchorText (m : Hit) : List Char :=
  if m.group 6 = [] then (toString (PyText.intOfDigits (m.group 5))).toList
  else pairText (PyText.intOfDigits (m.group 5)) (PyText.intOfDigits (m.group 6))

/-- A link to a module of the package is right: with a title that names a symbol, it points at the symbol and
its text agrees; without a title, its text agrees with its own anchor. -/
structure LinkRight (package : Dict String Source) (m : Hit) : Prop where
  titled : ∀ src want, package.get? (.ofList (m.group 4)) = some src → m.group 7 ≠ [] →
    src.ranges.get? (.ofList (m.group 7)) = some want → PointsAt m want ∧ TextNames m (wantText want)
  untitled : ∀ src, package.get? (.ofList (m.group 4)) = some src → m.group 7 = [] →
    TextNames m (anchorText m)

/-- The range of a link to a module of the package is one that `repair` leaves. -/
def RangeHolds (package : Dict String Source) (m : Hit) : Prop :=
  ∃ src, package.get? (.ofList (m.group 4)) = some src ∧
    ((m.group 7 = [] ∧
        m.group 2 = expectText (PyText.intOfDigits (m.group 5)) (PyText.intOfDigits (m.group 6))) ∨
      (m.group 7 ≠ [] ∧ ∃ want, src.ranges.get? (.ofList (m.group 7)) = some want ∧ m.group 2 = wantText want ∧
        PyText.intOfDigits (m.group 5) = want.1.val ∧
        (if PyText.intOfDigits (m.group 6) = 0 then PyText.intOfDigits (m.group 5)
          else PyText.intOfDigits (m.group 6)) = want.2.val))

/-! ## The groups of a link -/

/-- The symbol of a link, `[]` for none. -/
def Link.symbol (l : Link) : List Char := (l.fragment.title.map Prod.snd).getD []

/-- The digits of a link's end, `[]` for none. -/
def Link.stop (l : Link) : List Char := l.fragment.stop.getD []

/-- A link as a match. -/
def Link.hit (gap : List Char) (l : Link) : Hit := hitOf Link.text Link.groups (gap, l)

/-- What the groups of a link are. -/
def Link.part (l : Link) : Nat → List Char
  | 1 => l.textMod
  | 2 => l.textRange
  | 3 => l.path
  | 4 => l.mod
  | 5 => l.fragment.start
  | 6 => l.stop
  | 7 => l.symbol
  | _ => []

theorem Link.group_hit (gap : List Char) (l : Link) (i : Nat) : (l.hit gap).group i = l.part i := by
  have hgroups : (l.hit gap).groups = l.groups := rfl
  rw [Hit.group, hgroups, Link.groups, Fragment.groups]
  rcases i with _ | _ | _ | _ | _ | _ | _ | _ | i <;>
    cases ht : l.fragment.title <;> cases hs : l.fragment.stop <;>
      simp [Link.part, Link.stop, Link.symbol, ht, hs, List.lookup_cons]

theorem Link.stop_eq_nil (l : Link) : l.stop = [] ↔ l.fragment.stop = none := by
  rw [Link.stop]
  cases hs : l.fragment.stop with
  | none => simp
  | some s => simpa using (l.fragment.stop_digits s hs).1

/-- What `repair` reads off a link. -/
def Link.anchor (l : Link) : Anchor :=
  ⟨l.text, l.textRange, l.path, l.mod, PyText.intOfDigits l.fragment.start, PyText.intOfDigits l.stop, l.symbol⟩

/-- The numbers of a link are short enough for `int`. -/
def Link.Short (l : Link) : Prop :=
  l.fragment.start.length ≤ PyText.maxStrDigits ∧ l.stop.length ≤ PyText.maxStrDigits

theorem int_eq {s : List Char} (h : s.length ≤ PyText.maxStrDigits) : Anchors.int s = .ok (PyText.intOfDigits s) := by
  rw [Anchors.int, PyText.int?, if_pos h]

theorem short_of_int {s : List Char} {n : Nat} (h : Anchors.int s = .ok n) : s.length ≤ PyText.maxStrDigits := by
  by_contra hlong
  rw [Anchors.int, PyText.int?, if_neg hlong] at h
  cases h

theorem readAnchor_link {gap : List Char} {l : Link} (h : l.Short) : readAnchor (l.hit gap) = .ok l.anchor := by
  have htext : (l.hit gap).text = l.text := rfl
  simp only [readAnchor, Link.group_hit, Link.part, int_eq h.1, int_eq h.2, htext]
  by_cases hs : l.stop = []
  · simp only [hs, List.isEmpty_nil, if_true]
    rw [Link.anchor, hs]
    rfl
  · have hne : l.stop.isEmpty = false := by simpa using hs
    simp only [hne, Bool.false_eq_true, if_false]
    rfl

theorem short_of_readAnchor {gap : List Char} {l : Link} {a : Anchor} (h : readAnchor (l.hit gap) = .ok a) :
    l.Short := by
  simp only [readAnchor, Link.group_hit, Link.part] at h
  cases hstart : Anchors.int l.fragment.start with
  | error e =>
    rw [hstart] at h
    cases h
  | ok n =>
    refine ⟨short_of_int hstart, ?_⟩
    by_cases hs : l.stop = []
    · rw [hs]
      exact Nat.zero_le _
    · have hne : l.stop.isEmpty = false := by simpa using hs
      cases hstop : Anchors.int l.stop with
      | error e =>
        simp only [hstart, hne, Bool.false_eq_true, if_false, hstop] at h
        cases h
      | ok k => exact short_of_int hstop

/-! ## A link written out -/

/-- Whether `_render` writes an end. -/
def Ranged (start stop : Nat) : Prop := stop ≠ 0 ∧ stop ≠ start

instance (start stop : Nat) : Decidable (Ranged start stop) := inferInstanceAs (Decidable (_ ∧ _))

/-- The range that `_render` writes into the text of a link. -/
def rangeText (start stop : Nat) : List Char :=
  if Ranged start stop then pairText start stop else (toString start).toList

theorem rangeText_chars (start stop : Nat) :
    rangeText start stop ≠ [] ∧ ∀ c ∈ rangeText start stop, isRangeChar c = true := by
  have hdigits : ∀ n : Nat, ∀ c ∈ (toString n).toList, isRangeChar c = true := fun n c hc => by
    rw [isRangeChar, (PyText.digits_toString n).2 c hc, Bool.true_or]
  rw [rangeText]
  split
  · refine ⟨by simp [pairText], fun c hc => ?_⟩
    rcases List.mem_append.1 hc with hc | hc
    · exact hdigits start c hc
    · rcases List.mem_cons.1 hc with rfl | hc
      · decide
      · exact hdigits stop c hc
  · exact ⟨(PyText.digits_toString start).1, hdigits start⟩

/-- The link with these lines, as `_render` writes it. -/
def Link.pointing (l : Link) (start stop : Nat) : Link where
  textMod := l.mod
  textRange := rangeText start stop
  dir := l.dir
  mod := l.mod
  fragment :=
    { start := (toString start).toList
      stop := if Ranged start stop then some (toString stop).toList else none
      title := l.fragment.title.map fun t => ([' '], t.2)
      start_digits := PyText.digits_toString start
      stop_digits := by
        intro s hs
        split at hs
        · rw [← Option.some.inj hs]
          exact PyText.digits_toString stop
        · cases hs
      title_space := by
        intro t ht
        obtain ⟨t', -, rfl⟩ := Option.map_eq_some_iff.1 ht
        refine ⟨List.cons_ne_nil _ _, fun c hc => ?_⟩
        rw [List.mem_singleton.1 hc]
        decide
      title_symbol := by
        intro t ht
        obtain ⟨t', ht', rfl⟩ := Option.map_eq_some_iff.1 ht
        exact l.fragment.title_symbol t' ht' }
  textMod_module := l.mod_module
  textRange_chars := rangeText_chars start stop
  dir_chars := l.dir_chars
  dir_last := l.dir_last
  mod_module := l.mod_module

theorem Link.pointing_text (l : Link) (start stop : Nat) :
    (l.pointing start stop).text = render l.path l.mod start stop l.symbol := by
  rw [Link.text, render]
  by_cases hr : stop ≠ 0 ∧ stop ≠ start <;> cases ht : l.fragment.title with
  | none => simp [Link.pointing, Link.path, Link.symbol, Fragment.text, rangeText, Ranged, stopText, titleText, ht, hr]
  | some t =>
    have hne := (l.fragment.title_symbol t ht).1
    simp [Link.pointing, Link.path, Link.symbol, Fragment.text, rangeText, Ranged, stopText, titleText, ht, hr, hne]

theorem Link.pointing_symbol (l : Link) (start stop : Nat) : (l.pointing start stop).symbol = l.symbol := by
  rw [Link.symbol, Link.symbol, Link.pointing, Option.map_map]
  rfl

theorem Link.pointing_retargeted (l : Link) (start stop : Nat) : Retargeted l (l.pointing start stop) := by
  refine ⟨rfl, rfl, ?_⟩
  rw [Link.pointing, Option.map_map]
  rfl

/-- The numbers of a link that was written out. -/
theorem Link.pointing_numbers (l : Link) (start stop : Nat) :
    PyText.intOfDigits (l.pointing start stop).fragment.start = start ∧
      PyText.intOfDigits (l.pointing start stop).stop = if Ranged start stop then stop else 0 := by
  refine ⟨PyText.intOfDigits_toString start, ?_⟩
  rw [Link.stop, Link.pointing]
  split
  · exact PyText.intOfDigits_toString stop
  · rfl

theorem Link.pointing_short (l : Link) {start stop : Nat}
    (hstart : (toString start).toList.length ≤ PyText.maxStrDigits)
    (hstop : (toString stop).toList.length ≤ PyText.maxStrDigits) : (l.pointing start stop).Short := by
  refine ⟨hstart, ?_⟩
  rw [Link.stop, Link.pointing]
  split
  · exact hstop
  · exact Nat.zero_le _

/-! ## Repairing a link -/

/-- `run(fix=True, adopt=False, tidy=False)`. -/
def fixOnly : Mode := { fix := true }

/-- `run(fix=False, adopt=False, tidy=False)`. -/
def checkOnly : Mode := {}

/-- An unknown symbol, or a boundary on a blank line. -/
def Expected : Problem → Prop
  | .noSymbol .. | .blank .. => True
  | .textDiffers .. | .moved .. => False

/-- The link that a run which only fixes leaves. -/
def Link.repaired (package : Dict String Source) (l : Link) : Link :=
  match package.get? (.ofList l.mod) with
  | none => l
  | some src =>
    if l.symbol = [] then
      if l.textRange = expectText l.anchor.start l.anchor.stop then l
      else l.pointing l.anchor.start l.anchor.stop
    else
      match src.ranges.get? (.ofList l.symbol) with
      | none => l
      | some want =>
        if l.anchor.lines = (want.1.val, want.2.val) ∧ l.textRange = wantText want then l
        else l.pointing want.1 want.2

/-- The range of the link is what `repair` compares it with, if it compares it. -/
structure Link.Settled (package : Dict String Source) (l : Link) : Prop where
  untitled : ∀ src, package.get? (.ofList l.mod) = some src → l.symbol = [] →
    l.textRange = expectText l.anchor.start l.anchor.stop
  titled : ∀ src want, package.get? (.ofList l.mod) = some src → l.symbol ≠ [] →
    src.ranges.get? (.ofList l.symbol) = some want →
    l.anchor.lines = (want.1.val, want.2.val) ∧ l.textRange = wantText want

section Repair

variable {package : Dict String Source} {rel : String} {gap : List Char} {l : Link}

/-- What `repair` does with a link when it does not adopt. -/
theorem repair_link {mode : Mode} (hmode : mode.adopt = false) (h : l.Short) :
    repair mode package rel (l.hit gap) =
      match package.get? (.ofList l.mod) with
      | none => .ok (l.text, [])
      | some src =>
        if l.symbol = [] then repairUntitled mode rel src l.anchor
        else
          match src.ranges.get? (.ofList l.symbol) with
          | none => .ok (l.text, [.noSymbol rel (.ofList l.mod) (.ofList l.symbol)])
          | some want => .ok (repairTitled mode rel l.anchor (.ofList l.symbol) want) := by
  rw [repair, readAnchor_link h]
  simp only [Link.anchor, bind, Except.bind, hmode]
  cases package.get? (.ofList l.mod) with
  | none => rfl
  | some src =>
    by_cases hs : l.symbol = []
    · simp [hs]
    · have hne : l.symbol.isEmpty = false := by simpa using hs
      cases hr : src.ranges.get? (.ofList l.symbol) <;> simp [hne, hs, hr]

theorem repair_fix (h : l.Short) :
    ∃ noted, repair fixOnly package rel (l.hit gap) = .ok ((l.repaired package).text, noted) := by
  rw [repair_link rfl h, Link.repaired]
  cases package.get? (.ofList l.mod) with
  | none => exact ⟨_, rfl⟩
  | some src =>
    by_cases hs : l.symbol = []
    · simp only [if_pos hs]
      by_cases hrange : l.textRange = expectText l.anchor.start l.anchor.stop
      · have hrange' : l.anchor.textRange = expectText l.anchor.start l.anchor.stop := hrange
        rw [if_pos hrange]
        simp only [repairUntitled, ne_eq, hrange', not_true_eq_false, false_and, if_false]
        split
        · exact ⟨_, rfl⟩
        · simp only [fixOnly, Bool.false_eq_true, if_false]
          exact ⟨_, rfl⟩
      · have hrange' : l.anchor.textRange ≠ expectText l.anchor.start l.anchor.stop := hrange
        rw [if_neg hrange, Link.pointing_text, hs]
        simp only [repairUntitled]
        rw [if_pos ⟨hrange', rfl⟩]
        exact ⟨_, rfl⟩
    · simp only [if_neg hs]
      cases src.ranges.get? (.ofList l.symbol) with
      | none => exact ⟨_, rfl⟩
      | some want =>
        by_cases hwant : l.anchor.lines = (want.1.val, want.2.val) ∧ l.textRange = wantText want
        · have hno : ¬ (l.anchor.lines ≠ (want.1.val, want.2.val) ∨ l.anchor.textRange ≠ wantText want) := by
            rintro (hne | hne)
            · exact hne hwant.1
            · exact hne hwant.2
          simp only [if_pos hwant, repairTitled, if_neg hno]
          exact ⟨_, rfl⟩
        · have hyes : l.anchor.lines ≠ (want.1.val, want.2.val) ∨ l.anchor.textRange ≠ wantText want :=
            not_and_or.1 hwant
          simp only [if_neg hwant, Link.pointing_text, repairTitled, if_pos hyes, String.toList_ofList]
          exact ⟨_, rfl⟩

theorem repaired_of_settled (h : l.Settled package) : l.repaired package = l := by
  rw [Link.repaired]
  cases hp : package.get? (.ofList l.mod) with
  | none => rfl
  | some src =>
    by_cases hs : l.symbol = []
    · simp only [if_pos hs, if_pos (h.untitled src hp hs)]
    · simp only [if_neg hs]
      cases hr : src.ranges.get? (.ofList l.symbol) with
      | none => rfl
      | some want => simp only [if_pos (h.titled src want hp hs hr)]

/-- A link that a check finds settled: only an unknown symbol or a blank line is noted. -/
theorem repair_check (h : l.Short) (hs : l.Settled package) : ∃ noted,
    repair checkOnly package rel (l.hit gap) = .ok (l.text, noted) ∧ ∀ p ∈ noted, Expected p := by
  rw [repair_link rfl h]
  cases hp : package.get? (.ofList l.mod) with
  | none => exact ⟨_, rfl, fun p hp => absurd hp List.not_mem_nil⟩
  | some src =>
    by_cases hsymbol : l.symbol = []
    · have hrange : l.anchor.textRange = expectText l.anchor.start l.anchor.stop := hs.untitled src hp hsymbol
      simp only [if_pos hsymbol, repairUntitled, ne_eq, hrange, not_true_eq_false, false_and, if_false]
      split
      · exact ⟨_, rfl, fun p hp => absurd hp List.not_mem_nil⟩
      · refine ⟨_, rfl, fun p hp => ?_⟩
        rw [List.mem_singleton.1 hp]
        trivial
    · simp only [if_neg hsymbol]
      cases hr : src.ranges.get? (.ofList l.symbol) with
      | none =>
        refine ⟨_, rfl, fun p hp => ?_⟩
        rw [List.mem_singleton.1 hp]
        trivial
      | some want =>
        obtain ⟨hlines, hrange⟩ := hs.titled src want hp hsymbol hr
        have hno : ¬ (l.anchor.lines ≠ (want.1.val, want.2.val) ∨ l.anchor.textRange ≠ wantText want) := by
          rintro (hne | hne)
          · exact hne hlines
          · exact hne hrange
        refine ⟨[], ?_, fun p hp => absurd hp List.not_mem_nil⟩
        simp only [repairTitled, if_neg hno]
        rfl

theorem rangeText_want (want : Span) : rangeText want.1 want.2 = wantText want := by
  have hpos : want.2.val ≠ 0 := Nat.ne_of_gt want.2.2.1
  rw [rangeText, wantText]
  by_cases h : want.1 = want.2
  · rw [if_pos h, if_neg fun hr : Ranged _ _ => hr.2 (by rw [h])]
  · rw [if_neg h, if_pos ⟨hpos, fun he => h (Subtype.ext he.symm)⟩]

theorem rangeText_expect (start stop : Nat) :
    rangeText start stop = expectText start (if Ranged start stop then stop else 0) := by
  rw [rangeText, expectText]
  by_cases hr : Ranged start stop
  · rw [if_pos hr, if_pos hr, if_neg hr.1]
  · rw [if_neg hr, if_neg hr, if_pos rfl]

/-- The lines of a link that was written out for a symbol. -/
theorem pointing_want (want : Span) :
    (if (if Ranged want.1 want.2 then want.2.val else 0) = 0 then want.1.val
      else if Ranged want.1 want.2 then want.2.val else 0) = want.2.val := by
  by_cases hr : Ranged want.1 want.2
  · rw [if_pos hr, if_neg hr.1]
  · rw [if_neg hr, if_pos rfl]
    by_contra hne
    exact hr ⟨Nat.ne_of_gt want.2.2.1, fun he => hne he.symm⟩

theorem settled_repaired : (l.repaired package).Settled package := by
  have hkeep : ∀ l' : Link, l'.mod = l.mod → l'.symbol = l.symbol →
      (∀ src, package.get? (.ofList l.mod) = some src →
        (l.symbol = [] → l'.textRange = expectText l'.anchor.start l'.anchor.stop) ∧
        ∀ want, l.symbol ≠ [] → src.ranges.get? (.ofList l.symbol) = some want →
          l'.anchor.lines = (want.1.val, want.2.val) ∧ l'.textRange = wantText want) → l'.Settled package := by
    intro l' hmod hsymbol h
    refine ⟨fun src hp hs => ?_, fun src want hp hs hr => ?_⟩
    · rw [hmod] at hp
      rw [hsymbol] at hs
      exact (h src hp).1 hs
    · rw [hmod] at hp
      rw [hsymbol] at hs hr
      exact (h src hp).2 want hs hr
  rw [Link.repaired]
  cases hp : package.get? (.ofList l.mod) with
  | none => exact hkeep l rfl rfl fun src hp' => absurd (hp.symm.trans hp') (by simp)
  | some src =>
    by_cases hs : l.symbol = []
    · simp only [if_pos hs]
      by_cases hrange : l.textRange = expectText l.anchor.start l.anchor.stop
      · rw [if_pos hrange]
        exact hkeep l rfl rfl fun src' _ => ⟨fun _ => hrange, fun want hne => absurd hs hne⟩
      · rw [if_neg hrange]
        refine hkeep _ rfl (l.pointing_symbol _ _) fun src' _ => ⟨fun _ => ?_, fun want hne => absurd hs hne⟩
        have hnumbers := l.pointing_numbers l.anchor.start l.anchor.stop
        simp only [Link.anchor] at hnumbers ⊢
        rw [hnumbers.1, hnumbers.2]
        exact rangeText_expect _ _
    · simp only [if_neg hs]
      cases hr : src.ranges.get? (.ofList l.symbol) with
      | none =>
        refine hkeep l rfl rfl fun src' hp' => ⟨fun he => absurd he hs, fun want _ hr' => ?_⟩
        rw [Option.some.inj (hp.symm.trans hp')] at hr
        exact absurd (hr.symm.trans hr') (by simp)
      | some want =>
        by_cases hwant : l.anchor.lines = (want.1.val, want.2.val) ∧ l.textRange = wantText want
        · simp only [if_pos hwant]
          refine hkeep l rfl rfl fun src' hp' => ⟨fun he => absurd he hs, fun want' _ hr' => ?_⟩
          rw [Option.some.inj (hp.symm.trans hp')] at hr
          rw [← Option.some.inj (hr.symm.trans hr')]
          exact hwant
        · simp only [if_neg hwant]
          refine hkeep _ rfl (l.pointing_symbol _ _) fun src' hp' => ⟨fun he => absurd he hs, fun want' _ hr' => ?_⟩
          rw [Option.some.inj (hp.symm.trans hp')] at hr
          rw [← Option.some.inj (hr.symm.trans hr')]
          have hnumbers := l.pointing_numbers want.1 want.2
          refine ⟨?_, rangeText_want want⟩
          rw [Anchor.lines, Link.anchor]
          simp only [hnumbers.1, hnumbers.2, pointing_want want]

theorem repaired_short (h : l.Short) : (l.repaired package).Short := by
  rw [Link.repaired]
  cases package.get? (.ofList l.mod) with
  | none => exact h
  | some src =>
    simp only
    split
    · split
      · exact h
      · exact l.pointing_short (PyText.length_toString_intOfDigits h.1) (PyText.length_toString_intOfDigits h.2)
    · split
      · exact h
      · rename_i want hr
        split
        · exact h
        · exact l.pointing_short (PyText.length_toString_cInt want.1.2.2) (PyText.length_toString_cInt want.2.2.2)

theorem repaired_retargeted : Retargeted l (l.repaired package) := by
  rw [Link.repaired]
  cases package.get? (.ofList l.mod) with
  | none => exact Retargeted.refl l
  | some src =>
    simp only
    split
    · split
      · exact Retargeted.refl l
      · exact l.pointing_retargeted _ _
    · split
      · exact Retargeted.refl l
      · split
        · exact Retargeted.refl l
        · exact l.pointing_retargeted _ _

/-! ## Which links are right -/

theorem rangeHolds_hit : RangeHolds package (l.hit gap) ↔ ∃ src, package.get? (.ofList l.mod) = some src ∧
    ((l.symbol = [] ∧ l.textRange = expectText l.anchor.start l.anchor.stop) ∨
      (l.symbol ≠ [] ∧ ∃ want, src.ranges.get? (.ofList l.symbol) = some want ∧
        l.anchor.lines = (want.1.val, want.2.val) ∧ l.textRange = wantText want)) := by
  simp only [RangeHolds, Link.group_hit, Link.part, Link.anchor, Anchor.lines, Prod.mk.injEq]
  constructor
  · rintro ⟨src, hp, h | ⟨hs, want, hr, htext, hstart, hstop⟩⟩
    · exact ⟨src, hp, .inl h⟩
    · exact ⟨src, hp, .inr ⟨hs, want, hr, ⟨hstart, hstop⟩, htext⟩⟩
  · rintro ⟨src, hp, h | ⟨hs, want, hr, ⟨hstart, hstop⟩, htext⟩⟩
    · exact ⟨src, hp, .inl h⟩
    · exact ⟨src, hp, .inr ⟨hs, want, hr, htext, hstart, hstop⟩⟩

theorem settled_of_rangeHolds (h : RangeHolds package (l.hit gap)) : l.Settled package := by
  obtain ⟨src, hp, h⟩ := rangeHolds_hit.1 h
  refine ⟨fun src' hp' hs => ?_, fun src' want' hp' hs hr' => ?_⟩
  · rcases h with ⟨-, h⟩ | ⟨hne, -⟩
    · exact h
    · exact absurd hs hne
  · rcases h with ⟨he, -⟩ | ⟨-, want, hr, h⟩
    · exact absurd he hs
    · obtain rfl := Option.some.inj (hp.symm.trans hp')
      obtain rfl := Option.some.inj (hr.symm.trans hr')
      exact h

/-- A link that is written out for a symbol points at it. -/
theorem pointsAt_pointing (want : Span) : PointsAt ((l.pointing want.1 want.2).hit gap) want := by
  have hnumbers := l.pointing_numbers want.1 want.2
  have hstop : (l.pointing want.1 want.2).stop = [] ↔ ¬ Ranged want.1 want.2 := by
    rw [Link.stop_eq_nil, Link.pointing]
    simp
  simp only [PointsAt, Link.group_hit, Link.part]
  refine ⟨hnumbers.1, ?_⟩
  by_cases hr : Ranged want.1 want.2
  · rw [if_neg (by simpa using (not_congr hstop).2 (not_not.2 hr)), hnumbers.2, if_pos hr]
  · rw [if_pos (hstop.2 hr), hnumbers.1]
    by_contra hne
    exact hr ⟨Nat.ne_of_gt want.2.2.1, fun he => hne he.symm⟩

theorem anchorText_pointing (start stop : Nat) :
    anchorText ((l.pointing start stop).hit gap) = rangeText start stop := by
  have hnumbers := l.pointing_numbers start stop
  have hstop : (l.pointing start stop).stop = [] ↔ ¬ Ranged start stop := by
    rw [Link.stop_eq_nil, Link.pointing]
    simp
  simp only [anchorText, Link.group_hit, Link.part, hnumbers.1, hnumbers.2, rangeText, hstop]
  by_cases hr : Ranged start stop
  · rw [if_neg (not_not.2 hr), if_pos hr, if_pos hr]
  · rw [if_pos hr, if_neg hr]

/-- What is written out anew is right, and what is not asked for is not wrong. -/
theorem right_of_not_holds (h : ¬ RangeHolds package (l.hit gap)) :
    LinkRight package ((l.repaired package).hit gap) := by
  rw [rangeHolds_hit] at h
  have hright : ∀ l' : Link, l'.mod = l.mod → l'.symbol = l.symbol →
      (∀ src, package.get? (.ofList l.mod) = some src →
        (∀ want, l.symbol ≠ [] → src.ranges.get? (.ofList l.symbol) = some want →
          PointsAt (l'.hit gap) want ∧ TextNames (l'.hit gap) (wantText want)) ∧
        (l.symbol = [] → TextNames (l'.hit gap) (anchorText (l'.hit gap)))) → LinkRight package (l'.hit gap) := by
    intro l' hmod hsymbol hl
    refine ⟨fun src want hp hs hr => ?_, fun src hp hs => ?_⟩
    · rw [Link.group_hit] at hp hs hr
      exact (hl src (hmod ▸ hp)).1 want (hsymbol ▸ hs) (hsymbol ▸ hr)
    · rw [Link.group_hit] at hp hs
      exact (hl src (hmod ▸ hp)).2 (hsymbol ▸ hs)
  rw [Link.repaired]
  cases hp : package.get? (.ofList l.mod) with
  | none => exact hright l rfl rfl fun src hp' => absurd (hp.symm.trans hp') (by simp)
  | some src =>
    by_cases hs : l.symbol = []
    · have hrange : l.textRange ≠ expectText l.anchor.start l.anchor.stop := fun he =>
        h ⟨src, hp, .inl ⟨hs, he⟩⟩
      simp only [if_pos hs, if_neg hrange]
      refine hright _ rfl (l.pointing_symbol _ _) fun src' _ => ⟨fun want hne => absurd hs hne, fun _ => ?_⟩
      rw [anchorText_pointing, TextNames, Link.group_hit, Link.group_hit, Link.group_hit]
      exact ⟨rfl, rfl⟩
    · simp only [if_neg hs]
      cases hr : src.ranges.get? (.ofList l.symbol) with
      | none =>
        refine hright l rfl rfl fun src' hp' => ⟨fun want _ hr' => ?_, fun he => absurd he hs⟩
        rw [Option.some.inj (hp.symm.trans hp')] at hr
        exact absurd (hr.symm.trans hr') (by simp)
      | some want =>
        have hwant : ¬ (l.anchor.lines = (want.1.val, want.2.val) ∧ l.textRange = wantText want) := fun hw =>
          h ⟨src, hp, .inr ⟨hs, want, hr, hw⟩⟩
        simp only [if_neg hwant]
        refine hright _ rfl (l.pointing_symbol _ _) fun src' hp' => ⟨fun want' _ hr' => ?_, fun he => absurd he hs⟩
        rw [Option.some.inj (hp.symm.trans hp')] at hr
        obtain rfl := Option.some.inj (hr.symm.trans hr')
        refine ⟨pointsAt_pointing want, ?_⟩
        rw [TextNames, Link.group_hit, Link.group_hit, Link.group_hit]
        exact ⟨rfl, rangeText_want want⟩

/-- What `repair` expects of the text is what the anchor says, but for an end of 0. -/
theorem expect_iff (start : Nat) (stop : List Char) :
    (expectText start (PyText.intOfDigits stop) =
      if stop = [] then (toString start).toList else pairText start (PyText.intOfDigits stop)) ↔
      stop = [] ∨ PyText.intOfDigits stop ≠ 0 := by
  rw [expectText]
  by_cases hs : stop = []
  · subst hs
    exact iff_of_true rfl (.inl rfl)
  · rw [if_neg hs]
    by_cases hzero : PyText.intOfDigits stop = 0
    · rw [if_pos hzero, hzero]
      refine iff_of_false (fun heq => ?_) (by simp [hs])
      have hlen := congrArg List.length heq
      rw [pairText, List.length_append, List.length_cons] at hlen
      omega
    · rw [if_neg hzero]
      exact iff_of_true rfl (.inr hzero)

/-- The end that `repair` compares is that of the anchor, but for an end of 0. -/
theorem end_iff {start stop : List Char} {n : Nat}
    (h : (if PyText.intOfDigits stop = 0 then PyText.intOfDigits start else PyText.intOfDigits stop) = n)
    (hn : 1 ≤ n) : PyText.intOfDigits (if stop = [] then start else stop) = n ↔
      stop = [] ∨ PyText.intOfDigits stop ≠ 0 := by
  by_cases hs : stop = []
  · subst hs
    exact iff_of_true h (.inl rfl)
  · rw [if_neg hs]
    by_cases hzero : PyText.intOfDigits stop = 0
    · exact iff_of_false (by omega) (by simp [hs, hzero])
    · rw [if_neg hzero] at h
      exact iff_of_true h (.inr hzero)

/-- A link whose range is left is right iff its text names its module and its end, if it has one, is not 0. -/
theorem right_iff_of_holds (h : RangeHolds package (l.hit gap)) : LinkRight package (l.hit gap) ↔
    l.textMod = l.mod ∧ (l.stop = [] ∨ PyText.intOfDigits l.stop ≠ 0) := by
  obtain ⟨src, hp, h⟩ := rangeHolds_hit.1 h
  rcases h with ⟨hs, hrange⟩ | ⟨hs, want, hr, hlines, hrange⟩
  · have hnames : LinkRight package (l.hit gap) ↔ TextNames (l.hit gap) (anchorText (l.hit gap)) := by
      refine ⟨fun hl => hl.untitled src ?_ ?_, fun hn => ⟨fun src' want hp' hne => ?_, fun _ _ _ => hn⟩⟩
      · rw [Link.group_hit]
        exact hp
      · rw [Link.group_hit]
        exact hs
      · rw [Link.group_hit] at hne
        exact absurd hs hne
    have hrange' : l.textRange = expectText (PyText.intOfDigits l.fragment.start) (PyText.intOfDigits l.stop) := hrange
    rw [hnames]
    simp only [TextNames, anchorText, Link.group_hit, Link.part]
    rw [hrange', expect_iff]
  · have hnames : LinkRight package (l.hit gap) ↔
        PointsAt (l.hit gap) want ∧ TextNames (l.hit gap) (wantText want) := by
      refine ⟨fun hl => hl.titled src want ?_ ?_ ?_, fun hn => ⟨fun src' want' hp' _ hr' => ?_, fun _ _ he => ?_⟩⟩
      · rw [Link.group_hit]
        exact hp
      · rw [Link.group_hit]
        exact hs
      · rw [Link.group_hit]
        exact hr
      · rw [Link.group_hit] at hp' hr'
        obtain rfl := Option.some.inj (hp.symm.trans hp')
        obtain rfl := Option.some.inj (hr.symm.trans hr')
        exact hn
      · rw [Link.group_hit] at he
        exact absurd he hs
    obtain ⟨hstart, hstop⟩ : PyText.intOfDigits l.fragment.start = want.1.val ∧ (if PyText.intOfDigits l.stop = 0
        then PyText.intOfDigits l.fragment.start else PyText.intOfDigits l.stop) = want.2.val := Prod.mk.inj hlines
    rw [hnames]
    simp only [PointsAt, TextNames, Link.group_hit, Link.part, hrange, and_true]
    rw [and_iff_right hstart, end_iff hstop want.2.2.1, and_comm]

end Repair

end KnowledgeDesk.Proofs
