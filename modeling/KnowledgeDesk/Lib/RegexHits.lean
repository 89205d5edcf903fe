import KnowledgeDesk.Lib.RegexLang

/-!
# A text cut at the matches of a pattern

`re.sub` with a function keeps the text between the matches and replaces each match. For a pattern that is
matched in one way only, whatever follows, this file says how a text is cut, and when a text whose matches
were rewritten is cut at the same places.
-/

namespace Regex

/-! ## The groups of the match that is reported -/

/-- With `before` behind it and `w ++ rest` ahead, the match the matcher reports consumes `w` and captures
`gs`. -/
def Re.TakesWith (r : Re) (before w rest : List Char) (gs : List (Nat × List Char)) : Prop :=
  ∀ g, (r.ends ⟨before, w ++ rest, g⟩).head? = some ⟨w.reverse ++ before, rest, gs ++ g⟩

section Takes

variable {r q m : Re} {before u v w rest : List Char} {gs gs' : List (Nat × List Char)} {i : Nat}

theorem Re.Takes.takesWith (h : r.Takes before w rest) (hr : r.NoCap) : r.TakesWith before w rest [] := by
  intro g
  obtain ⟨g', hg⟩ := h g
  have hgroups : g' = g := ends_groups hr (List.mem_of_head? hg)
  rw [hg, hgroups, List.nil_append]

theorem Re.TakesWith.cap (h : r.TakesWith before w rest gs) :
    (Re.cap i r).TakesWith before w rest ((i, w) :: gs) := by
  intro g
  rw [Re.ends, List.head?_map, h g, Option.map_some, State.consumed, List.length_append,
    Nat.add_sub_cancel_right, List.take_left]
  rfl

theorem Re.TakesWith.seq (hr : r.TakesWith before u (v ++ rest) gs)
    (hq : q.TakesWith (u.reverse ++ before) v rest gs') : (Re.seq r q).TakesWith before (u ++ v) rest (gs' ++ gs) := by
  intro g
  rw [List.append_assoc, List.reverse_append, List.append_assoc, List.append_assoc]
  exact head?_flatMap (hr g) (hq (gs ++ g))

theorem Re.TakesWith.seqs_cons {rs : List Re} (hr : r.TakesWith before u (v ++ rest) gs)
    (hrs : (seqs rs).TakesWith (u.reverse ++ before) v rest gs') :
    (seqs (r :: rs)).TakesWith before (u ++ v) rest (gs' ++ gs) := by
  cases rs with
  | nil =>
    have hnil := Option.some.inj (hrs [])
    simp only [State.mk.injEq, List.append_nil] at hnil
    obtain ⟨-, hv, hgs⟩ := hnil
    obtain rfl : v = [] := by simpa using hv
    rw [← hgs, List.append_nil]
    exact hr
  | cons q qs => exact hr.seq hrs

theorem takesWith_char {p : Char → Bool} {c : Char} (hc : p c = true) : (Re.char p).TakesWith before [c] rest [] :=
  (takes_char hc).takesWith trivial

/-- A part without groups before others. -/
theorem Re.TakesWith.seqs_plain {rs : List Re} (hr : r.TakesWith before u (v ++ rest) [])
    (hrs : (seqs rs).TakesWith (u.reverse ++ before) v rest gs) :
    (seqs (r :: rs)).TakesWith before (u ++ v) rest gs := by
  have h := hr.seqs_cons hrs
  rwa [List.append_nil] at h

/-- A part without groups after another. -/
theorem Re.TakesWith.seqs_last {rs : List Re} (hr : r.TakesWith before u (v ++ rest) gs)
    (hrs : (seqs rs).TakesWith (u.reverse ++ before) v rest []) :
    (seqs (r :: rs)).TakesWith before (u ++ v) rest gs := hr.seqs_cons hrs

theorem takesWith_char_cons {p : Char → Bool} {c : Char} {rs : List Re} (hc : p c = true)
    (h : (seqs rs).TakesWith (c :: before) v rest gs) :
    (seqs (.char p :: rs)).TakesWith before (c :: v) rest gs := (takesWith_char hc).seqs_plain h

theorem takesWith_plus_char {p : Char → Bool} (hw : ∀ c ∈ w, p c = true) (hne : w ≠ [])
    (hrest : ∀ c ∈ rest.head?, p c = false) : (plus (.char p)).TakesWith before w rest [] :=
  (takes_plus_char hw hne hrest).takesWith trivial

/-- Where no text of the language begins, a plain pattern does not match. -/
theorem Re.Plain.ends_eq_nil (h : r.Plain) {s : State} (hno : ¬ ∃ w, r.Lang w ∧ w <+: s.after) :
    r.ends s = [] := by
  by_contra hne
  exact hno ((ends_ne_nil_iff h).1 hne)

theorem takesWith_opt_nil (h : ∀ g, r.ends ⟨before, rest, g⟩ = []) : (opt r).TakesWith before [] rest [] := by
  intro g
  rw [List.nil_append, opt, Re.ends, iterate]
  simp [h g]

theorem Re.TakesWith.opt (hw : w ≠ []) (h : r.TakesWith before w rest gs) :
    (opt r).TakesWith before w rest gs := by
  intro g
  have hlen := List.length_pos_iff.2 hw
  have hinner : ∀ fuel, (iterate r.ends true fuel 0 (some 0) ⟨w.reverse ++ before, rest, gs ++ g⟩).head? =
      some ⟨w.reverse ++ before, rest, gs ++ g⟩ := by
    intro fuel
    cases fuel <;> simp [iterate]
  rw [Regex.opt, Re.ends, iterate]
  simp only [lt_irrefl, if_false, if_true]
  rw [if_neg (by simp), List.head?_append, head?_flatMap (h g)]
  · rfl
  · rw [if_neg]
    · exact hinner _
    · simp only [List.length_append]
      simp
      omega

/-- A lazy repetition of a class stops at the first place from which the pattern goes on. -/
theorem head?_lazy {β : Type*} {p : Char → Bool} {f : State → List β} {b : β} {g : List (Nat × List Char)}
    (hu : ∀ c ∈ u, p c = true)
    (hno : ∀ u₁ u₂, u = u₁ ++ u₂ → u₂ ≠ [] → f ⟨u₁.reverse ++ before, u₂ ++ rest, g⟩ = [])
    (hb : (f ⟨u.reverse ++ before, rest, g⟩).head? = some b) :
    (((Re.rep (.char p) 0 none false).ends ⟨before, u ++ rest, g⟩).flatMap f).head? = some b := by
  suffices h : ∀ {fuel : Nat}, u.length ≤ fuel →
      ((iterate (Re.char p).ends false fuel 0 none ⟨before, u ++ rest, g⟩).flatMap f).head? = some b by
    refine h ?_
    simp only [List.length_append]
    omega
  induction u generalizing before with
  | nil =>
    intro fuel _
    cases fuel with
    | zero => simpa [iterate] using hb
    | succ fuel =>
      rw [iterate]
      simp only [lt_irrefl, if_false, Bool.false_eq_true, List.flatMap_cons, List.head?_append]
      rw [List.nil_append, show f ⟨before, rest, g⟩ = f ⟨[].reverse ++ before, rest, g⟩ from rfl, hb]
      rfl
  | cons c u ih =>
    intro fuel hfuel
    obtain ⟨fuel, rfl⟩ := Nat.exists_eq_add_of_lt (Nat.lt_of_lt_of_le (Nat.succ_pos _) hfuel)
    have hc := hu c List.mem_cons_self
    have hhere : f ⟨before, c :: u ++ rest, g⟩ = [] := hno [] (c :: u) rfl (List.cons_ne_nil c u)
    rw [Nat.zero_add, iterate]
    simp only [lt_irrefl, if_false, Bool.false_eq_true, List.flatMap_cons, hhere, List.nil_append]
    have hmore : (if (none : Option Nat) == some 0 then []
        else ((Re.char p).ends ⟨before, c :: u ++ rest, g⟩).flatMap fun t =>
          if 0 == 0 && t.after.length == (c :: u ++ rest).length then []
          else iterate (Re.char p).ends false fuel (0 - 1) (Option.map (· - 1) none) t) =
        iterate (Re.char p).ends false fuel 0 none ⟨c :: before, u ++ rest, g⟩ := by
      simp [Re.ends, hc]
    rw [hmore]
    refine ih (fun d hd => hu d (List.mem_cons_of_mem c hd)) (fun u₁ u₂ hsplit hne => ?_) ?_ ?_
    · have := hno (c :: u₁) u₂ (by rw [hsplit, List.cons_append]) hne
      rwa [List.reverse_cons, List.append_assoc, List.singleton_append] at this
    · rwa [List.reverse_cons, List.append_assoc, List.singleton_append] at hb
    · rw [List.length_cons] at hfuel
      omega

/-- A group that begins with a lazy repetition: the repetition is as short as what follows allows. -/
theorem takesWith_lazy {p : Char → Bool} (hu : ∀ c ∈ u, p c = true)
    (hm : m.TakesWith (u.reverse ++ before) v (w ++ rest) gs)
    (hq : q.TakesWith ((u ++ v).reverse ++ before) w rest gs')
    (hno : ∀ u₁ u₂ t g, u = u₁ ++ u₂ → u₂ ≠ [] → t ∈ m.ends ⟨u₁.reverse ++ before, u₂ ++ (v ++ (w ++ rest)), g⟩ →
      ∀ g', q.ends ⟨t.before, t.after, g'⟩ = []) :
    (Re.seq (.cap i (.seq (.rep (.char p) 0 none false) m)) q).TakesWith before (u ++ v ++ w) rest
      (gs' ++ (i, u ++ v) :: gs) := by
  intro g
  have hsplit : u ++ v ++ w ++ rest = u ++ (v ++ (w ++ rest)) := by simp
  rw [hsplit, Re.ends, Re.ends, Re.ends, List.map_flatMap, List.flatMap_assoc]
  refine head?_lazy hu (fun u₁ u₂ hsplit hne => ?_) ?_
  · rw [List.flatMap_map, List.flatMap_eq_nil_iff]
    exact fun t ht => hno u₁ u₂ t g hsplit hne ht _
  · rw [List.flatMap_map]
    refine head?_flatMap (hm g) ?_
    have hconsumed : State.consumed ⟨before, u ++ (v ++ (w ++ rest)), g⟩
        ⟨v.reverse ++ (u.reverse ++ before), w ++ rest, gs ++ g⟩ = u ++ v := by
      rw [State.consumed, ← List.append_assoc, List.length_append, Nat.add_sub_cancel_right, List.take_left]
    have hhere := hq ((i, u ++ v) :: (gs ++ g))
    simp only [hconsumed]
    rw [List.reverse_append, List.append_assoc] at hhere
    rw [hhere, List.reverse_append, List.reverse_append]
    simp

end Takes

/-! ## A text cut at its matches -/

/-- A match, with the text between it and the match before it. -/
structure Hit where
  gap : List Char
  /-- `m.group(0)`. -/
  text : List Char
  groups : List (Nat × List Char)

/-- `m.group(i)`; `[]` for a group that took no part. -/
def Hit.group (h : Hit) (i : Nat) : List Char := (h.groups.lookup i).getD []

/-- The text cut at the matches, and what is left after them; `pos` is its position in the subject. -/
def cutAt : List Match → Nat → List Char → List Hit × List Char
  | [], _, text => ([], text)
  | m :: ms, pos, text =>
    let after := text.drop (m.start - pos)
    let cut := cutAt ms m.stop (after.drop (m.stop - m.start))
    (⟨text.take (m.start - pos), after.take (m.stop - m.start), m.groups⟩ :: cut.1, cut.2)

/-- A text cut at the matches of `r`. -/
def cut (r : Re) (text : List Char) : List Hit × List Char := cutAt (finditer r text) 0 text

/-- The matches of `r`. -/
def hits (r : Re) (text : List Char) : List Hit := (cut r text).1

/-- The text outside the matches of `r`: before each of them, and after the last. -/
def around (r : Re) (text : List Char) : List (List Char) := (hits r text).map Hit.gap ++ [(cut r text).2]

/-- What replaces a cut text when `f` is called for one match after the other; `f` may raise, and it says
something of each match besides what replaces it. -/
def replaceHits {ε π : Type} (f : Hit → Except ε (List Char × List π)) :
    List Hit → List Char → Except ε (List Char × List π)
  | [], tail => .ok (tail, [])
  | h :: hs, tail => do
    let (w, said) ← f h
    let (text, more) ← replaceHits f hs tail
    .ok (h.gap ++ (w ++ text), said ++ more)

/-- `r.sub(f, text)`. -/
def subWith {ε π : Type} (r : Re) (f : Hit → Except ε (List Char × List π)) (text : List Char) :
    Except ε (List Char × List π) := replaceHits f (cut r text).1 (cut r text).2

section Exact

variable {α : Type} {r : Re} {text : α → List Char} {groups : α → List (Nat × List Char)}

/-- The texts of the language are those that `text` gives, and the pattern reports such a text wherever it
stands, whatever is around it, with the groups that `groups` gives. -/
structure Re.Exact (r : Re) (text : α → List Char) (groups : α → List (Nat × List Char)) : Prop where
  plain : r.Plain
  lang : ∀ {w}, r.Lang w ↔ ∃ a, w = text a
  ne_nil : ∀ a, text a ≠ []
  takes : ∀ a before rest, r.TakesWith before (text a) rest (groups a)

/-- Texts with a gap before each, one after the other. -/
def joined (text : α → List Char) : List (List Char × α) → List Char → List Char
  | [], tail => tail
  | p :: ps, tail => p.1 ++ (text p.2 ++ joined text ps tail)

/-- One of the texts begins here. -/
def Begins (text : α → List Char) (s : List Char) : Prop := ∃ a, text a <+: s

theorem Begins.mono {s s' : List Char} (h : Begins text s) (hs : s <+: s') : Begins text s' := by
  obtain ⟨a, ha⟩ := h
  exact ⟨a, ha.trans hs⟩

/-- The pieces are the matches of what they make up: none of the texts begins in a gap. -/
def Cuts (text : α → List Char) : List (List Char × α) → List Char → Prop
  | [], tail => ∀ u v, tail = u ++ v → ¬ Begins text v
  | p :: ps, tail =>
    (∀ u v, p.1 = u ++ v → v ≠ [] → ¬ Begins text (v ++ (text p.2 ++ joined text ps tail))) ∧ Cuts text ps tail

/-- A piece as a match. -/
def hitOf (text : α → List Char) (groups : α → List (Nat × List Char)) (p : List Char × α) : Hit :=
  ⟨p.1, text p.2, groups p.2⟩

theorem Re.Exact.not_nil (hr : r.Exact text groups) : ¬ r.Lang [] := fun h => by
  obtain ⟨a, ha⟩ := hr.lang.1 h
  exact hr.ne_nil a ha.symm

theorem Re.Exact.ends_eq_nil (hr : r.Exact text groups) {before s : List Char} {g : List (Nat × List Char)}
    (hno : ¬ Begins text s) : r.ends ⟨before, s, g⟩ = [] := by
  refine hr.plain.ends_eq_nil ?_
  rintro ⟨w, hw, hpre⟩
  obtain ⟨a, rfl⟩ := hr.lang.1 hw
  exact hno ⟨a, hpre⟩

/-- The scan of a text finds its pieces. -/
theorem Re.Exact.cutAt_joined (hr : r.Exact text groups) {ps : List (List Char × α)} {tail : List Char}
    (h : Cuts text ps tail) (pos : Nat) (before : List Char) :
    cutAt (matchesFrom r pos before (joined text ps tail)) pos (joined text ps tail) =
      (ps.map (hitOf text groups), tail) := by
  induction ps generalizing pos before with
  | nil =>
    rw [joined, ← List.append_nil tail, matchesFrom_skip fun u v hsplit _ => ?_, matchesFrom_nil hr.not_nil]
    · rfl
    · rw [List.append_nil]
      exact hr.ends_eq_nil (h u v hsplit)
  | cons p ps ih =>
    obtain ⟨hgap, hrest⟩ := h
    have hhere := hr.takes p.2 (p.1.reverse ++ before) (joined text ps tail) []
    rw [List.append_nil] at hhere
    rw [joined, matchesFrom_skip fun u v hsplit hv => hr.ends_eq_nil (hgap u v hsplit hv),
      matchesFrom_match (hr.ne_nil p.2) hhere, cutAt]
    have hstart : pos + p.1.length - pos = p.1.length := Nat.add_sub_cancel_left ..
    have hstop : pos + p.1.length + (text p.2).length - (pos + p.1.length) = (text p.2).length :=
      Nat.add_sub_cancel_left ..
    simp only [hstart, hstop, List.drop_left, List.take_left, ih hrest, List.map_cons]
    rfl

/-- The matches of a text that is cut into pieces. -/
theorem Re.Exact.cut_joined (hr : r.Exact text groups) {ps : List (List Char × α)} {tail : List Char}
    (h : Cuts text ps tail) : cut r (joined text ps tail) = (ps.map (hitOf text groups), tail) :=
  hr.cutAt_joined h 0 []

/-- Every text is cut into pieces. -/
theorem exists_cuts (hne : ∀ a, text a ≠ []) {n : Nat} : ∀ {s : List Char}, s.length = n →
    ∃ ps tail, s = joined text ps tail ∧ Cuts text ps tail := by
  induction n using Nat.strong_induction_on with
  | _ n ih =>
    intro s hn
    by_cases hbegins : Begins text s
    · obtain ⟨a, rest, rfl⟩ := hbegins
      have hlen := List.length_pos_iff.2 (hne a)
      rw [List.length_append] at hn
      obtain ⟨ps, tail, rfl, hcuts⟩ := ih rest.length (by omega) rfl
      exact ⟨([], a) :: ps, tail, rfl, fun u v hnil hv => absurd (List.append_eq_nil_iff.1 hnil.symm).2 hv, hcuts⟩
    · cases s with
      | nil =>
        refine ⟨[], [], rfl, fun u v hnil hv => hbegins ?_⟩
        rwa [(List.append_eq_nil_iff.1 hnil.symm).2] at hv
      | cons c s =>
        obtain ⟨ps, tail, rfl, hcuts⟩ := ih s.length (by rw [← hn]; simp) rfl
        cases ps with
        | nil =>
          refine ⟨[], c :: tail, rfl, fun u v hsplit hv => ?_⟩
          cases u with
          | nil =>
            rw [List.nil_append] at hsplit
            rw [← hsplit] at hv
            exact hbegins hv
          | cons d u => exact hcuts u v (List.cons.inj hsplit).2 hv
        | cons p ps =>
          refine ⟨(c :: p.1, p.2) :: ps, tail, rfl, fun u v hsplit hne hv => ?_, hcuts.2⟩
          cases u with
          | nil =>
            rw [List.nil_append] at hsplit
            rw [← hsplit] at hv
            exact hbegins hv
          | cons d u => exact hcuts.1 u v (List.cons.inj hsplit).2 hne hv

/-- The same gaps, with related texts between them. -/
def Rewritten (S : α → α → Prop) : List (List Char × α) → List (List Char × α) → Prop :=
  List.Forall₂ fun p q => p.1 = q.1 ∧ S p.2 q.2

/-- Rewritten pieces are the matches of what they make up, if by rewriting no text comes to begin in a gap. -/
theorem Cuts.rewrite {S : α → α → Prop} {ps qs : List (List Char × α)} {tail : List Char} (h : Cuts text ps tail)
    (hrel : Rewritten S ps qs)
    (hgap : ∀ v a b ps qs, v ≠ [] → S a b → Rewritten S ps qs →
      Begins text (v ++ (text b ++ joined text qs tail)) → Begins text (v ++ (text a ++ joined text ps tail))) :
    Cuts text qs tail := by
  induction hrel with
  | nil => exact h
  | cons hpq hrest ih =>
    obtain ⟨hfree, hcuts⟩ := h
    refine ⟨fun u v hsplit hv hbegins => ?_, ih hcuts⟩
    exact hfree u v (hpq.1.trans hsplit) hv (hgap v _ _ _ _ hv hpq.2 hrest hbegins)

/-! ## Replacing the matches -/

section Replace

variable {ε π : Type} {f : Hit → Except ε (List Char × List π)} {tail : List Char}

/-- A replacement that returns has called the function with every match, and it returned. -/
theorem replaceHits_returns {hs : List Hit} {result : List Char × List π} (h : replaceHits f hs tail = .ok result) :
    ∀ m ∈ hs, ∃ x, f m = .ok x := by
  induction hs generalizing result with
  | nil => exact fun m hm => absurd hm List.not_mem_nil
  | cons m hs ih =>
    rw [replaceHits] at h
    cases hm : f m with
    | error e =>
      rw [hm] at h
      cases h
    | ok x =>
      cases hrest : replaceHits f hs tail with
      | error e =>
        rw [hm, hrest] at h
        cases h
      | ok y => exact List.forall_mem_cons.2 ⟨⟨x, hm⟩, ih hrest⟩

/-- Matches that are replaced by texts of the same kind. -/
theorem replaceHits_joined {g : α → α} {P : π → Prop} {ps : List (List Char × α)}
    (h : ∀ p ∈ ps, ∃ noted, f (hitOf text groups p) = .ok (text (g p.2), noted) ∧ ∀ n ∈ noted, P n) :
    ∃ noted, replaceHits f (ps.map (hitOf text groups)) tail =
        .ok (joined text (ps.map fun p => (p.1, g p.2)) tail, noted) ∧ ∀ n ∈ noted, P n := by
  induction ps with
  | nil => exact ⟨[], rfl, fun n hn => absurd hn List.not_mem_nil⟩
  | cons p ps ih =>
    obtain ⟨noted, hp, hP⟩ := h p List.mem_cons_self
    obtain ⟨more, hps, hP'⟩ := ih fun q hq => h q (List.mem_cons_of_mem p hq)
    refine ⟨noted ++ more, ?_, fun n hn => (List.mem_append.1 hn).elim (hP n) (hP' n)⟩
    rw [List.map_cons, replaceHits, hp, hps]
    rfl

end Replace

end Exact

end Regex
