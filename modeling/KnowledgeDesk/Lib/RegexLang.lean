import KnowledgeDesk.Lib.Regex
import Mathlib.Data.List.Forall2
import Mathlib.Data.List.Infix

/-!
# The language of a pattern

What the backtracking matcher finds at a position is, up to priority, what the language of the pattern
allows there: `ends_sound` and `ends_complete`. `Takes` is about priority: the match the matcher
reports. `scan_skip`, `scan_take` and `scan_covers` say what a scan of a text finds.
-/

namespace Regex

/-- The texts a pattern matches; an assertion is taken to hold. -/
def Re.Lang : Re → List Char → Prop
  | .eps => fun w => w = []
  | .char p => fun w => ∃ c, p c = true ∧ w = [c]
  | .seq r q => fun w => ∃ u v, r.Lang u ∧ q.Lang v ∧ w = u ++ v
  | .alt r q => fun w => r.Lang w ∨ q.Lang w
  | .rep r lo hi _ => fun w => ∃ us : List (List Char), (∀ u ∈ us, r.Lang u) ∧ lo ≤ us.length ∧
      (∀ n ∈ hi, us.length ≤ n) ∧ w = us.flatten
  | .cap _ r => r.Lang
  | .assert _ => fun w => w = []

/-- Without assertions, and repeating only what consumes something. -/
def Re.Plain : Re → Prop
  | .eps => True
  | .char _ => True
  | .seq r q => r.Plain ∧ q.Plain
  | .alt r q => r.Plain ∧ q.Plain
  | .rep r _ _ _ => r.Plain ∧ ¬ r.Lang []
  | .cap _ r => r.Plain
  | .assert _ => False

/-- A character class is plain, and may be repeated. -/
theorem char_plain (p : Char → Bool) : (Re.char p).Plain ∧ ¬ (Re.char p).Lang [] := by
  refine ⟨trivial, ?_⟩
  rintro ⟨c, -, h⟩
  cases h

/-- `t` is where the matcher stands after it consumed `w` from `s`. -/
def State.Reads (s : State) (w : List Char) (t : State) : Prop :=
  s.after = w ++ t.after ∧ t.before = w.reverse ++ s.before

theorem State.Reads.refl (s : State) : s.Reads [] s := ⟨rfl, rfl⟩

theorem State.Reads.trans {s t u : State} {v w : List Char} (h : s.Reads v t) (h' : t.Reads w u) :
    s.Reads (v ++ w) u := by
  refine ⟨?_, ?_⟩
  · rw [h.1, h'.1, List.append_assoc]
  · rw [h'.2, h.2, List.reverse_append, List.append_assoc]

/-! ## The matcher and the language -/

/-- What an iteration reaches, it reaches by that many texts of the iterated pattern. -/
theorem iterate_sound {r : Re} {greedy : Bool}
    (hr : ∀ {s t}, t ∈ r.ends s → ∃ w, r.Lang w ∧ s.Reads w t) {fuel : Nat} :
    ∀ {lo : Nat} {hi : Option Nat} {s t : State}, t ∈ iterate r.ends greedy fuel lo hi s →
      ∃ us : List (List Char), (∀ u ∈ us, r.Lang u) ∧ lo ≤ us.length ∧ (∀ n ∈ hi, us.length ≤ n) ∧
        s.Reads us.flatten t := by
  induction fuel with
  | zero =>
    intro lo hi s t ht
    rw [iterate] at ht
    by_cases hlo : lo = 0
    · subst hlo
      have hst : t = s := by simpa using ht
      subst hst
      exact ⟨[], by simp, by simp, by simp, State.Reads.refl t⟩
    · rw [if_neg (by simpa using hlo)] at ht
      exact absurd ht (by simp)
  | succ fuel ih =>
    intro lo hi s t ht
    have hmore : t ∈ (if hi == some 0 then [] else (r.ends s).flatMap fun t =>
        if lo == 0 && t.after.length == s.after.length then []
        else iterate r.ends greedy fuel (lo - 1) (hi.map (· - 1)) t) →
        ∃ us : List (List Char), (∀ u ∈ us, r.Lang u) ∧ lo ≤ us.length ∧ (∀ n ∈ hi, us.length ≤ n) ∧
          s.Reads us.flatten t := by
      intro hm
      by_cases hhi : hi = some 0
      · rw [if_pos (by simpa using hhi)] at hm
        exact absurd hm (by simp)
      rw [if_neg (by simpa using hhi), List.mem_flatMap] at hm
      obtain ⟨m, hm, ht⟩ := hm
      split at ht
      · exact absurd ht (by simp)
      obtain ⟨w, hw, hsm⟩ := hr hm
      obtain ⟨us, hus, hlo, hhi', hmt⟩ := ih ht
      refine ⟨w :: us, ?_, ?_, ?_, ?_⟩
      · intro u hu
        rcases List.mem_cons.1 hu with rfl | hu
        · exact hw
        · exact hus u hu
      · rw [List.length_cons]
        omega
      · intro n hn
        have hn' := hhi' (n - 1) (by rw [hn]; rfl)
        have hpos : n ≠ 0 := fun h0 => hhi (by rw [hn, h0])
        rw [List.length_cons]
        omega
      · rw [List.flatten_cons]
        exact hsm.trans hmt
    have hstop : 0 < lo ∨ (lo = 0 ∧ (t ∈ (if hi == some 0 then [] else (r.ends s).flatMap fun t =>
        if lo == 0 && t.after.length == s.after.length then []
        else iterate r.ends greedy fuel (lo - 1) (hi.map (· - 1)) t) ∨ t = s)) := by
      rw [iterate] at ht
      by_cases hlo : 0 < lo
      · exact .inl hlo
      · refine .inr ⟨by omega, ?_⟩
        rw [if_neg hlo] at ht
        cases greedy with
        | true => simpa using ht
        | false => simpa [or_comm] using ht
    rcases hstop with hlo | ⟨hlo, hm | rfl⟩
    · rw [iterate, if_pos hlo] at ht
      exact hmore ht
    · exact hmore hm
    · exact ⟨[], by simp, by simp [hlo], by simp, State.Reads.refl t⟩

/-- What the matcher reaches, it reaches by a text of the language. -/
theorem ends_sound {r : Re} : ∀ {s t : State}, t ∈ r.ends s → ∃ w, r.Lang w ∧ s.Reads w t := by
  induction r with
  | eps =>
    intro s t ht
    have hst : t = s := by simpa [Re.ends] using ht
    subst hst
    exact ⟨[], rfl, State.Reads.refl t⟩
  | char p =>
    intro s t ht
    rw [Re.ends] at ht
    split at ht
    · exact absurd ht (by simp)
    · rename_i c cs hs
      split at ht
      · rename_i hp
        have hst : t = { s with before := c :: s.before, after := cs } := by simpa using ht
        subst hst
        exact ⟨[c], ⟨c, hp, rfl⟩, hs, rfl⟩
      · exact absurd ht (by simp)
  | seq r q ihr ihq =>
    intro s t ht
    rw [Re.ends, List.mem_flatMap] at ht
    obtain ⟨m, hm, ht⟩ := ht
    obtain ⟨u, hu, hsm⟩ := ihr hm
    obtain ⟨v, hv, hmt⟩ := ihq ht
    exact ⟨u ++ v, ⟨u, v, hu, hv, rfl⟩, hsm.trans hmt⟩
  | alt r q ihr ihq =>
    intro s t ht
    rw [Re.ends, List.mem_append] at ht
    rcases ht with ht | ht
    · obtain ⟨w, hw, hst⟩ := ihr ht
      exact ⟨w, .inl hw, hst⟩
    · obtain ⟨w, hw, hst⟩ := ihq ht
      exact ⟨w, .inr hw, hst⟩
  | rep r lo hi greedy ih =>
    intro s t ht
    obtain ⟨us, hus, hlo, hhi, hst⟩ := iterate_sound ih ht
    exact ⟨us.flatten, ⟨us, hus, hlo, hhi, rfl⟩, hst⟩
  | cap i r ih =>
    intro s t ht
    rw [Re.ends, List.mem_map] at ht
    obtain ⟨m, hm, rfl⟩ := ht
    obtain ⟨w, hw, hsm⟩ := ih hm
    exact ⟨w, hw, hsm⟩
  | assert p =>
    intro s t ht
    rw [Re.ends] at ht
    split at ht
    · have hst : t = s := by simpa using ht
      subst hst
      exact ⟨[], rfl, State.Reads.refl t⟩
    · exact absurd ht (by simp)

theorem length_le_flatten {us : List (List Char)} (h : ∀ u ∈ us, u ≠ []) :
    us.length ≤ us.flatten.length := by
  induction us with
  | nil => simp
  | cons u us ih =>
    have hu := List.length_pos_iff.2 (h u List.mem_cons_self)
    have hus := ih fun v hv => h v (List.mem_cons_of_mem u hv)
    rw [List.flatten_cons, List.length_append, List.length_cons]
    omega

/-- An iteration reaches the end of every admissible number of nonempty texts of the pattern. -/
theorem iterate_complete {r : Re} {greedy : Bool} {rest : List Char}
    (hr : ∀ {s : State} {w rest : List Char}, r.Lang w → s.after = w ++ rest →
      ∃ t ∈ r.ends s, t.after = rest) :
    ∀ {us : List (List Char)} {fuel lo : Nat} {hi : Option Nat} {s : State}, (∀ u ∈ us, r.Lang u) →
      (∀ u ∈ us, u ≠ []) → us.length ≤ fuel → lo ≤ us.length → (∀ n ∈ hi, us.length ≤ n) →
      s.after = us.flatten ++ rest →
      ∃ t ∈ iterate r.ends greedy fuel lo hi s, t.after = rest := by
  intro us
  induction us with
  | nil =>
    intro fuel lo hi s _ _ _ hlo _ hs
    have hlo0 : lo = 0 := by simpa using hlo
    subst hlo0
    refine ⟨s, ?_, by simpa using hs⟩
    cases fuel with
    | zero => simp [iterate]
    | succ fuel =>
      rw [iterate, if_neg (by simp)]
      cases greedy <;> simp
  | cons u us ih =>
    intro fuel lo hi s hus hne hfuel hlo hhi hs
    cases fuel with
    | zero => simp at hfuel
    | succ fuel =>
      rw [List.flatten_cons, List.append_assoc] at hs
      obtain ⟨m, hm, hma⟩ := hr (hus u List.mem_cons_self) hs
      have hlen : ∀ n ∈ hi, 1 ≤ n := fun n hn => le_trans (by simp) (hhi n hn)
      obtain ⟨t, ht, hta⟩ := @ih fuel (lo - 1) (hi.map (· - 1)) m
        (fun v hv => hus v (List.mem_cons_of_mem u hv)) (fun v hv => hne v (List.mem_cons_of_mem u hv))
        (by simpa using hfuel) (by rw [List.length_cons] at hlo; omega)
        (by
          intro n hn
          rw [Option.mem_def, Option.map_eq_some_iff] at hn
          obtain ⟨n', hn', rfl⟩ := hn
          have := hhi n' hn'
          rw [List.length_cons] at this
          omega) hma
      have hcut : (lo == 0 && m.after.length == s.after.length) = false := by
        have hu := List.length_pos_iff.2 (hne u List.mem_cons_self)
        have : m.after.length ≠ s.after.length := by
          rw [hma, hs]
          simp only [List.length_append]
          omega
        simp [this]
      have hhi0 : hi ≠ some 0 := fun h0 => absurd (hlen 0 (by rw [h0]; rfl)) (by omega)
      refine ⟨t, ?_, hta⟩
      rw [iterate]
      have hmore : t ∈ (if hi == some 0 then [] else (r.ends s).flatMap fun t =>
          if lo == 0 && t.after.length == s.after.length then []
          else iterate r.ends greedy fuel (lo - 1) (hi.map (· - 1)) t) := by
        rw [if_neg (by simpa using hhi0), List.mem_flatMap]
        refine ⟨m, hm, ?_⟩
        rw [hcut]
        simpa using ht
      by_cases hlo0 : 0 < lo
      · rw [if_pos hlo0]
        exact hmore
      · rw [if_neg hlo0]
        cases greedy with
        | true => exact List.mem_append_left _ hmore
        | false => exact List.mem_cons_of_mem _ hmore

/-- A plain pattern is matched wherever a text of its language stands. -/
theorem ends_complete {r : Re} : r.Plain → ∀ {s : State} {w rest : List Char}, r.Lang w →
    s.after = w ++ rest → ∃ t ∈ r.ends s, t.after = rest := by
  induction r with
  | eps =>
    rintro - s w rest rfl hs
    exact ⟨s, by simp [Re.ends], hs⟩
  | char p =>
    rintro - s w rest ⟨c, hc, rfl⟩ hs
    refine ⟨{ s with before := c :: s.before, after := rest }, ?_, rfl⟩
    rw [Re.ends, hs]
    simp [hc]
  | seq r q ihr ihq =>
    rintro ⟨hr, hq⟩ s w rest ⟨u, v, hu, hv, rfl⟩ hs
    rw [List.append_assoc] at hs
    obtain ⟨m, hm, hma⟩ := ihr hr hu hs
    obtain ⟨t, ht, hta⟩ := ihq hq hv hma
    exact ⟨t, by rw [Re.ends, List.mem_flatMap]; exact ⟨m, hm, ht⟩, hta⟩
  | alt r q ihr ihq =>
    rintro ⟨hr, hq⟩ s w rest hw hs
    rw [Re.ends]
    rcases hw with hw | hw
    · obtain ⟨t, ht, hta⟩ := ihr hr hw hs
      exact ⟨t, List.mem_append_left _ ht, hta⟩
    · obtain ⟨t, ht, hta⟩ := ihq hq hw hs
      exact ⟨t, List.mem_append_right _ ht, hta⟩
  | rep r lo hi greedy ih =>
    rintro ⟨hr, hnil⟩ s w rest ⟨us, hus, hlo, hhi, rfl⟩ hs
    have hne : ∀ u ∈ us, u ≠ [] := fun u hu h => hnil (h ▸ hus u hu)
    refine iterate_complete (fun hw hs => ih hr hw hs) hus hne ?_ hlo hhi hs
    have hlen := length_le_flatten hne
    rw [hs, List.length_append]
    omega
  | cap i r ih =>
    intro hr s w rest hw hs
    obtain ⟨t, ht, hta⟩ := ih hr hw hs
    exact ⟨_, List.mem_map.2 ⟨t, ht, rfl⟩, hta⟩
  | assert p => exact False.elim

/-- A plain pattern matches at a position iff a text of its language starts there. -/
theorem ends_ne_nil_iff {r : Re} (hr : r.Plain) {s : State} :
    r.ends s ≠ [] ↔ ∃ w, r.Lang w ∧ w <+: s.after := by
  constructor
  · intro h
    obtain ⟨t, ht⟩ := List.exists_mem_of_ne_nil _ h
    obtain ⟨w, hw, hst⟩ := ends_sound ht
    exact ⟨w, hw, t.after, hst.1.symm⟩
  · rintro ⟨w, hw, rest, hrest⟩
    obtain ⟨t, ht, -⟩ := ends_complete hr hw hrest.symm
    exact List.ne_nil_of_mem ht

/-! ## The languages of the building blocks -/

theorem length_flatten_char {p : Char → Bool} {us : List (List Char)}
    (h : ∀ u ∈ us, (Re.char p).Lang u) : us.flatten.length = us.length := by
  induction us with
  | nil => rfl
  | cons u us ih =>
    obtain ⟨c, -, rfl⟩ := h u List.mem_cons_self
    have hus := ih fun v hv => h v (List.mem_cons_of_mem _ hv)
    rw [List.flatten_cons, List.length_append, hus, List.length_singleton, List.length_cons, Nat.add_comm]

theorem lang_rep_char {p : Char → Bool} {lo : Nat} {hi : Option Nat} {greedy : Bool} {w : List Char} :
    (Re.rep (.char p) lo hi greedy).Lang w ↔
      (∀ c ∈ w, p c = true) ∧ lo ≤ w.length ∧ ∀ n ∈ hi, w.length ≤ n := by
  constructor
  · rintro ⟨us, hus, hlo, hhi, rfl⟩
    have hlen := length_flatten_char hus
    refine ⟨?_, by omega, fun n hn => by rw [hlen]; exact hhi n hn⟩
    intro c hc
    obtain ⟨u, hu, hcu⟩ := List.mem_flatten.1 hc
    obtain ⟨d, hd, rfl⟩ := hus u hu
    rw [List.mem_singleton.1 hcu]
    exact hd
  · rintro ⟨hw, hlo, hhi⟩
    refine ⟨w.map fun c => [c], ?_, by simpa using hlo, by simpa using hhi, ?_⟩
    · intro u hu
      obtain ⟨c, hc, rfl⟩ := List.mem_map.1 hu
      exact ⟨c, hw c hc, rfl⟩
    · rw [← List.flatMap_def, List.flatMap_singleton']

theorem lang_star_char {p : Char → Bool} {w : List Char} :
    (star (.char p)).Lang w ↔ ∀ c ∈ w, p c = true := by
  rw [star, lang_rep_char]
  simp

theorem lang_plus_char {p : Char → Bool} {w : List Char} :
    (plus (.char p)).Lang w ↔ (∀ c ∈ w, p c = true) ∧ w ≠ [] := by
  rw [plus, lang_rep_char, ← List.length_pos_iff]
  simp [Nat.succ_le_iff]

theorem lang_opt {r : Re} {w : List Char} : (opt r).Lang w ↔ w = [] ∨ r.Lang w := by
  constructor
  · rintro ⟨us, hus, -, hhi, rfl⟩
    have hlen := hhi 1 rfl
    match us, hus, hlen with
    | [], _, _ => exact .inl rfl
    | [u], hus, _ => exact .inr (by simpa using hus u List.mem_cons_self)
  · rintro (rfl | hw)
    · exact ⟨[], by simp, by simp, by simp, rfl⟩
    · exact ⟨[w], by simpa using hw, by simp, by simp, by simp⟩

theorem lang_seqs_cons {r : Re} {rs : List Re} {w : List Char} :
    (seqs (r :: rs)).Lang w ↔ ∃ u v, r.Lang u ∧ (seqs rs).Lang v ∧ w = u ++ v := by
  cases rs with
  | nil =>
    constructor
    · intro h
      exact ⟨w, [], h, rfl, (List.append_nil w).symm⟩
    · rintro ⟨u, v, hu, rfl, rfl⟩
      rw [List.append_nil]
      exact hu
  | cons q qs => exact Iff.rfl

theorem lang_seqs_char {ps : List (Char → Bool)} {w : List Char} :
    (seqs (ps.map Re.char)).Lang w ↔ List.Forall₂ (fun p c => p c = true) ps w := by
  induction ps generalizing w with
  | nil => exact List.forall₂_nil_left_iff.symm
  | cons p ps ih =>
    rw [List.map_cons, lang_seqs_cons, List.forall₂_cons_left_iff]
    constructor
    · rintro ⟨u, v, ⟨c, hc, rfl⟩, hv, rfl⟩
      exact ⟨c, v, hc, ih.1 hv, rfl⟩
    · rintro ⟨c, v, hc, hv, rfl⟩
      exact ⟨[c], v, ⟨c, hc, rfl⟩, ih.2 hv, rfl⟩

theorem litIgnoreCase_eq (t : String) : litIgnoreCase t = seqs ((t.toList.map sameLetter).map Re.char) := by
  rw [litIgnoreCase, List.map_map]
  rfl

theorem lang_litIgnoreCase {t : String} {w : List Char} :
    (litIgnoreCase t).Lang w ↔ List.Forall₂ (fun c d => sameLetter c d = true) t.toList w := by
  rw [litIgnoreCase_eq, lang_seqs_char, List.forall₂_map_left_iff]

theorem sameLetter_self (c : Char) : sameLetter c c = true := by
  simp [sameLetter]

theorem lang_litIgnoreCase_self (t : String) : (litIgnoreCase t).Lang t.toList :=
  lang_litIgnoreCase.2 (List.forall₂_same.2 fun c _ => sameLetter_self c)

/-! ## The match that is reported -/

/-- With `before` behind it and `w ++ rest` ahead, the match the matcher reports consumes `w`. -/
def Re.Takes (r : Re) (before w rest : List Char) : Prop :=
  ∀ g, ∃ g', (r.ends ⟨before, w ++ rest, g⟩).head? = some ⟨w.reverse ++ before, rest, g'⟩

theorem head?_flatMap {α β : Type*} {l : List α} {f : α → List β} {a : α} {b : β}
    (hl : l.head? = some a) (hf : (f a).head? = some b) : (l.flatMap f).head? = some b := by
  cases l with
  | nil => simp at hl
  | cons a' l =>
    obtain rfl : a' = a := by simpa using hl
    rw [List.flatMap_cons, List.head?_append, hf]
    rfl

theorem Re.Takes.seq {r q : Re} {before u v rest : List Char} (hr : r.Takes before u (v ++ rest))
    (hq : q.Takes (u.reverse ++ before) v rest) : (Re.seq r q).Takes before (u ++ v) rest := by
  intro g
  obtain ⟨g₁, h₁⟩ := hr g
  obtain ⟨g₂, h₂⟩ := hq g₁
  refine ⟨g₂, ?_⟩
  rw [List.append_assoc, List.reverse_append, List.append_assoc]
  exact head?_flatMap h₁ h₂

theorem Re.Takes.seqs_cons {r : Re} {rs : List Re} {before u v rest : List Char}
    (hr : r.Takes before u (v ++ rest)) (hrs : (seqs rs).Takes (u.reverse ++ before) v rest) :
    (seqs (r :: rs)).Takes before (u ++ v) rest := by
  cases rs with
  | nil =>
    intro g
    obtain ⟨g₁, h₁⟩ := hr g
    obtain ⟨g₂, h₂⟩ := hrs g₁
    have hnil : v = [] := by
      have := congrArg (Option.map State.after) h₂
      simpa [seqs, Re.ends] using this
    subst hnil
    exact ⟨g₁, by simpa [seqs] using h₁⟩
  | cons q qs => exact hr.seq hrs

theorem takes_char {p : Char → Bool} {before rest : List Char} {c : Char} (hc : p c = true) :
    (Re.char p).Takes before [c] rest := by
  intro g
  exact ⟨g, by simp [Re.ends, hc]⟩

theorem takes_seqs_char {ps : List (Char → Bool)} {w : List Char}
    (h : List.Forall₂ (fun p c => p c = true) ps w) :
    ∀ {before rest : List Char}, (seqs (ps.map Re.char)).Takes before w rest := by
  induction h with
  | nil => exact fun g => ⟨g, rfl⟩
  | cons hc _ ih => exact (takes_char hc).seqs_cons ih

theorem takes_litIgnoreCase {t : String} {before w rest : List Char} (h : (litIgnoreCase t).Lang w) :
    (litIgnoreCase t).Takes before w rest := by
  rw [litIgnoreCase_eq] at h ⊢
  exact takes_seqs_char (lang_seqs_char.1 h)

/-- A greedy repetition of a class takes all there is of it. -/
theorem takes_rep_char {p : Char → Bool} {w rest : List Char} (hw : ∀ c ∈ w, p c = true) :
    ∀ {lo : Nat} {hi : Option Nat} {before : List Char}, lo ≤ w.length → (∀ n ∈ hi, w.length ≤ n) →
      ((∀ c ∈ rest.head?, p c = false) ∨ hi = some w.length) →
      (Re.rep (.char p) lo hi true).Takes before w rest := by
  suffices h : ∀ {fuel lo : Nat} {hi : Option Nat} {before : List Char} {g}, w.length < fuel →
      lo ≤ w.length → (∀ n ∈ hi, w.length ≤ n) →
      ((∀ c ∈ rest.head?, p c = false) ∨ hi = some w.length) →
      (iterate (Re.char p).ends true fuel lo hi ⟨before, w ++ rest, g⟩).head? =
        some ⟨w.reverse ++ before, rest, g⟩ by
    intro lo hi before hlo hhi hstop g
    refine ⟨g, h ?_ hlo hhi hstop⟩
    simp only [List.length_append]
    omega
  induction w with
  | nil =>
    intro fuel lo hi before g hfuel hlo hhi hstop
    obtain ⟨fuel, rfl⟩ := Nat.exists_eq_add_of_lt hfuel
    have hlo0 : lo = 0 := by simpa using hlo
    subst hlo0
    rw [show [].length + fuel + 1 = fuel + 1 by simp, iterate]
    have hmore : (if hi == some 0 then [] else ((Re.char p).ends ⟨before, [] ++ rest, g⟩).flatMap fun t =>
        if 0 == 0 && t.after.length == ([] ++ rest).length then []
        else iterate (Re.char p).ends true fuel (0 - 1) (hi.map (· - 1)) t) = [] := by
      by_cases hhi : hi = some 0
      · rw [if_pos (by simpa using hhi)]
      · rw [if_neg (by simpa using hhi)]
        rcases hstop with hstop | hstop
        · cases rest with
          | nil => rfl
          | cons c rest => simp [Re.ends, hstop c rfl]
        · exact absurd hstop (by simpa using hhi)
    simp only [lt_irrefl, if_false, if_true]
    rw [hmore]
    rfl
  | cons c w ih =>
    intro fuel lo hi before g hfuel hlo hhi hstop
    obtain ⟨fuel, rfl⟩ := Nat.exists_eq_add_of_lt (Nat.zero_lt_of_lt hfuel)
    rw [Nat.zero_add, iterate]
    rw [List.length_cons] at hfuel hlo hhi hstop
    have hhi0 : hi ≠ some 0 := fun h0 => absurd (hhi 0 (by rw [h0]; rfl)) (by omega)
    have hc := hw c List.mem_cons_self
    have hrec := @ih (fun d hd => hw d (List.mem_cons_of_mem c hd)) fuel (lo - 1)
      (hi.map (· - 1)) (c :: before) g (by omega) (by omega)
      (by
        intro n hn
        rw [Option.mem_def, Option.map_eq_some_iff] at hn
        obtain ⟨n', hn', rfl⟩ := hn
        have := hhi n' hn'
        omega)
      (by
        refine hstop.imp_right fun h => ?_
        rw [h]
        rfl)
    have hmore : (if hi == some 0 then []
        else ((Re.char p).ends ⟨before, c :: w ++ rest, g⟩).flatMap fun t =>
          if lo == 0 && t.after.length == (c :: w ++ rest).length then []
          else iterate (Re.char p).ends true fuel (lo - 1) (hi.map (· - 1)) t) =
        iterate (Re.char p).ends true fuel (lo - 1) (hi.map (· - 1)) ⟨c :: before, w ++ rest, g⟩ := by
      rw [if_neg (by simpa using hhi0)]
      simp [Re.ends, hc]
    simp only [if_true]
    rw [hmore, List.reverse_cons, List.append_assoc, List.singleton_append]
    by_cases hlo0 : 0 < lo
    · rw [if_pos hlo0, hrec]
    · rw [if_neg hlo0, List.head?_append, hrec]
      rfl

theorem takes_star_char {p : Char → Bool} {before w rest : List Char} (hw : ∀ c ∈ w, p c = true)
    (hrest : ∀ c ∈ rest.head?, p c = false) : (star (.char p)).Takes before w rest :=
  takes_rep_char hw (Nat.zero_le _) (by simp) (.inl hrest)

theorem takes_plus_char {p : Char → Bool} {before w rest : List Char} (hw : ∀ c ∈ w, p c = true)
    (hne : w ≠ []) (hrest : ∀ c ∈ rest.head?, p c = false) : (plus (.char p)).Takes before w rest :=
  takes_rep_char hw (List.length_pos_iff.2 hne) (by simp) (.inl hrest)

/-- An optional part that does not match here is passed over. -/
theorem takes_opt_nil {r : Re} {before rest : List Char} (h : ∀ g, r.ends ⟨before, rest, g⟩ = []) :
    (opt r).Takes before [] rest := by
  intro g
  refine ⟨g, ?_⟩
  rw [List.nil_append, opt, Re.ends, iterate]
  simp [h g]

/-- An optional part that matches is taken. -/
theorem takes_opt {r : Re} {before w rest : List Char} (hw : w ≠ []) (h : r.Takes before w rest) :
    (opt r).Takes before w rest := by
  intro g
  obtain ⟨g', hg⟩ := h g
  refine ⟨g', ?_⟩
  have hlen := List.length_pos_iff.2 hw
  rw [opt, Re.ends, iterate]
  have hinner : ∀ fuel, (iterate r.ends true fuel 0 (some 0) ⟨w.reverse ++ before, rest, g'⟩).head? =
      some ⟨w.reverse ++ before, rest, g'⟩ := by
    intro fuel
    cases fuel <;> simp [iterate]
  simp only [lt_irrefl, if_false, if_true]
  rw [if_neg (by simp), List.head?_append, head?_flatMap hg]
  · rfl
  · rw [if_neg]
    · exact hinner _
    · simp only [List.length_append]
      simp
      omega

/-! ## What a scan finds -/

/-- The matches of `finditer` from position `pos` on. -/
def matchesFrom (r : Re) (pos : Nat) (before after : List Char) : List Match :=
  scan r (after.length + 1) pos before after

/-- `(m.start(), m.end())` of each match. -/
def spans (ms : List Match) : List (Nat × Nat) := ms.map fun m => (m.start, m.stop)

theorem scan_succ (r : Re) (fuel pos : Nat) (before after : List Char) :
    scan r (fuel + 1) pos before after =
      match (r.ends ⟨before, after, []⟩).head? with
      | some t =>
        let len := after.length - t.after.length
        if len == 0 then match after with
          | [] => [⟨pos, pos, t.groups⟩]
          | c :: cs => ⟨pos, pos, t.groups⟩ :: scan r fuel (pos + 1) (c :: before) cs
        else ⟨pos, pos + len, t.groups⟩ :: scan r fuel (pos + len) t.before t.after
      | none => match after with
        | [] => []
        | c :: cs => scan r fuel (pos + 1) (c :: before) cs := by
  cases after <;> rfl

/-- More fuel than there are positions left changes nothing. -/
theorem scan_fuel {r : Re} {fuel : Nat} : ∀ {fuel' pos : Nat} {before after : List Char},
    after.length < fuel → after.length < fuel' →
      scan r fuel pos before after = scan r fuel' pos before after := by
  induction fuel with
  | zero => exact fun h _ => absurd h (Nat.not_lt_zero _)
  | succ fuel ih =>
    intro fuel' pos before after hfuel hfuel'
    obtain ⟨fuel', rfl⟩ := Nat.exists_eq_add_of_lt (Nat.zero_lt_of_lt hfuel')
    rw [Nat.zero_add] at hfuel' ⊢
    rw [scan_succ, scan_succ]
    dsimp only
    split
    · rename_i t ht
      split
      · cases after with
        | nil => rfl
        | cons c cs =>
          simp only [List.length_cons] at hfuel hfuel' ⊢
          rw [@ih fuel' _ _ _ (by omega) (by omega)]
      · rename_i hlen
        have hpos : after.length - t.after.length ≠ 0 := by simpa using hlen
        rw [@ih fuel' _ _ _ (by omega) (by omega)]
    · cases after with
      | nil => rfl
      | cons c cs =>
        simp only [List.length_cons] at hfuel hfuel' ⊢
        rw [@ih fuel' _ _ _ (by omega) (by omega)]

theorem matchesFrom_nil {r : Re} (hr : ¬ r.Lang []) {pos : Nat} {before : List Char} :
    matchesFrom r pos before [] = [] := by
  have hends : r.ends ⟨before, [], []⟩ = [] := by
    by_contra h
    obtain ⟨t, ht⟩ := List.exists_mem_of_ne_nil _ h
    obtain ⟨w, hw, hst⟩ := ends_sound ht
    have hnil := List.append_eq_nil_iff.1 hst.1.symm
    exact hr (hnil.1 ▸ hw)
  rw [matchesFrom, scan, hends]
  rfl

/-- Where nothing matches, the scan moves on by one. -/
theorem matchesFrom_cons {r : Re} {pos : Nat} {before rest : List Char} {c : Char}
    (h : r.ends ⟨before, c :: rest, []⟩ = []) :
    matchesFrom r pos before (c :: rest) = matchesFrom r (pos + 1) (c :: before) rest := by
  rw [matchesFrom, scan, h]
  exact scan_fuel (by simp) (by simp)

/-- A stretch of text at none of whose positions the pattern matches is passed over. -/
theorem matchesFrom_skip {r : Re} {w rest : List Char} : ∀ {pos : Nat} {before : List Char},
    (∀ w₁ w₂, w = w₁ ++ w₂ → w₂ ≠ [] → r.ends ⟨w₁.reverse ++ before, w₂ ++ rest, []⟩ = []) →
    matchesFrom r pos before (w ++ rest) =
      matchesFrom r (pos + w.length) (w.reverse ++ before) rest := by
  induction w with
  | nil => exact fun _ => rfl
  | cons c w ih =>
    intro pos before h
    have hc : r.ends ⟨before, c :: (w ++ rest), []⟩ = [] := h [] (c :: w) rfl (by simp)
    rw [List.cons_append, matchesFrom_cons hc, ih]
    · rw [List.length_cons, List.reverse_cons, List.append_assoc, List.singleton_append,
        Nat.add_right_comm, Nat.add_assoc]
    · intro w₁ w₂ hw hne
      have := h (c :: w₁) w₂ (by rw [hw, List.cons_append]) hne
      rwa [List.reverse_cons, List.append_assoc, List.singleton_append] at this

/-- A match that is reported is followed by the matches after it. -/
theorem matchesFrom_match {r : Re} {pos : Nat} {before w rest : List Char} {g : List (Nat × List Char)}
    (hw : w ≠ [])
    (h : (r.ends ⟨before, w ++ rest, []⟩).head? = some ⟨w.reverse ++ before, rest, g⟩) :
    matchesFrom r pos before (w ++ rest) =
      ⟨pos, pos + w.length, g⟩ :: matchesFrom r (pos + w.length) (w.reverse ++ before) rest := by
  have hlen := List.length_pos_iff.2 hw
  rw [matchesFrom, scan_succ, h]
  have hsub : (w ++ rest).length - rest.length = w.length := by
    rw [List.length_append, Nat.add_sub_cancel_right]
  have hne : (w.length == 0) = false := by
    simpa using hw
  simp only [hsub, hne, Bool.false_eq_true, if_false]
  rw [@scan_fuel _ _ (rest.length + 1) _ _ _ _ (Nat.lt_succ_self _)]
  · rfl
  · rw [List.length_append]
    omega

theorem spans_take {r : Re} {pos : Nat} {before w rest : List Char} (hw : w ≠ [])
    (h : r.Takes before w rest) :
    spans (matchesFrom r pos before (w ++ rest)) =
      (pos, pos + w.length) :: spans (matchesFrom r (pos + w.length) (w.reverse ++ before) rest) := by
  obtain ⟨g, hg⟩ := h []
  rw [matchesFrom_match hw hg]
  rfl

/-- One step of a scan by a pattern that consumes something when it matches. -/
theorem matchesFrom_step {r : Re} (hr : ¬ r.Lang []) {before after : List Char}
    (hne : r.ends ⟨before, after, []⟩ ≠ []) :
    ∃ w rest g, w ≠ [] ∧ after = w ++ rest ∧
      (r.ends ⟨before, after, []⟩).head? = some ⟨w.reverse ++ before, rest, g⟩ := by
  cases hends : r.ends ⟨before, after, []⟩ with
  | nil => exact absurd hends hne
  | cons t ts =>
    obtain ⟨w, hw, hst⟩ := ends_sound (hends ▸ List.mem_cons_self : t ∈ r.ends ⟨before, after, []⟩)
    refine ⟨w, t.after, t.groups, fun h => hr (h ▸ hw), hst.1, ?_⟩
    rw [List.head?_cons, ← hst.2]

/-- The matches of a scan stand in order and do not overlap. -/
theorem matchesFrom_ordered {r : Re} (hr : ¬ r.Lang []) {n : Nat} : ∀ {pos : Nat}
    {before after : List Char}, after.length = n →
      (∀ m ∈ matchesFrom r pos before after,
        pos ≤ m.start ∧ m.start < m.stop ∧ m.stop ≤ pos + after.length) ∧
      (matchesFrom r pos before after).Pairwise fun m m' => m.stop ≤ m'.start := by
  induction n using Nat.strong_induction_on with
  | _ n ih =>
    intro pos before after hn
    by_cases hends : r.ends ⟨before, after, []⟩ = []
    · cases after with
      | nil =>
        rw [matchesFrom_nil hr]
        exact ⟨by simp, List.Pairwise.nil⟩
      | cons c rest =>
        rw [matchesFrom_cons hends]
        obtain ⟨h₁, h₂⟩ := @ih rest.length (by rw [← hn]; simp) (pos + 1) (c :: before) rest rfl
        refine ⟨fun m hm => ?_, h₂⟩
        have := h₁ m hm
        rw [List.length_cons]
        omega
    · obtain ⟨w, rest, g, hw, rfl, hhead⟩ := matchesFrom_step hr hends
      have hlen := List.length_pos_iff.2 hw
      rw [matchesFrom_match hw hhead]
      obtain ⟨h₁, h₂⟩ := @ih rest.length (by rw [← hn, List.length_append]; omega)
        (pos + w.length) (w.reverse ++ before) rest rfl
      refine ⟨fun m hm => ?_, List.pairwise_cons.2 ⟨fun m hm => (h₁ m hm).1, h₂⟩⟩
      rw [List.length_append]
      rcases List.mem_cons.1 hm with rfl | hm
      · exact ⟨le_refl _, by simpa using hlen, by simp only; omega⟩
      · have := h₁ m hm
        omega

/-- At a position that no match of the scan covers, the pattern does not match. -/
theorem ends_of_uncovered {r : Re} (hr : ¬ r.Lang []) {n : Nat} : ∀ (pos : Nat)
    {before w rest : List Char}, w.length = n →
      (∀ m ∈ matchesFrom r pos before (w ++ rest),
        ¬ (m.start ≤ pos + w.length ∧ pos + w.length < m.stop)) →
      r.ends ⟨w.reverse ++ before, rest, []⟩ = [] := by
  induction n using Nat.strong_induction_on with
  | _ n ih =>
    intro pos before w rest hn hun
    by_contra hne
    by_cases hends : r.ends ⟨before, w ++ rest, []⟩ = []
    · cases w with
      | nil => exact hne hends
      | cons c w =>
        rw [List.cons_append] at hends hun
        rw [matchesFrom_cons hends] at hun
        refine hne ?_
        have := @ih w.length (by rw [← hn]; simp) (pos + 1) (c :: before) w rest rfl
          (fun m hm hc => hun m hm (by rw [List.length_cons]; omega))
        rwa [List.reverse_cons, List.append_assoc, List.singleton_append]
    · obtain ⟨u, rest', g, hu, hsplit, hhead⟩ := matchesFrom_step hr hends
      rw [hsplit] at hhead hun
      rw [matchesFrom_match hu hhead] at hun
      by_cases hcov : w.length < u.length
      · exact hun _ List.mem_cons_self ⟨Nat.le_add_right _ _, by simpa using hcov⟩
      · have hpre : u <+: w := by
          have h₁ : u <+: w ++ rest := ⟨rest', hsplit.symm⟩
          exact List.prefix_of_prefix_length_le h₁ (List.prefix_append w rest) (by omega)
        obtain ⟨v, rfl⟩ := hpre
        have hrest : rest' = v ++ rest := by
          rw [List.append_assoc] at hsplit
          exact (List.append_cancel_left hsplit).symm
        subst hrest
        have hlen := List.length_pos_iff.2 hu
        rw [List.length_append] at hn
        refine hne ?_
        have := @ih v.length (by omega) (pos + u.length) (u.reverse ++ before) v rest
          rfl (fun m hm hc =>
            hun m (List.mem_cons_of_mem _ hm) (by rw [List.length_append]; omega))
        rwa [List.reverse_append, List.append_assoc]

/-- Where the pattern matches, a match of the scan covers the position. -/
theorem covered_of_ends {r : Re} (hr : ¬ r.Lang []) {text w rest : List Char} (htext : text = w ++ rest)
    (hne : r.ends ⟨w.reverse, rest, []⟩ ≠ []) :
    ∃ m ∈ finditer r text, m.start ≤ w.length ∧ w.length < m.stop := by
  subst htext
  by_contra hun
  refine hne ?_
  rw [← List.append_nil w.reverse]
  refine ends_of_uncovered hr 0 rfl fun m hm hcov => hun ⟨m, hm, ?_⟩
  rwa [Nat.zero_add] at hcov

/-- A match of a scan is the one the matcher reports at the place it starts. -/
theorem match_at {r : Re} (hr : ¬ r.Lang []) {n : Nat} : ∀ {pos : Nat} {before after : List Char}
    {m : Match}, after.length = n → m ∈ matchesFrom r pos before after →
      ∃ u rest t, after = u ++ rest ∧ t ∈ r.ends ⟨u.reverse ++ before, rest, []⟩ ∧
        m.start = pos + u.length ∧ m.stop + t.after.length = pos + after.length ∧ m.groups = t.groups := by
  induction n using Nat.strong_induction_on with
  | _ n ih =>
    intro pos before after m hn hm
    by_cases hends : r.ends ⟨before, after, []⟩ = []
    · cases after with
      | nil =>
        rw [matchesFrom_nil hr] at hm
        exact absurd hm List.not_mem_nil
      | cons c rest =>
        rw [matchesFrom_cons hends] at hm
        obtain ⟨u, rest', t, rfl, ht, hstart, hstop, hg⟩ := ih rest.length (by rw [← hn]; simp) rfl hm
        refine ⟨c :: u, rest', t, rfl, ?_, ?_, ?_, hg⟩
        · rwa [List.reverse_cons, List.append_assoc, List.singleton_append]
        · rw [hstart, List.length_cons]
          omega
        · rw [hstop, List.length_cons]
          omega
    · obtain ⟨v, rest, g, hv, rfl, hhead⟩ := matchesFrom_step hr hends
      rw [matchesFrom_match hv hhead] at hm
      have hlen := List.length_pos_iff.2 hv
      rcases List.mem_cons.1 hm with rfl | hm
      · refine ⟨[], _, _, rfl, List.mem_of_head? hhead, rfl, ?_, rfl⟩
        rw [List.length_append]
        exact Nat.add_assoc _ _ _
      · obtain ⟨u, rest', t, hsplit, ht, hstart, hstop, hg⟩ :=
          ih rest.length (by rw [← hn, List.length_append]; omega) rfl hm
        refine ⟨v ++ u, rest', t, by rw [hsplit, List.append_assoc], ?_, ?_, ?_, hg⟩
        · rwa [List.reverse_append, List.append_assoc]
        · rw [hstart, List.length_append]
          omega
        · rw [hstop, List.length_append]
          omega

/-- A match of a scan is a text of the language, at the place the match says. -/
theorem match_sound {r : Re} (hr : ¬ r.Lang []) {pos : Nat} {before after : List Char} {m : Match}
    (hm : m ∈ matchesFrom r pos before after) :
    ∃ u w rest, after = u ++ (w ++ rest) ∧ r.Lang w ∧ m.start = pos + u.length ∧
      m.stop = m.start + w.length := by
  obtain ⟨u, rest, t, rfl, ht, hstart, hstop, -⟩ := match_at hr rfl hm
  obtain ⟨w, hw, hst⟩ := ends_sound ht
  have hrest : rest = w ++ t.after := hst.1
  refine ⟨u, w, t.after, by rw [← hrest], hw, hstart, ?_⟩
  rw [hrest] at hstop
  simp only [List.length_append] at hstop
  omega

/-- A search finds something iff a text of the language stands somewhere. -/
theorem search_iff {r : Re} (hr : ¬ r.Lang []) (hp : r.Plain) {text : List Char} :
    search r text = true ↔ ∃ u w rest, text = u ++ (w ++ rest) ∧ r.Lang w := by
  have hsearch : search r text = true ↔ matchesFrom r 0 [] text ≠ [] := by
    rw [search, Bool.not_eq_true', List.isEmpty_eq_false_iff]
    rfl
  rw [hsearch]
  constructor
  · intro h
    obtain ⟨m, hm⟩ := List.exists_mem_of_ne_nil _ h
    obtain ⟨u, w, rest, hsplit, hw, -⟩ := match_sound hr hm
    exact ⟨u, w, rest, hsplit, hw⟩
  · rintro ⟨u, w, rest, rfl, hw⟩ h
    have hends : r.ends ⟨u.reverse ++ [], w ++ rest, []⟩ = [] :=
      ends_of_uncovered hr 0 rfl fun m hm => by
        rw [h] at hm
        exact absurd hm List.not_mem_nil
    exact (ends_ne_nil_iff hp (s := ⟨u.reverse ++ [], w ++ rest, []⟩)).2
      ⟨w, hw, List.prefix_append w rest⟩ hends

/-- A search finds something iff a part of the text is in the language. -/
theorem search_iff_infix {r : Re} (hr : ¬ r.Lang []) (hp : r.Plain) {text : List Char} :
    search r text = true ↔ ∃ w, w <:+: text ∧ r.Lang w := by
  rw [search_iff hr hp]
  constructor
  · rintro ⟨u, w, rest, rfl, hw⟩
    exact ⟨w, ⟨u, rest, List.append_assoc ..⟩, hw⟩
  · rintro ⟨w, ⟨u, rest, rfl⟩, hw⟩
    exact ⟨u, w, rest, List.append_assoc .., hw⟩

/-! ## Groups -/

/-- A sequence is matched part by part. -/
theorem mem_ends_seqs_cons {r : Re} {rs : List Re} {s t : State} :
    t ∈ (seqs (r :: rs)).ends s ↔ ∃ m ∈ r.ends s, t ∈ (seqs rs).ends m := by
  cases rs with
  | nil =>
    constructor
    · exact fun h => ⟨t, h, List.mem_singleton_self t⟩
    · rintro ⟨m, hm, ht⟩
      rwa [List.mem_singleton.1 ht]
  | cons q qs => exact List.mem_flatMap

/-- Without capturing groups. -/
def Re.NoCap : Re → Prop
  | .eps => True
  | .char _ => True
  | .seq r q => r.NoCap ∧ q.NoCap
  | .alt r q => r.NoCap ∧ q.NoCap
  | .rep r _ _ _ => r.NoCap
  | .cap _ _ => False
  | .assert _ => True

theorem iterate_groups {r : Re} {greedy : Bool} (hr : ∀ {s t}, t ∈ r.ends s → t.groups = s.groups)
    {fuel : Nat} : ∀ {lo : Nat} {hi : Option Nat} {s t : State},
      t ∈ iterate r.ends greedy fuel lo hi s → t.groups = s.groups := by
  induction fuel with
  | zero =>
    intro lo hi s t ht
    rw [iterate] at ht
    split at ht
    · rw [List.mem_singleton.1 ht]
    · exact absurd ht List.not_mem_nil
  | succ fuel ih =>
    intro lo hi s t ht
    have hmore : t ∈ (if hi == some 0 then [] else (r.ends s).flatMap fun t =>
        if lo == 0 && t.after.length == s.after.length then []
        else iterate r.ends greedy fuel (lo - 1) (hi.map (· - 1)) t) → t.groups = s.groups := by
      intro hm
      split at hm
      · exact absurd hm List.not_mem_nil
      · obtain ⟨m, hm, ht⟩ := List.mem_flatMap.1 hm
        split at ht
        · exact absurd ht List.not_mem_nil
        · exact (ih ht).trans (hr hm)
    rw [iterate] at ht
    split at ht
    · exact hmore ht
    · split at ht
      · rcases List.mem_append.1 ht with ht | ht
        · exact hmore ht
        · rw [List.mem_singleton.1 ht]
      · rcases List.mem_cons.1 ht with rfl | ht
        · rfl
        · exact hmore ht

theorem ends_groups {r : Re} : r.NoCap → ∀ {s t : State}, t ∈ r.ends s → t.groups = s.groups := by
  induction r with
  | eps =>
    intro _ s t ht
    rw [List.mem_singleton.1 ht]
  | char p =>
    intro _ s t ht
    rw [Re.ends] at ht
    split at ht
    · exact absurd ht List.not_mem_nil
    · split at ht
      · rw [List.mem_singleton.1 ht]
      · exact absurd ht List.not_mem_nil
  | seq r q ihr ihq =>
    rintro ⟨hr, hq⟩ s t ht
    obtain ⟨m, hm, ht⟩ := List.mem_flatMap.1 ht
    exact (ihq hq ht).trans (ihr hr hm)
  | alt r q ihr ihq =>
    rintro ⟨hr, hq⟩ s t ht
    rcases List.mem_append.1 ht with ht | ht
    · exact ihr hr ht
    · exact ihq hq ht
  | rep r lo hi greedy ih => exact fun hr s t ht => iterate_groups (ih hr) ht
  | cap i r ih => exact False.elim
  | assert p =>
    intro _ s t ht
    rw [Re.ends] at ht
    split at ht
    · rw [List.mem_singleton.1 ht]
    · exact absurd ht List.not_mem_nil

/-- What a pattern without groups reads. -/
theorem mem_ends_noCap {r : Re} {s t : State} (h : t ∈ r.ends s) (hr : r.NoCap) :
    ∃ w, r.Lang w ∧ s.after = w ++ t.after ∧ t.groups = s.groups := by
  obtain ⟨w, hw, hst⟩ := ends_sound h
  exact ⟨w, hw, hst.1, ends_groups hr h⟩

/-- What a group reads, it captures. -/
theorem mem_ends_cap {i : Nat} {r : Re} {s t : State} (h : t ∈ (Re.cap i r).ends s) (hr : r.NoCap) :
    ∃ w, r.Lang w ∧ s.after = w ++ t.after ∧ t.groups = (i, w) :: s.groups := by
  obtain ⟨m, hm, rfl⟩ := List.mem_map.1 h
  obtain ⟨w, hw, hsm, hg⟩ := mem_ends_noCap hm hr
  refine ⟨w, hw, hsm, ?_⟩
  rw [State.consumed, hsm, List.length_append, Nat.add_sub_cancel_right, List.take_left, hg]

/-- Two ways to cut a text after the characters of a class are the same. -/
theorem span_unique {p : Char → Bool} {u : List Char} : ∀ {v u' v' : List Char}, u ++ v = u' ++ v' →
    (∀ c ∈ u, p c = true) → (∀ c ∈ u', p c = true) → (∀ c ∈ v.head?, p c = false) →
    (∀ c ∈ v'.head?, p c = false) → u = u' ∧ v = v' := by
  induction u with
  | nil =>
    intro v u' v' h _ hu' hv _
    cases u' with
    | nil => exact ⟨rfl, h⟩
    | cons c u' =>
      have hc := hv c (by rw [← List.nil_append v, h]; rfl)
      rw [hu' c List.mem_cons_self] at hc
      exact absurd hc (by decide)
  | cons c u ih =>
    intro v u' v' h hu hu' hv hv'
    cases u' with
    | nil =>
      have hc := hv' c (by rw [← List.nil_append v', ← h]; rfl)
      rw [hu c List.mem_cons_self] at hc
      exact absurd hc (by decide)
    | cons c' u' =>
      obtain ⟨rfl, hrest⟩ := List.cons.inj h
      obtain ⟨rfl, rfl⟩ := ih hrest (fun d hd => hu d (List.mem_cons_of_mem c hd))
        (fun d hd => hu' d (List.mem_cons_of_mem c hd)) hv hv'
      exact ⟨rfl, rfl⟩

end Regex
