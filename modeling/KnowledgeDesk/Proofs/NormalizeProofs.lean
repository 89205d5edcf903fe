import KnowledgeDesk.Normalize
import Mathlib.Data.List.GetD

/-!
# Proofs: folding and replacing through the offset map

Folding works character by character, the origins ascend, and what stands in a text after its spans
were replaced stood in the original outside of every span.
-/

namespace KnowledgeDesk.Proofs

open Normalize

/-! ## Folding -/

theorem foldFrom_append (A B : List Char) : ∀ i,
    foldFrom i (A ++ B) = foldFrom i A ++ foldFrom (i + A.length) B := by
  induction A with
  | nil => exact fun _ => rfl
  | cons c A ih =>
    intro i
    rw [List.cons_append, foldFrom, foldFrom, ih, List.length_cons, Nat.add_right_comm, Nat.add_assoc]
    split <;> rfl

theorem foldFrom_fst (A : List Char) : ∀ i,
    (foldFrom i A).map (·.1) = (A.filter fun c => !isInvisible c).map foldChar := by
  induction A with
  | nil => exact fun _ => rfl
  | cons c A ih =>
    intro i
    rw [foldFrom, List.filter_cons]
    by_cases hc : isInvisible c = true
    · simp [hc, ih]
    · simp [hc, ih]

theorem fold_eq (A : List Char) : fold A = (A.filter fun c => !isInvisible c).map foldChar :=
  foldFrom_fst A 0

theorem fold_append (A B : List Char) : fold (A ++ B) = fold A ++ fold B := by
  rw [fold_eq, fold_eq, fold_eq, List.filter_append, List.map_append]

/-- A character that folding leaves as it is. -/
def Folded (c : Char) : Prop := isInvisible c = false ∧ foldChar c = c

theorem fold_of_folded {A : List Char} (h : ∀ c ∈ A, Folded c) : fold A = A := by
  rw [fold_eq, List.filter_eq_self.2 fun c hc => by simp [(h c hc).1]]
  exact (List.map_congr_left fun c hc => (h c hc).2).trans (List.map_id A)

theorem lookup_eq_none {α : Type} {l : List (Char × α)} {c : Char} (h : ∀ p ∈ l, p.1 ≠ c) :
    l.lookup c = none := by
  induction l with
  | nil => rfl
  | cons p l ih =>
    have hp : (c == p.1) = false := by
      simpa using fun h' => h p List.mem_cons_self h'.symm
    rw [List.lookup_cons, hp]
    exact ih fun q hq => h q (List.mem_cons_of_mem p hq)

/-- ASCII text folds to itself. -/
theorem folded_of_ascii {c : Char} (h : c.toNat < 128) : Folded c := by
  constructor
  · have hset : ∀ d ∈ INVISIBLE, 128 ≤ d.toNat := by simp [INVISIBLE]
    have hcf : ∀ r ∈ PyText.formats, 128 ≤ r.1 := by decide
    rw [isInvisible, Bool.or_eq_false_iff]
    constructor
    · rw [List.contains_eq_mem, decide_eq_false_iff_not]
      exact fun hc => absurd (hset c hc) (by omega)
    · rw [PyText.isFormat, List.any_eq_false]
      intro r hr
      have := hcf r hr
      simp only [Bool.and_eq_true, decide_eq_true_eq, not_and]
      omega
  · have hkeys : LOOKALIKES.all (fun p => decide (128 ≤ p.1.toNat)) = true := by decide
    have hno : ∀ p ∈ LOOKALIKES, p.1 ≠ c := fun p hp he => by
      have := of_decide_eq_true (List.all_eq_true.1 hkeys p hp)
      rw [he] at this
      omega
    rw [foldChar, lookup_eq_none hno]
    rfl

/-- What every value of the table satisfies, a character that was looked up there does. -/
theorem foldChar_of_lookup {P : Char → Prop} [DecidablePred P] {c d : Char}
    (hall : LOOKALIKES.all (fun p => decide (P p.2)) = true) (hd : LOOKALIKES.lookup c = some d) : P (foldChar c) := by
  obtain ⟨l₁, l₂, hl, -⟩ := List.lookup_eq_some_iff.1 hd
  have hmem : (c, d) ∈ LOOKALIKES := by
    rw [hl]
    simp
  rw [foldChar, hd]
  exact of_decide_eq_true (List.all_eq_true.1 hall (c, d) hmem)

/-! ## The origins -/

theorem mem_foldFrom {A : List Char} {e : Char × Nat} : ∀ {i}, e ∈ foldFrom i A →
    i ≤ e.2 ∧ e.2 < i + A.length := by
  induction A with
  | nil => exact fun h => absurd h List.not_mem_nil
  | cons c A ih =>
    intro i h
    rw [List.length_cons]
    rw [foldFrom] at h
    split at h
    · have := ih h
      omega
    · rcases List.mem_cons.1 h with rfl | h
      · exact ⟨le_refl _, by simp only; omega⟩
      · have := ih h
        omega

theorem origin_ascending (A : List Char) : (origin A).Pairwise (· < ·) := by
  suffices h : ∀ i, (foldFrom i A).Pairwise fun e e' => e.2 < e'.2 from
    List.pairwise_map.2 (h 0)
  induction A with
  | nil => exact fun _ => List.Pairwise.nil
  | cons c A ih =>
    intro i
    rw [foldFrom]
    split
    · exact ih (i + 1)
    · refine List.pairwise_cons.2 ⟨fun e he => ?_, ih (i + 1)⟩
      have := mem_foldFrom he
      simp only
      omega

theorem length_origin (A : List Char) : (origin A).length = (fold A).length := by
  rw [origin, fold, List.length_map, List.length_map]

theorem origin_lt {A : List Char} {k : Nat} (hk : k ∈ origin A) : k < A.length := by
  obtain ⟨e, he, rfl⟩ := List.mem_map.1 hk
  simpa using (mem_foldFrom he).2

/-- The origin of a visible character is its index. -/
theorem origin_visible {A B : List Char} {c : Char} (hc : isInvisible c = false) :
    (origin (A ++ c :: B))[(fold A).length]? = some A.length := by
  rw [origin, foldFrom_append, List.map_append, List.getElem?_append_right (by simp [fold]),
    List.length_map, fold, List.length_map, Nat.sub_self, foldFrom, if_neg (by simp [hc])]
  simp

/-- A match of the folded text, as a span of the original: from the origin of its first character to one
past the origin of its last. -/
theorem originalSpan_eq {A : List Char} {i j : Nat} (hij : i < j) (hj : j ≤ (fold A).length) :
    originalSpan (origin A) i j A.length = ((origin A).getD i 0, (origin A).getD (j - 1) 0 + 1) := by
  have hlen := length_origin A
  rw [originalSpan, if_neg (by omega), if_pos (by omega)]

theorem origin_getD_lt {A : List Char} {i j : Nat} (hij : i < j) (hj : j < (fold A).length) :
    (origin A).getD i 0 < (origin A).getD j 0 := by
  have hlen := length_origin A
  have hi : i < (origin A).length := by omega
  have hj' : j < (origin A).length := by omega
  rw [List.getD_eq_getElem _ _ hi, List.getD_eq_getElem _ _ hj']
  exact List.pairwise_iff_getElem.1 (origin_ascending A) i j hi hj' hij

theorem origin_getD_le {A : List Char} {i j : Nat} (hij : i ≤ j) (hj : j < (fold A).length) :
    (origin A).getD i 0 ≤ (origin A).getD j 0 := by
  rcases Nat.lt_or_eq_of_le hij with h | rfl
  · exact (origin_getD_lt h hj).le
  · exact le_refl _

/-- A span of the folded text that is not empty lies in the original as one that is not. -/
theorem originalSpan_lt {A : List Char} {i j : Nat} (hij : i < j) (hj : j ≤ (fold A).length) :
    (originalSpan (origin A) i j A.length).1 < (originalSpan (origin A) i j A.length).2 ∧
      (originalSpan (origin A) i j A.length).2 ≤ A.length := by
  have hlen := length_origin A
  have hlast : j - 1 < (origin A).length := by omega
  rw [originalSpan_eq hij hj]
  refine ⟨Nat.lt_succ_of_le (origin_getD_le (by omega) (by omega)), ?_⟩
  dsimp only
  rw [List.getD_eq_getElem _ _ hlast]
  exact origin_lt (List.getElem_mem hlast)

/-- Spans in order in the folded text are in order in the original. -/
theorem originalSpan_le {A : List Char} {i j i' j' : Nat} (hij : i < j) (hj : j ≤ i') (hij' : i' < j')
    (hj' : j' ≤ (fold A).length) :
    (originalSpan (origin A) i j A.length).2 ≤ (originalSpan (origin A) i' j' A.length).1 := by
  rw [originalSpan_eq hij (by omega), originalSpan_eq hij' hj']
  exact origin_getD_lt (by omega) (by omega)

/-! ## Replacing spans -/

/-- Spans in order, none empty, none overlapping the next. -/
def Ordered (spans : List (Nat × Nat)) : Prop :=
  (∀ p ∈ spans, p.1 < p.2) ∧ spans.Pairwise fun p q => p.2 ≤ q.1

theorem replaceFolded_ordered {text marker : List Char} {spans : List (Nat × Nat)}
    (h : Ordered spans) :
    replaceFolded text spans marker =
      spans.foldr (fun p t => t.take p.1 ++ marker ++ t.drop p.2) text := by
  have hopp : spans.Pairwise fun p q => laterFirst p q = false := by
    refine h.2.imp_of_mem fun {p q} hp hq hpq => ?_
    have hlt := h.1 p hp
    rw [laterFirst, decide_eq_false_iff_not]
    omega
  rw [replaceFolded, Table.orderBy_of_opposite hopp, List.foldl_reverse]

/-- Replacing spans leaves what stands before all of them. -/
theorem take_replaced {text marker : List Char} {spans : List (Nat × Nat)} (h : Ordered spans)
    (hend : ∀ p ∈ spans, p.2 ≤ text.length) {n : Nat} (hn : ∀ p ∈ spans, n ≤ p.1) :
    (spans.foldr (fun p t => t.take p.1 ++ marker ++ t.drop p.2) text).take n = text.take n := by
  induction spans generalizing n with
  | nil => rfl
  | cons p spans ih =>
    obtain ⟨hfirst, hrest⟩ := List.pairwise_cons.1 h.2
    have h' : Ordered spans := ⟨fun q hq => h.1 q (List.mem_cons_of_mem p hq), hrest⟩
    have hp := h.1 p List.mem_cons_self
    have hnp := hn p List.mem_cons_self
    have hlen := hend p List.mem_cons_self
    have hkept := ih h' (fun q hq => hend q (List.mem_cons_of_mem p hq)) (n := p.1)
      fun q hq => le_trans hp.le (hfirst q hq)
    rw [List.foldr_cons, hkept, List.append_assoc,
      List.take_append_of_le_length (by rw [List.length_take]; omega), List.take_take, Nat.min_eq_left hnp]

/-- A word of which the first character is not in `m` and that does not contain the first of `m` cannot
touch an `m` in the middle of a text. -/
theorem prefix_drop_middle {T A B m : List Char} {d e : Char} (hT : T.head? = some d) (hd : d ∉ m)
    (hm : m.head? = some e) (he : e ∉ T) {k : Nat} (h : T <+: (A ++ m ++ B).drop k) :
    k + T.length ≤ A.length ∨ A.length + m.length ≤ k := by
  by_contra hno
  rw [not_or] at hno
  have hget : ∀ j (hj : j < T.length), (A ++ (m ++ B))[k + j]? = some T[j] := by
    intro j hj
    rw [← List.append_assoc, ← List.getElem?_drop, ← List.getElem?_eq_getElem hj]
    exact (List.prefix_iff_getElem?.1 h j hj).trans (List.getElem?_eq_getElem hj).symm
  have hm0 : m[0]? = some e := by rw [← List.head?_eq_getElem?, hm]
  by_cases hk : k < A.length
  · have hj : A.length - k < T.length := by omega
    have hcov := hget (A.length - k) hj
    obtain ⟨hpos, -⟩ := List.getElem?_eq_some_iff.1 hm0
    rw [Nat.add_sub_cancel' hk.le, List.getElem?_append_right (le_refl _), Nat.sub_self,
      List.getElem?_append_left hpos, hm0] at hcov
    exact he (Option.some.inj hcov ▸ List.getElem_mem hj)
  · have h0 : 0 < T.length := by
      cases T with
      | nil => simp at hT
      | cons _ _ => simp
    have hfirst := hget 0 h0
    have hkm : k - A.length < m.length := by omega
    rw [Nat.add_zero, List.getElem?_append_right (by omega), List.getElem?_append_left hkm,
      List.getElem?_eq_getElem hkm] at hfirst
    have hT0 : T[0] = d := by
      rw [List.head?_eq_getElem?, List.getElem?_eq_getElem h0] at hT
      exact Option.some.inj hT
    exact hd (hT0 ▸ Option.some.inj hfirst ▸ List.getElem_mem hkm)

/-- A word that a marker cannot touch and that stands in the text after the spans were replaced stood in
the original text, outside of every span. -/
theorem stood_before {T marker text : List Char} {d e : Char} (hT : T.head? = some d) (hd : d ∉ marker)
    (hm : marker.head? = some e) (he : e ∉ T) {spans : List (Nat × Nat)} (hord : Ordered spans)
    (hend : ∀ p ∈ spans, p.2 ≤ text.length) : ∀ (pos k : Nat), (∀ p ∈ spans, pos ≤ p.1) → pos ≤ k →
      T <+: (spans.foldr (fun p t => t.take p.1 ++ marker ++ t.drop p.2) text).drop k →
      ∃ a, pos ≤ a ∧ T <+: text.drop a ∧ ∀ p ∈ spans, a + T.length ≤ p.1 ∨ p.2 ≤ a := by
  induction spans with
  | nil =>
    intro pos k _ hk h
    exact ⟨k, hk, h, fun p hp => absurd hp List.not_mem_nil⟩
  | cons p spans ih =>
    intro pos k hpos hk h
    obtain ⟨hfirst, hrest⟩ := List.pairwise_cons.1 hord.2
    have hord' : Ordered spans := ⟨fun q hq => hord.1 q (List.mem_cons_of_mem p hq), hrest⟩
    have hend' : ∀ q ∈ spans, q.2 ≤ text.length := fun q hq => hend q (List.mem_cons_of_mem p hq)
    have hp := hord.1 p List.mem_cons_self
    have hpend := hend p List.mem_cons_self
    rw [List.foldr_cons] at h
    -- the part before the span is that of the original text
    have hshape : (spans.foldr (fun p t => t.take p.1 ++ marker ++ t.drop p.2) text).take p.1 =
        text.take p.1 :=
      take_replaced hord' hend' fun q hq => le_trans hp.le (hfirst q hq)
    have hlen : (text.take p.1).length = p.1 := by
      rw [List.length_take]
      omega
    rcases prefix_drop_middle hT hd hm he h with hbefore | hafter
    · rw [hshape, hlen] at hbefore
      refine ⟨k, hk, ?_, ?_⟩
      · rw [hshape, List.append_assoc, List.drop_append_of_le_length (by omega)] at h
        have hT' : T <+: (text.take p.1).drop k :=
          List.prefix_of_prefix_length_le h (List.prefix_append _ _) (by rw [List.length_drop]; omega)
        refine hT'.trans ?_
        rw [List.drop_take]
        exact List.take_prefix _ _
      · intro q hq
        rcases List.mem_cons.1 hq with rfl | hq
        · exact .inl hbefore
        · have := hfirst q hq
          exact .inl (by omega)
    · rw [hshape, hlen] at hafter
      have h' : T <+: (spans.foldr (fun p t => t.take p.1 ++ marker ++ t.drop p.2) text).drop
          (p.2 + (k - (p.1 + marker.length))) := by
        rw [hshape, List.drop_append, List.length_append, hlen, List.drop_eq_nil_of_le (by simp [hlen]; omega),
          List.nil_append, List.drop_drop] at h
        exact h
      obtain ⟨a, ha, hTa, hout⟩ := ih hord' hend' p.2 _ hfirst (Nat.le_add_right _ _) h'
      refine ⟨a, le_trans (hpos p List.mem_cons_self) (le_trans hp.le ha), hTa, ?_⟩
      intro q hq
      rcases List.mem_cons.1 hq with rfl | hq
      · exact .inr ha
      · exact hout q hq

end KnowledgeDesk.Proofs
