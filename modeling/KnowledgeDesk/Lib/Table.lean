import Mathlib.Algebra.Order.BigOperators.Group.List
import Mathlib.Data.List.Sort

/-!
# Tables as lists of rows

What the SQL statements of a single-table kind do to a table, read as a list of rows in physical
order: `update ... set ... where`, `delete ... where`, `order by`, `limit/offset`. The lemmas say
which rows and which selections a statement leaves alone.
-/

namespace Table

variable {ρ κ : Type*}

/-- `update t set f where p`. -/
def updateWhere (p : ρ → Bool) (f : ρ → ρ) (t : List ρ) : List ρ :=
  t.map fun r => if p r then f r else r

/-- `delete from t where p`. -/
def deleteWhere (p : ρ → Bool) (t : List ρ) : List ρ := t.filter fun r => !p r

/-- `order by`, stable: rows the key does not tell apart stay in physical order. -/
def orderBy (le : ρ → ρ → Bool) (t : List ρ) : List ρ := t.insertionSort fun a b => le a b = true

/-- `limit`/`offset`. -/
def page (limit offset : Nat) (t : List ρ) : List ρ := (t.drop offset).take limit

section Update

variable {p q : ρ → Bool} {f : ρ → ρ} {t : List ρ}

theorem mem_updateWhere {r : ρ} :
    r ∈ updateWhere p f t ↔ ∃ r₀ ∈ t, (if p r₀ then f r₀ else r₀) = r := by
  rw [updateWhere, List.mem_map]

/-- An update that keeps an attribute keeps the column of it. -/
theorem map_updateWhere (k : ρ → κ) (hk : ∀ r, k (f r) = k r) :
    (updateWhere p f t).map k = t.map k := by
  simp only [updateWhere, List.map_map]
  refine List.map_congr_left fun r _ => ?_
  by_cases h : p r = true <;> simp [h, hk]

theorem find?_updateWhere (hq : ∀ r, q (f r) = q r) :
    (updateWhere p f t).find? q = (t.find? q).map fun r => if p r then f r else r := by
  induction t with
  | nil => rfl
  | cons r t ih =>
    have hr : q (if p r = true then f r else r) = q r := by split <;> simp [hq]
    simp only [updateWhere, List.map_cons, List.find?_cons, hr] at ih ⊢
    cases hqr : q r with
    | true => simp
    | false => simpa using ih

/-- A selection whose rows the update keeps as selected or not is the update of the selection. -/
theorem filter_updateWhere (hq : ∀ r, q (f r) = q r) :
    (updateWhere p f t).filter q = updateWhere p f (t.filter q) := by
  induction t with
  | nil => rfl
  | cons r t ih =>
    have hr : q (if p r = true then f r else r) = q r := by split <;> simp [hq]
    simp only [updateWhere, List.map_cons, List.filter_cons, hr] at ih ⊢
    cases hqr : q r with
    | true => simp [ih]
    | false => simp [ih]

/-- An update of rows outside a selection, to rows outside it, leaves the selection as it was. -/
theorem filter_updateWhere_of_disjoint (hp : ∀ r ∈ t, p r = true → q r = false)
    (hf : ∀ r ∈ t, p r = true → q (f r) = false) : (updateWhere p f t).filter q = t.filter q := by
  induction t with
  | nil => rfl
  | cons r t ih =>
    have ih' := ih (fun x hx => hp x (List.mem_cons_of_mem r hx))
      (fun x hx => hf x (List.mem_cons_of_mem r hx))
    simp only [updateWhere, List.map_cons, List.filter_cons] at ih' ⊢
    by_cases hpr : p r = true
    · simp [hpr, hp r List.mem_cons_self hpr, hf r List.mem_cons_self hpr, ih']
    · simp [hpr, ih']

theorem updateWhere_of_forall_not (h : ∀ r ∈ t, p r = false) : updateWhere p f t = t := by
  simp only [updateWhere]
  conv_rhs => rw [← List.map_id t]
  exact List.map_congr_left fun r hr => by simp [h r hr]

end Update

section Delete

variable {p q : ρ → Bool} {t : List ρ}

@[simp] theorem mem_deleteWhere {r : ρ} : r ∈ deleteWhere p t ↔ r ∈ t ∧ p r = false := by
  simp [deleteWhere]

theorem filter_deleteWhere : (deleteWhere p t).filter q = deleteWhere p (t.filter q) := by
  simp only [deleteWhere, List.filter_filter, Bool.and_comm]

/-- Deleting rows outside a selection leaves the selection as it was. -/
theorem filter_deleteWhere_of_disjoint (h : ∀ r ∈ t, p r = true → q r = false) :
    (deleteWhere p t).filter q = t.filter q := by
  rw [deleteWhere, List.filter_filter]
  refine List.filter_congr fun r hr => ?_
  cases hp : p r with
  | false => simp
  | true => simp [h r hr hp]

theorem deleteWhere_of_forall_not (h : ∀ r ∈ t, p r = false) : deleteWhere p t = t := by
  rw [deleteWhere, List.filter_eq_self]
  intro r hr
  simp [h r hr]

theorem find?_deleteWhere_of_disjoint (h : ∀ r ∈ t, p r = true → q r = false) :
    (deleteWhere p t).find? q = t.find? q := by
  rw [← List.head?_filter, ← List.head?_filter, filter_deleteWhere_of_disjoint h]

theorem deleteWhere_eq_filterMap : deleteWhere p t = t.filterMap fun r => if p r then none else some r := by
  induction t with
  | nil => rfl
  | cons r t ih =>
    rw [deleteWhere] at ih ⊢
    cases hp : p r <;> simp [hp, ih]

theorem sublist_deleteWhere : (deleteWhere p t).Sublist t := List.filter_sublist

end Delete

/-- Two rows of a table with one key are the same row. -/
theorem eq_of_key {k : ρ → κ} {t : List ρ} (h : (t.map k).Nodup) {a b : ρ} (ha : a ∈ t) (hb : b ∈ t)
    (hk : k a = k b) : a = b :=
  List.inj_on_of_nodup_map h ha hb hk

/-- Under a unique key, looking a row up is finding the row with that key. -/
theorem find?_eq_some_iff [BEq κ] [LawfulBEq κ] {k : ρ → κ} {t : List ρ} (h : (t.map k).Nodup)
    {x : κ} {r : ρ} : t.find? (fun r => k r == x) = some r ↔ r ∈ t ∧ k r = x := by
  constructor
  · intro hf
    exact ⟨List.mem_of_find?_eq_some hf, by simpa using List.find?_some hf⟩
  · rintro ⟨hr, hk⟩
    cases hf : t.find? (fun r => k r == x) with
    | none => simpa [hk] using List.find?_eq_none.1 hf r hr
    | some r' =>
      have hk' : k r' = x := by simpa using List.find?_some hf
      rw [eq_of_key h (List.mem_of_find?_eq_some hf) hr (hk'.trans hk.symm)]

/-- Under a unique key, selecting by the key of a row selects that row. -/
theorem filter_key_eq [BEq κ] [LawfulBEq κ] {k : ρ → κ} {t : List ρ} (h : (t.map k).Nodup) {a : ρ}
    (ha : a ∈ t) : t.filter (fun r => k r == k a) = [a] := by
  induction t with
  | nil => cases ha
  | cons r t ih =>
    rw [List.map_cons, List.nodup_cons] at h
    rcases List.mem_cons.1 ha with rfl | ha
    · have hrest : t.filter (fun r => k r == k a) = [] := by
        refine List.filter_eq_nil_iff.2 fun r hr hk => h.1 ?_
        exact List.mem_map.2 ⟨r, hr, eq_of_beq hk⟩
      rw [List.filter_cons, if_pos (by simp), hrest]
    · have hne : ¬ (k r == k a) = true := fun hk => h.1 (List.mem_map.2 ⟨a, ha, (eq_of_beq hk).symm⟩)
      rw [List.filter_cons, if_neg hne, ih h.2 ha]

/-- Looking up by a unique key and a condition is looking up by the key, then checking. -/
theorem find?_and [BEq κ] [LawfulBEq κ] {k : ρ → κ} {p : ρ → Bool} {t : List ρ} (h : (t.map k).Nodup)
    {x : κ} : t.find? (fun r => k r == x && p r) = (t.find? fun r => k r == x).filter p := by
  cases hf : t.find? (fun r => k r == x) with
  | none =>
    rw [List.find?_eq_none] at hf
    simp only [Option.filter_none, List.find?_eq_none, Bool.and_eq_true, not_and]
    exact fun r hr hk => absurd hk (hf r hr)
  | some r =>
    obtain ⟨hr, hk⟩ := (find?_eq_some_iff h).1 hf
    cases hp : p r with
    | true =>
      rw [Option.filter_some, if_pos hp]
      cases hg : t.find? (fun r => k r == x && p r) with
      | none => simpa [hk, hp] using List.find?_eq_none.1 hg r hr
      | some r' =>
        have hk' := List.find?_some hg
        simp only [Bool.and_eq_true, beq_iff_eq] at hk'
        rw [eq_of_key h (List.mem_of_find?_eq_some hg) hr (hk'.1.trans hk.symm)]
    | false =>
      rw [Option.filter_some, if_neg (by simp [hp]), List.find?_eq_none]
      intro r' hr' hkp
      simp only [Bool.and_eq_true, beq_iff_eq] at hkp
      rw [eq_of_key h hr' hr (hkp.1.trans hk.symm), hp] at hkp
      cases hkp.2

theorem orderedInsert_last {le : ρ → ρ → Bool} {a : ρ} {t : List ρ} (h : ∀ b ∈ t, le a b = false) :
    t.orderedInsert (fun a b => le a b = true) a = t ++ [a] := by
  induction t with
  | nil => rfl
  | cons b t ih =>
    rw [List.orderedInsert_cons, if_neg (by simp [h b List.mem_cons_self]),
      ih fun c hc => h c (List.mem_cons_of_mem b hc), List.cons_append]

/-- Rows in the opposite of the order asked for come out reversed. -/
theorem orderBy_of_opposite {le : ρ → ρ → Bool} {t : List ρ}
    (h : t.Pairwise fun a b => le a b = false) : orderBy le t = t.reverse := by
  induction h with
  | nil => rfl
  | cons ha _ ih =>
    rw [orderBy] at ih ⊢
    rw [List.insertionSort_cons, ih, orderedInsert_last, List.reverse_cons]
    exact fun b hb => ha b (List.mem_reverse.1 hb)

/-- Rows no two of which tie come out in the same order, however they were given. -/
theorem orderBy_of_perm {le : ρ → ρ → Bool} (htotal : ∀ a b, le a b = true ∨ le b a = true)
    (htrans : ∀ a b c, le a b = true → le b c = true → le a c = true)
    (hanti : ∀ a b, le a b = true → le b a = true → a = b) {t t' : List ρ} (h : t.Perm t') :
    orderBy le t = orderBy le t' := by
  have : Std.Total fun a b => le a b = true := ⟨htotal⟩
  have : IsTrans ρ fun a b => le a b = true := ⟨htrans⟩
  have hsorted := fun t : List ρ => List.pairwise_insertionSort (fun a b => le a b = true) t
  have hperm := fun t : List ρ => List.perm_insertionSort (fun a b => le a b = true) t
  exact (((hperm t).trans h).trans (hperm t').symm).eq_of_pairwise (fun a b _ _ => hanti a b) (hsorted t)
    (hsorted t')

@[simp] theorem mem_orderBy {le : ρ → ρ → Bool} {t : List ρ} {r : ρ} : r ∈ orderBy le t ↔ r ∈ t :=
  List.mem_insertionSort _

section Selections

/-! ## Selections that read another selection's rows only

A query whose condition implies `q` cannot tell apart two tables with the same rows in `q`. -/

variable {p q q₁ q₂ : ρ → Bool} {t t₁ t₂ : List ρ}

theorem filter_of_imp (h : ∀ r ∈ t, p r = true → q r = true) : t.filter p = (t.filter q).filter p := by
  rw [List.filter_filter]
  refine List.filter_congr fun r hr => ?_
  cases hp : p r with
  | false => rfl
  | true => simp [h r hr hp]

theorem find?_of_imp (h : ∀ r ∈ t, p r = true → q r = true) : t.find? p = (t.filter q).find? p := by
  rw [← List.head?_filter, ← List.head?_filter, filter_of_imp h]

theorem any_of_imp (h : ∀ r ∈ t, p r = true → q r = true) : t.any p = (t.filter q).any p := by
  rw [Bool.eq_iff_iff, List.any_eq_true, List.any_eq_true]
  simp only [List.mem_filter]
  exact ⟨fun ⟨r, hr, hp⟩ => ⟨r, ⟨hr, h r hr hp⟩, hp⟩, fun ⟨r, hr, hp⟩ => ⟨r, hr.1, hp⟩⟩

theorem filter_eq (he : t₁.filter q₁ = t₂.filter q₂) (h₁ : ∀ r ∈ t₁, p r = true → q₁ r = true)
    (h₂ : ∀ r ∈ t₂, p r = true → q₂ r = true) : t₁.filter p = t₂.filter p := by
  rw [filter_of_imp h₁, he, ← filter_of_imp h₂]

theorem find?_eq (he : t₁.filter q₁ = t₂.filter q₂) (h₁ : ∀ r ∈ t₁, p r = true → q₁ r = true)
    (h₂ : ∀ r ∈ t₂, p r = true → q₂ r = true) : t₁.find? p = t₂.find? p := by
  rw [find?_of_imp h₁, he, ← find?_of_imp h₂]

theorem any_eq (he : t₁.filter q₁ = t₂.filter q₂) (h₁ : ∀ r ∈ t₁, p r = true → q₁ r = true)
    (h₂ : ∀ r ∈ t₂, p r = true → q₂ r = true) : t₁.any p = t₂.any p := by
  rw [any_of_imp h₁, he, ← any_of_imp h₂]

end Selections

section Sums

/-! ## A sum over a table -/

variable {M : Type*} [AddCommMonoid M] {w : ρ → M} {p : ρ → Bool} {f : ρ → ρ} {t : List ρ}

/-- A sum over the rows a selection matches, as a sum over all rows. -/
theorem sum_map_filter : ((t.filter p).map w).sum = (t.map fun r => if p r then w r else 0).sum := by
  induction t with
  | nil => rfl
  | cons r t ih => cases hp : p r <;> simp [hp, ih]

/-- What deleted rows weighed is what the sum loses. -/
theorem sum_deleteWhere :
    ((deleteWhere p t).map w).sum + ((t.filter p).map w).sum = (t.map w).sum := by
  induction t with
  | nil => simp [deleteWhere]
  | cons r t ih =>
    simp only [deleteWhere] at ih ⊢
    cases hp : p r with
    | false => simp [hp, ← ih, add_assoc]
    | true => simp [hp, ← ih, add_left_comm]

/-- What an update of the one row with a key changes about the sum. -/
theorem sum_updateWhere_of_key [BEq κ] [LawfulBEq κ] {k : ρ → κ} (h : (t.map k).Nodup) {a : ρ} (ha : a ∈ t) :
    ((updateWhere (fun r => k r == k a) f t).map w).sum + w a = (t.map w).sum + w (f a) := by
  induction t with
  | nil => exact absurd ha List.not_mem_nil
  | cons r t ih =>
    rw [List.map_cons, List.nodup_cons] at h
    rw [updateWhere, List.map_cons, List.map_cons, List.sum_cons, List.map_cons, List.sum_cons]
    by_cases hk : k r = k a
    · have hra : a = r := by
        rcases List.mem_cons.1 ha with hra | ha'
        · exact hra
        · exact absurd (hk ▸ List.mem_map_of_mem ha') h.1
      have hrest : updateWhere (fun r => k r == k a) f t = t := by
        refine updateWhere_of_forall_not fun b hb => beq_eq_false_iff_ne.2 fun he => ?_
        exact h.1 (hk ▸ he ▸ List.mem_map_of_mem hb)
      rw [updateWhere] at hrest
      rw [hrest, hra, beq_self_eq_true, if_pos rfl]
      rw [add_comm (w (f r)), add_assoc, add_comm (w (f r)), ← add_assoc, add_comm (w r)]
    · have ha' : a ∈ t := (List.mem_cons.1 ha).resolve_left fun he => hk (he ▸ rfl)
      have hrec := ih h.2 ha'
      rw [updateWhere] at hrec
      rw [beq_eq_false_iff_ne.2 hk, if_neg Bool.false_ne_true, add_assoc, hrec, add_assoc]

variable [PartialOrder M]

/-- An update that lowers no row's weight does not lower the sum. -/
theorem sum_updateWhere_le [IsOrderedAddMonoid M] (h : ∀ r ∈ t, p r = true → w r ≤ w (f r)) :
    (t.map w).sum ≤ ((updateWhere p f t).map w).sum := by
  rw [updateWhere, List.map_map]
  refine List.sum_le_sum fun r hr => ?_
  by_cases hp : p r = true
  · simpa [hp] using h r hr hp
  · simp [hp]

/-- An update that raises no row's weight does not raise the sum. -/
theorem sum_updateWhere_ge [IsOrderedAddMonoid M] (h : ∀ r ∈ t, p r = true → w (f r) ≤ w r) :
    ((updateWhere p f t).map w).sum ≤ (t.map w).sum := by
  rw [updateWhere, List.map_map]
  refine List.sum_le_sum fun r hr => ?_
  by_cases hp : p r = true
  · simpa [hp] using h r hr hp
  · simp [hp]

/-- A sum of weights that are not negative stands a deletion iff the deleted rows weigh nothing. -/
theorem sum_le_sum_deleteWhere_iff [IsOrderedCancelAddMonoid M] [CanonicallyOrderedAdd M] :
    (t.map w).sum ≤ ((deleteWhere p t).map w).sum ↔ ∀ r ∈ t, p r = true → w r = 0 := by
  rw [← sum_deleteWhere (p := p), add_le_iff_nonpos_right, nonpos_iff_eq_zero, List.sum_eq_zero_iff]
  simp only [List.mem_map, List.mem_filter, forall_exists_index, and_imp]
  exact ⟨fun h r hr hp => h (w r) r hr hp rfl, fun h x r hr hp he => he ▸ h r hr hp⟩

end Sums

end Table
