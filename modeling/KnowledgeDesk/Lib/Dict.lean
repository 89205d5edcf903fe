import Mathlib.Data.List.Nodup
import Mathlib.Data.List.Perm.Subperm
import Mathlib.Tactic.Tauto

/-!
# Dictionaries

A Python `dict`: entries in the order of their first insertion, no two with the same key. Assigning to
a key that is there keeps its place.
-/

/-- A `dict`. -/
structure Dict (κ ν : Type) where
  entries : List (κ × ν)
  nodup : (entries.map Prod.fst).Nodup

namespace Dict

variable {κ ν : Type} [DecidableEq κ]

/-- `{}`. -/
def empty : Dict κ ν := ⟨[], List.nodup_nil⟩

/-- `d.get(key)`. -/
def get? (d : Dict κ ν) (key : κ) : Option ν := d.entries.lookup key

/-- `len(d)`. -/
def size (d : Dict κ ν) : Nat := d.entries.length

/-- The entries with the value of `key` replaced, or the new entry at the end. -/
def assign (key : κ) (v : ν) : List (κ × ν) → List (κ × ν)
  | [] => [(key, v)]
  | e :: es => if e.1 = key then (key, v) :: es else e :: assign key v es

theorem mem_assign_keys {key : κ} {v : ν} {es : List (κ × ν)} {k : κ} :
    k ∈ (assign key v es).map Prod.fst ↔ k = key ∨ k ∈ es.map Prod.fst := by
  induction es with
  | nil => simp [assign]
  | cons e es ih =>
    rw [assign]
    by_cases h : e.1 = key
    · rw [if_pos h, List.map_cons, List.map_cons, List.mem_cons, List.mem_cons, h]
      tauto
    · rw [if_neg h, List.map_cons, List.map_cons, List.mem_cons, List.mem_cons, ih]
      tauto

theorem nodup_assign {key : κ} {v : ν} {es : List (κ × ν)} (h : (es.map Prod.fst).Nodup) :
    ((assign key v es).map Prod.fst).Nodup := by
  induction es with
  | nil => simp [assign]
  | cons e es ih =>
    rw [List.map_cons, List.nodup_cons] at h
    rw [assign]
    by_cases he : e.1 = key
    · rw [if_pos he, List.map_cons, List.nodup_cons, ← he]
      exact h
    · rw [if_neg he, List.map_cons, List.nodup_cons, mem_assign_keys]
      exact ⟨fun hmem => hmem.elim he h.1, ih h.2⟩

/-- `d[key] = v`. -/
def set (d : Dict κ ν) (key : κ) (v : ν) : Dict κ ν := ⟨assign key v d.entries, nodup_assign d.nodup⟩

/-- `for key in [k for k, v in d.items() if not p(v)]: del d[key]`. -/
def keep (d : Dict κ ν) (p : ν → Bool) : Dict κ ν :=
  ⟨d.entries.filter fun e => p e.2, d.nodup.sublist (List.filter_sublist.map _)⟩

theorem lookup_assign_self (key : κ) (v : ν) (es : List (κ × ν)) :
    (assign key v es).lookup key = some v := by
  induction es with
  | nil => simp [assign]
  | cons e es ih =>
    rw [assign]
    by_cases h : e.1 = key
    · rw [if_pos h, List.lookup_cons_self]
    · rw [if_neg h, List.lookup_cons, beq_eq_false_iff_ne.2 (Ne.symm h), ih]

theorem lookup_assign_of_ne {key k : κ} (v : ν) (hk : k ≠ key) (es : List (κ × ν)) :
    (assign key v es).lookup k = es.lookup k := by
  induction es with
  | nil => simp [assign, List.lookup_cons, beq_eq_false_iff_ne.2 hk]
  | cons e es ih =>
    rw [assign]
    by_cases h : e.1 = key
    · rw [if_pos h, List.lookup_cons, List.lookup_cons, h, beq_eq_false_iff_ne.2 hk]
    · rw [if_neg h, List.lookup_cons, List.lookup_cons, ih]

theorem lookup_eq_none {key : κ} {es : List (κ × ν)} (h : key ∉ es.map Prod.fst) :
    es.lookup key = none := by
  rw [List.lookup_eq_none_iff]
  intro e he
  rw [bne_iff_ne]
  rintro rfl
  exact h (List.mem_map_of_mem he)

theorem lookup_filter {key : κ} {p : ν → Bool} {es : List (κ × ν)} (h : (es.map Prod.fst).Nodup) :
    (es.filter fun e => p e.2).lookup key = (es.lookup key).filter p := by
  induction es with
  | nil => rfl
  | cons e es ih =>
    rw [List.map_cons, List.nodup_cons] at h
    by_cases hk : key = e.1
    · subst hk
      rw [List.lookup_cons_self, List.filter_cons]
      by_cases hp : p e.2 = true
      · rw [if_pos hp, List.lookup_cons_self, Option.filter_some, if_pos hp]
      · rw [if_neg hp, ih h.2, lookup_eq_none h.1, Option.filter_some, if_neg hp]
        rfl
    · rw [List.lookup_cons, beq_eq_false_iff_ne.2 hk, ← ih h.2, List.filter_cons]
      by_cases hp : p e.2 = true
      · rw [if_pos hp, List.lookup_cons, beq_eq_false_iff_ne.2 hk]
      · rw [if_neg hp]

@[simp] theorem get?_set_self (d : Dict κ ν) (key : κ) (v : ν) : (d.set key v).get? key = some v :=
  lookup_assign_self key v d.entries

theorem get?_set_of_ne (d : Dict κ ν) {key k : κ} (v : ν) (hk : k ≠ key) :
    (d.set key v).get? k = d.get? k :=
  lookup_assign_of_ne v hk d.entries

@[simp] theorem get?_keep (d : Dict κ ν) (p : ν → Bool) (key : κ) :
    (d.keep p).get? key = (d.get? key).filter p :=
  lookup_filter d.nodup

/-- A dictionary holds at least as many entries as it has been found to have keys. -/
theorem length_le_size {d : Dict κ ν} {keys : List κ} (hkeys : keys.Nodup)
    (h : ∀ key ∈ keys, d.get? key ≠ none) : keys.length ≤ d.size := by
  have hsub : keys ⊆ d.entries.map Prod.fst := by
    intro key hkey
    by_contra hnot
    exact h key hkey (lookup_eq_none hnot)
  have hle := (hkeys.subperm hsub).length_le
  rwa [List.length_map] at hle

end Dict
