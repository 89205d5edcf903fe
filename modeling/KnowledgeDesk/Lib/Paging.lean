import KnowledgeDesk.Lib.Table
import Mathlib.Data.List.Nodup
import Mathlib.Data.List.Pairwise

/-!
# Offset paging

A sweep asks for the rows page by page until a page is short, and every query orders the rows anew: `le`
binds it, rows that tie come in any order. The pages make up the rows if no ties stand on two pages; if
some do, the answers can be such that a row is on both.
-/

open Table

namespace Paging

variable {α : Type} {le : α → α → Bool} {rows l l' : List α} {size : Nat}

/-- What an `order by` may order by. -/
structure TotalPreorder (le : α → α → Bool) : Prop where
  trans : ∀ a b c, le a b = true → le b c = true → le a c = true
  total : ∀ a b, (le a b || le b a) = true

theorem TotalPreorder.refl (h : TotalPreorder le) (a : α) : le a a = true := by
  simpa using h.total a a

/-- An order of the rows that a query may answer in. -/
def Listing (le : α → α → Bool) (rows l : List α) : Prop :=
  l.Perm rows ∧ l.Pairwise fun a b => le a b = true

/-- The pages of `size` one after the other until one is short, where query number `k` sees `listing k`. -/
def sweep (size : Nat) (listing : Nat → List α) : Nat → Nat → List α → Option (List α)
  | 0, _, _ => none
  | fuel + 1, query, rows =>
    let next := page size rows.length (listing query)
    if next.length < size then some (rows ++ next) else sweep size listing fuel (query + 1) (rows ++ next)

/-- Rows that come strictly before a row. -/
def before (le : α → α → Bool) (x : α) (rows : List α) : Nat := rows.countP fun y => !le x y

/-- Rows that come before a row, or tie with it. -/
def upTo (le : α → α → Bool) (x : α) (rows : List α) : Nat := rows.countP fun y => le y x

/-- A row and the rows that tie with it stand on one page. -/
def Fits (le : α → α → Bool) (size : Nat) (rows : List α) : Prop :=
  ∀ x ∈ rows, before le x rows / size = (upTo le x rows - 1) / size

instance : Decidable (Fits le size rows) :=
  inferInstanceAs (Decidable (∀ x ∈ rows, before le x rows / size = (upTo le x rows - 1) / size))

/-! ## What a sweep returns -/

theorem length_page {offset : Nat} : (page size offset l).length = min size (l.length - offset) := by
  rw [page, List.length_take, List.length_drop]

/-- A sweep of listings of `n` rows returns their pages, up to the first short one. -/
theorem sweep_eq {listing : Nat → List α} {n : Nat} (hsize : 0 < size) (hlength : ∀ k, (listing k).length = n)
    {fuel query : Nat} (hfuel : n / size + 1 ≤ fuel + query) (hquery : query ≤ n / size) {rows : List α}
    (hrows : rows.length = query * size) :
    sweep size listing fuel query rows =
      some (rows ++ (List.range' query (n / size + 1 - query)).flatMap
        fun k => page size (k * size) (listing k)) := by
  have hn := Nat.div_add_mod' n size
  have hmod := Nat.mod_lt n hsize
  induction fuel generalizing query rows with
  | zero => omega
  | succ fuel ih =>
    have hlen : (page size (query * size) (listing query)).length = min size (n - query * size) := by
      rw [length_page, hlength]
    rw [sweep, hrows]
    by_cases hlast : query = n / size
    · -- the last page is short
      subst hlast
      have hshort : (page size (n / size * size) (listing (n / size))).length < size := by
        rw [hlen]
        omega
      rw [if_pos hshort, show n / size + 1 - n / size = 1 by omega, List.range'_one, List.flatMap_singleton]
    · have hnext : (query + 1) * size ≤ n := by
        have := Nat.mul_le_mul_right size (by omega : query + 1 ≤ n / size)
        omega
      rw [Nat.add_mul, Nat.one_mul] at hnext
      have hfull : (page size (query * size) (listing query)).length = size := by
        rw [hlen]
        omega
      rw [if_neg (by omega), ih (by omega) (by omega)
        (by rw [List.length_append, hfull, hrows, Nat.add_mul, Nat.one_mul])]
      rw [show n / size + 1 - query = (n / size + 1 - (query + 1)) + 1 by omega, List.range'_succ,
        List.flatMap_cons, List.append_assoc]

/-- The pages a sweep from the start returns. -/
def pages (size : Nat) (listing : Nat → List α) (n : Nat) : List α :=
  (List.range (n / size + 1)).flatMap fun k => page size (k * size) (listing k)

theorem sweep_from_start {listing : Nat → List α} {n fuel : Nat} (hsize : 0 < size)
    (hlength : ∀ k, (listing k).length = n) (hfuel : n < fuel) :
    sweep size listing fuel 0 [] = some (pages size listing n) := by
  have hdiv := Nat.div_le_self n size
  rw [sweep_eq hsize hlength (by omega) (Nat.zero_le _) (by rw [Nat.zero_mul, List.length_nil]),
    List.nil_append, Nat.sub_zero, ← List.range_eq_range', pages]

/-- The pages of one listing are the listing. -/
theorem flatMap_page (k : Nat) :
    ((List.range k).flatMap fun k => page size (k * size) l) = l.take (k * size) := by
  induction k with
  | zero => simp
  | succ k ih =>
    rw [List.range_succ, List.flatMap_append, ih, List.flatMap_singleton, page, Nat.add_mul, Nat.one_mul,
      List.take_add]

theorem pages_const (hsize : 0 < size) : pages size (fun _ => l) l.length = l := by
  rw [pages, flatMap_page, List.take_of_length_le]
  exact le_of_lt (Nat.lt_div_mul_add hsize |>.trans_eq (by rw [Nat.add_mul, Nat.one_mul]))

/-! ## Rows before a place -/

/-- What a downward closed predicate keeps of a sorted list is its beginning. -/
theorem filter_eq_take {p : α → Bool} (hl : l.Pairwise fun a b => le a b = true)
    (hp : ∀ a b, le a b = true → p b = true → p a = true) : l.filter p = l.take (l.countP p) := by
  induction hl with
  | nil => rfl
  | @cons a l ha _ ih =>
    by_cases hpa : p a = true
    · rw [List.filter_cons_of_pos hpa, List.countP_cons_of_pos hpa, List.take_succ_cons, ih]
    · have hnone : ∀ b ∈ a :: l, ¬ p b = true := by
        intro b hb hpb
        rcases List.mem_cons.1 hb with rfl | hb
        · exact hpa hpb
        · exact hpa (hp a b (ha b hb) hpb)
      rw [List.countP_eq_zero.2 hnone, List.take_zero, List.filter_eq_nil_iff.2 hnone]

theorem exists_listing (hle : TotalPreorder le) (rows : List α) : ∃ l, Listing le rows l :=
  ⟨rows.mergeSort le, List.mergeSort_perm rows le, List.pairwise_mergeSort hle.trans hle.total rows⟩

/-- The place of a row in a listing is among those of the rows that tie with it. -/
theorem place_le (hle : TotalPreorder le) {u v : List α} {b : α}
    (hl : (u ++ b :: v).Pairwise fun a b => le a b = true) :
    before le b (u ++ b :: v) ≤ u.length ∧ u.length < upTo le b (u ++ b :: v) := by
  have hrefl := hle.refl b
  obtain ⟨-, hbv, hub⟩ := List.pairwise_append.1 hl
  constructor
  · have hnone : (b :: v).countP (fun y => !le b y) = 0 := by
      rw [List.countP_eq_zero]
      intro y hy
      rcases List.mem_cons.1 hy with rfl | hy
      · simp [hrefl]
      · simp [(List.pairwise_cons.1 hbv).1 y hy]
    rw [before, List.countP_append, hnone, Nat.add_zero]
    exact List.countP_le_length
  · have hall : u.countP (fun y => le y b) = u.length := by
      rw [List.countP_eq_length]
      exact fun y hy => hub y hy b List.mem_cons_self
    have hself : 0 < (b :: v).countP fun y => le y b := List.countP_pos_iff.2 ⟨b, List.mem_cons_self, hrefl⟩
    rw [upTo, List.countP_append, hall]
    omega

/-- Rows that do not tie stand on one page each. -/
theorem fits_of_antisymm (hle : TotalPreorder le) (hnodup : rows.Nodup)
    (hanti : ∀ a ∈ rows, ∀ b ∈ rows, le a b = true → le b a = true → a = b) : Fits le size rows := by
  intro x hx
  obtain ⟨l, hl⟩ := exists_listing hle rows
  obtain ⟨u, v, rfl⟩ := List.append_of_mem (hl.1.symm.subset hx)
  obtain ⟨-, hxv, hux⟩ := List.pairwise_append.1 hl.2
  obtain ⟨-, hnodup, hapart⟩ := List.nodup_append.1 (hl.1.symm.nodup hnodup)
  have hmem : ∀ y ∈ u ++ x :: v, y ∈ rows := fun y hy => hl.1.subset hy
  have hbefore : u.length ≤ before le x (u ++ x :: v) := by
    have hall : u.countP (fun y => !le x y) = u.length := by
      rw [List.countP_eq_length]
      intro y hy
      rw [Bool.not_eq_true']
      refine Bool.eq_false_iff.2 fun hxy => hapart y hy x List.mem_cons_self ?_
      exact hanti y (hmem y (List.mem_append_left _ hy)) x hx (hux y hy x List.mem_cons_self) hxy
    rw [before, List.countP_append, hall]
    exact Nat.le_add_right _ _
  have hupTo : upTo le x (u ++ x :: v) ≤ u.length + 1 := by
    have hnone : v.countP (fun y => le y x) = 0 := by
      rw [List.countP_eq_zero]
      intro y hy hyx
      obtain rfl := hanti y (hmem y (List.mem_append_right _ (List.mem_cons_of_mem x hy))) x hx hyx
        ((List.pairwise_cons.1 hxv).1 y hy)
      exact (List.nodup_cons.1 hnodup).1 hy
    have hu : u.countP (fun y => le y x) ≤ u.length := List.countP_le_length
    have hself : (x :: v).countP (fun y => le y x) = 1 := by
      rw [List.countP_cons, hnone, hle.refl x]
      rfl
    rw [upTo, List.countP_append, hself]
    omega
  have hplace := place_le hle hl.2
  rw [before, hl.1.countP_eq, ← before] at hbefore hplace
  rw [upTo, hl.1.countP_eq, ← upTo] at hupTo hplace
  rw [show upTo le x rows - 1 = before le x rows by omega]

/-- Where no ties stand on two pages, two listings have the same rows before a page. -/
theorem take_perm (hle : TotalPreorder le) (hsize : 0 < size) (hfits : Fits le size rows)
    (hl : Listing le rows l)
    (hl' : Listing le rows l') (k : Nat) : (l.take (k * size)).Perm (l'.take (k * size)) := by
  have hperm := hl.1.trans hl'.1.symm
  rcases Nat.lt_or_ge (k * size) l.length with hlt | hge
  · -- the row at the place ties with none before it, so those are the rows strictly before it
    generalize hb : l[k * size] = b
    have hsplit : l = l.take (k * size) ++ b :: l.drop (k * size + 1) := by
      rw [← hb, List.cons_getElem_drop_succ, List.take_append_drop]
    have hlength : (l.take (k * size)).length = k * size := by
      rw [List.length_take, Nat.min_eq_left (le_of_lt hlt)]
    have hsorted := hl.2
    rw [hsplit] at hsorted
    obtain ⟨hbefore, hupTo⟩ := place_le hle hsorted
    rw [← hsplit, hlength] at hbefore hupTo
    rw [before, hl.1.countP_eq] at hbefore
    rw [upTo, hl.1.countP_eq] at hupTo
    have hpage := hfits b (hl.1.subset (hb ▸ List.getElem_mem hlt))
    have hk : k ≤ before le b rows / size := by
      rw [hpage, Nat.le_div_iff_mul_le hsize, upTo]
      omega
    rw [Nat.le_div_iff_mul_le hsize] at hk
    have hcount : before le b rows = k * size := le_antisymm hbefore hk
    have hdown : ∀ x y, le x y = true → (!le b y) = true → (!le b x) = true := by
      intro x y hxy hy
      simp only [Bool.not_eq_true'] at hy ⊢
      exact Bool.eq_false_iff.2 fun hx => Bool.eq_false_iff.1 hy (hle.trans b x y hx hxy)
    have hcut : ∀ {m : List α}, Listing le rows m → m.take (k * size) = m.filter fun y => !le b y := by
      intro m hm
      rw [filter_eq_take hm.2 hdown, hm.1.countP_eq, ← before, hcount]
    rw [hcut hl, hcut hl']
    exact hperm.filter _
  · rw [List.take_of_length_le hge, List.take_of_length_le (hperm.length_eq ▸ hge)]
    exact hperm

/-- Where no ties stand on two pages, a sweep returns every row once. -/
theorem pages_perm (hle : TotalPreorder le) (hsize : 0 < size) (hfits : Fits le size rows)
    {listing : Nat → List α}
    (hlisting : ∀ k, Listing le rows (listing k)) : (pages size listing rows.length).Perm rows := by
  have hpage : ∀ k, (page size (k * size) (listing k)).Perm (page size (k * size) (listing 0)) := by
    intro k
    have hk := take_perm hle hsize hfits (hlisting k) (hlisting 0) k
    have hk' := take_perm hle hsize hfits (hlisting k) (hlisting 0) (k + 1)
    rw [Nat.add_mul, Nat.one_mul, List.take_add, List.take_add] at hk'
    exact (List.perm_append_left_iff _).1 ((hk.symm.append_right _).trans hk')
  have hlength : rows.length = (listing 0).length := (hlisting 0).1.length_eq.symm
  have hsame : (pages size listing rows.length).Perm (pages size (fun _ => listing 0) rows.length) :=
    List.Perm.flatMap_left _ fun k _ => hpage k
  rw [hlength, pages_const hsize] at hsame
  rw [hlength]
  exact hsame.trans (hlisting 0).1

/-! ## Ties on two pages -/

theorem mem_page {offset i : Nat} {a : α} (ha : l[i]? = some a) (hlow : offset ≤ i)
    (hhigh : i < offset + size) :
    a ∈ page size offset l := by
  refine List.mem_of_getElem? (i := i - offset) ?_
  rw [page, List.getElem?_take_of_lt (by omega), List.getElem?_drop, Nat.add_sub_cancel' hlow, ha]

/-- Two pages with a row in common. -/
theorem not_nodup_pages {listing : Nat → List α} {n j k : Nat} {a : α} (hjk : j < k) (hk : k ≤ n / size)
    (hj : a ∈ page size (j * size) (listing j)) (hk' : a ∈ page size (k * size) (listing k)) :
    ¬ (pages size listing n).Nodup := by
  intro hnodup
  have hdisjoint := (List.nodup_flatMap.1 hnodup).2
  have hsymm : Std.Symm (Function.onFun List.Disjoint fun k => page size (k * size) (listing k)) :=
    ⟨fun _ _ h _ ha ha' => h ha' ha⟩
  exact hdisjoint.forall (List.mem_range.2 (by omega : j < n / size + 1))
    (List.mem_range.2 (by omega : k < n / size + 1)) (Nat.ne_of_lt hjk) hj hk'

/-- Rows that tie can be swapped. -/
theorem Listing.swap {u v : List α} {a b : α} (h : Listing le rows (u ++ a :: b :: v)) (hba : le b a = true) :
    Listing le rows (u ++ b :: a :: v) := by
  obtain ⟨hperm, hsorted⟩ := h
  refine ⟨((List.Perm.swap a b v).append_left u).trans hperm, ?_⟩
  obtain ⟨hu, hab, hcross⟩ := List.pairwise_append.1 hsorted
  obtain ⟨ha, hbv⟩ := List.pairwise_cons.1 hab
  obtain ⟨hb, hv⟩ := List.pairwise_cons.1 hbv
  have hba' : (b :: a :: v).Pairwise fun a b => le a b = true := by
    refine List.pairwise_cons.2 ⟨fun y hy => ?_, List.pairwise_cons.2 ⟨fun y hy => ?_, hv⟩⟩
    · rcases List.mem_cons.1 hy with rfl | hy
      · exact hba
      · exact hb y hy
    · exact ha y (List.mem_cons_of_mem b hy)
  refine List.pairwise_append.2 ⟨hu, hba', fun y hy z hz => ?_⟩
  exact hcross y hy z ((List.Perm.swap a b v).subset hz)

/-- The rows on both sides of a place among ties tie. -/
theorem tie_at (hle : TotalPreorder le) {u v : List α} {a b x : α}
    (hsorted : (u ++ a :: b :: v).Pairwise fun a b => le a b = true)
    (hbefore : before le x (u ++ a :: b :: v) < u.length + 1)
    (hupTo : u.length + 1 < upTo le x (u ++ a :: b :: v)) : le b a = true := by
  obtain ⟨-, hab, hcross⟩ := List.pairwise_append.1 hsorted
  obtain ⟨ha, hbv⟩ := List.pairwise_cons.1 hab
  have hbx : le b x = true := by
    by_contra hnot
    have hnone : (b :: v).countP (fun y => le y x) = 0 := by
      rw [List.countP_eq_zero]
      intro y hy hyx
      rcases List.mem_cons.1 hy with rfl | hy
      · exact hnot hyx
      · exact hnot (hle.trans b y x ((List.pairwise_cons.1 hbv).1 y hy) hyx)
    have hhead : (u ++ [a]).countP (fun y => le y x) ≤ (u ++ [a]).length := List.countP_le_length
    rw [upTo, List.append_cons, List.countP_append, hnone] at hupTo
    rw [List.length_append, List.length_singleton] at hhead
    omega
  have hxa : le x a = true := by
    by_contra hnot
    have hall : (u ++ [a]).countP (fun y => !le x y) = (u ++ [a]).length := by
      rw [List.countP_eq_length]
      intro y hy
      rw [Bool.not_eq_true']
      refine Bool.eq_false_iff.2 fun hxy => hnot ?_
      rcases List.mem_append.1 hy with hy | hy
      · exact hle.trans x y a hxy (hcross y hy a List.mem_cons_self)
      · rwa [List.mem_singleton.1 hy] at hxy
    rw [before, List.append_cons, List.countP_append, hall, List.length_append, List.length_singleton]
      at hbefore
    omega
  exact hle.trans b x a hbx hxa

/-- Ties that stand on two pages stand on both sides of a page boundary. -/
theorem exists_tie_at_boundary (hle : TotalPreorder le) (hsize : 0 < size) (hnot : ¬ Fits le size rows) :
    ∃ k u a b v, Listing le rows (u ++ a :: b :: v) ∧ u.length + 1 = (k + 1) * size ∧ le b a = true := by
  obtain ⟨x, hx, hne⟩ : ∃ x ∈ rows, before le x rows / size ≠ (upTo le x rows - 1) / size := by
    simpa only [Fits, not_forall, exists_prop] using hnot
  obtain ⟨l, hl⟩ := exists_listing hle rows
  have hlength := hl.1.length_eq
  obtain ⟨s, t, hst⟩ := List.append_of_mem (hl.1.symm.subset hx)
  have hplace := place_le hle (hst ▸ hl.2)
  rw [← hst, before, upTo, hl.1.countP_eq, hl.1.countP_eq, ← before, ← upTo] at hplace
  have hupTo : upTo le x rows ≤ rows.length := List.countP_le_length
  -- the first boundary after the first of the ties
  have hdiv : before le x rows / size ≤ (upTo le x rows - 1) / size := Nat.div_le_div_right (by omega)
  have hlt := lt_of_le_of_ne hdiv hne
  obtain ⟨k, hk⟩ := Nat.exists_eq_succ_of_ne_zero (Nat.ne_of_gt (Nat.zero_lt_of_lt hlt))
  have hlow : before le x rows < (k + 1) * size := by
    rw [← Nat.div_lt_iff_lt_mul hsize, ← Nat.succ_eq_add_one, ← hk]
    exact hlt
  have hhigh : (k + 1) * size ≤ upTo le x rows - 1 := by
    rw [← Nat.le_div_iff_mul_le hsize, hk]
  obtain ⟨a, b, v, hdrop⟩ : ∃ a b v, l.drop ((k + 1) * size - 1) = a :: b :: v := by
    have hlen : 2 ≤ (l.drop ((k + 1) * size - 1)).length := by
      rw [List.length_drop]
      omega
    match l.drop ((k + 1) * size - 1), hlen with
    | a :: b :: v, _ => exact ⟨a, b, v, rfl⟩
  have hpos : 0 < (k + 1) * size := Nat.mul_pos (Nat.succ_pos k) hsize
  have hhead : (l.take ((k + 1) * size - 1)).length + 1 = (k + 1) * size := by
    rw [List.length_take]
    omega
  have hsplit : l = l.take ((k + 1) * size - 1) ++ a :: b :: v := by rw [← hdrop, List.take_append_drop]
  generalize l.take ((k + 1) * size - 1) = u at hhead hsplit
  subst hsplit
  refine ⟨k, u, a, b, v, hl, hhead, tie_at (x := x) hle hl.2 ?_ ?_⟩
  · rw [before, hl.1.countP_eq, ← before]
    omega
  · rw [upTo, hl.1.countP_eq, ← upTo]
    omega

/-- Where ties stand on two pages, some answers repeat a row. -/
theorem exists_repeating (hle : TotalPreorder le) (hsize : 0 < size) (hnot : ¬ Fits le size rows) :
    ∃ listing : Nat → List α, (∀ k, Listing le rows (listing k)) ∧
      ¬ (pages size listing rows.length).Nodup := by
  obtain ⟨k, u, a, b, v, hl, hu, htie⟩ := exists_tie_at_boundary hle hsize hnot
  have hlength := hl.1.length_eq
  rw [List.length_append, List.length_cons, List.length_cons] at hlength
  rw [Nat.add_mul, Nat.one_mul] at hu
  -- the row before the boundary is the one after it from the next query on
  refine ⟨fun j => if j ≤ k then u ++ a :: b :: v else u ++ b :: a :: v, fun j => ?_, ?_⟩
  · show Listing le rows (if j ≤ k then _ else _)
    by_cases hj : j ≤ k
    · rw [if_pos hj]
      exact hl
    · rw [if_neg hj]
      exact hl.swap htie
  · refine @not_nodup_pages _ _ _ _ k (k + 1) a (by omega) ?_ ?_ ?_
    · rw [Nat.le_div_iff_mul_le hsize, Nat.add_mul, Nat.one_mul]
      omega
    · rw [if_pos (le_refl k)]
      refine @mem_page _ _ _ _ u.length a ?_ (by omega) (by omega)
      rw [List.getElem?_append_right (le_refl _), Nat.sub_self, List.getElem?_cons_zero]
    · rw [if_neg (by omega)]
      refine @mem_page _ _ _ _ (u.length + 1) a ?_ (by rw [Nat.add_mul]; omega) (by rw [Nat.add_mul]; omega)
      rw [List.getElem?_append_right (by omega), Nat.add_sub_cancel_left]
      rfl

end Paging
