import KnowledgeDesk.Lib.RegexSub
import KnowledgeDesk.Proofs.PromptProofs

/-!
# Proofs: `_defuse` settles in one round per pattern

A round of `_defuse` is, on the folded text, a substitution. No marker contains a piece of the grammar or
is a part of one, except that a fence may run across it up to its closing bracket, and such a fence was
there before the marker was. So no later round brings back what an earlier one removed.
-/

namespace KnowledgeDesk.Proofs

open Regex Normalize Providers

/-! ## A round on the folded text -/

/-- The first `n` characters of the text fold to the first `i` of the folded text. -/
def Aligned (text : List Char) (n i : Nat) : Prop := fold (text.take n) = (fold text).take i

theorem foldFrom_at {A : List Char} : ∀ {k i : Nat} {e : Char × Nat}, (foldFrom k A)[i]? = some e →
    ∃ X c Y, A = X ++ c :: Y ∧ isInvisible c = false ∧ (fold X).length = i ∧ e.2 = k + X.length := by
  induction A with
  | nil => exact fun h => absurd h (by simp [foldFrom])
  | cons d A ih =>
    intro k i e h
    rw [foldFrom] at h
    split at h
    · rename_i hd
      obtain ⟨X, c, Y, rfl, hc, hi, he⟩ := ih h
      refine ⟨d :: X, c, Y, rfl, hc, ?_, ?_⟩
      · rw [← hi, fold_eq, fold_eq, List.filter_cons_of_neg (by simp [hd])]
      · rw [he, List.length_cons]
        omega
    · rename_i hd
      cases i with
      | zero =>
        rw [List.getElem?_cons_zero, Option.some.injEq] at h
        exact ⟨[], d, A, rfl, by simpa using hd, rfl, by rw [← h]; rfl⟩
      | succ i =>
        rw [List.getElem?_cons_succ] at h
        obtain ⟨X, c, Y, rfl, hc, hi, he⟩ := ih h
        refine ⟨d :: X, c, Y, rfl, hc, ?_, ?_⟩
        · rw [← hi, fold_eq, fold_eq, List.filter_cons_of_pos (by simpa using hd), List.map_cons,
            List.length_cons]
        · rw [he, List.length_cons]
          omega

/-- Folding is aligned before and after the origin of a folded character. -/
theorem aligned_origin {text : List Char} {i : Nat} (hi : i < (fold text).length) :
    Aligned text ((origin text).getD i 0) i ∧ Aligned text ((origin text).getD i 0 + 1) (i + 1) := by
  have hlen : (foldFrom 0 text).length = (fold text).length := by rw [fold, List.length_map]
  obtain ⟨X, c, Y, hsplit, hc, hX, he⟩ := foldFrom_at (List.getElem?_eq_getElem (hlen ▸ hi))
  have horigin : (origin text).getD i 0 = X.length := by
    rw [List.getD_eq_getElem _ _ (by rwa [length_origin]), ← Nat.zero_add X.length, ← he]
    exact List.getElem_map _
  have hcfold : (fold [c]).length = 1 := by simp [fold_eq, hc]
  have hcons : ∀ Z : List Char, X ++ c :: Z = X ++ [c] ++ Z := by simp
  rw [horigin]
  constructor
  · rw [Aligned, hsplit, List.take_left, fold_append, ← hX, List.take_left]
  · have hXc : (X ++ [c]).length = X.length + 1 := by simp
    have hfold : (fold (X ++ [c])).length = i + 1 := by
      rw [fold_append, List.length_append, hX, hcfold]
    rw [Aligned, hsplit, hcons, ← hXc, List.take_left, fold_append (X ++ [c]), ← hfold, List.take_left]

theorem Aligned.zero (text : List Char) : Aligned text 0 0 := rfl

/-- What stands between two aligned places folds to what stands between them in the folded text. -/
theorem Aligned.slice {text : List Char} {n i a j : Nat} (h : Aligned text n i) (h' : Aligned text a j)
    (hn : n ≤ a) (hi : i ≤ j) :
    fold ((text.drop n).take (a - n)) = ((fold text).drop i).take (j - i) := by
  have htext : text.take a = text.take n ++ (text.drop n).take (a - n) := by
    rw [← List.take_add, Nat.add_sub_cancel' hn]
  have hfold : (fold text).take j = (fold text).take i ++ ((fold text).drop i).take (j - i) := by
    rw [← List.take_add, Nat.add_sub_cancel' hi]
  rw [Aligned, htext, fold_append, h, hfold] at h'
  exact List.append_cancel_left h'

theorem Aligned.drop {text : List Char} {n i : Nat} (h : Aligned text n i) :
    fold (text.drop n) = (fold text).drop i := by
  have hsplit : fold (text.take n) ++ fold (text.drop n) = (fold text).take i ++ (fold text).drop i := by
    rw [← fold_append, List.take_append_drop, List.take_append_drop]
  rw [h] at hsplit
  exact List.append_cancel_left hsplit

/-- A match of the folded text, as it lies in the original. -/
def inOriginal (text : List Char) (m : Match) : Match :=
  ⟨(origin text).getD m.start 0, (origin text).getD (m.stop - 1) 0 + 1, []⟩

/-- Matches in order in the folded text, after its place `i` and the place `n` of the original. -/
structure InOrder (text : List Char) (n i : Nat) (ms : List Match) : Prop where
  aligned : Aligned text n i
  after : ∀ m ∈ ms, i ≤ m.start ∧ n ≤ (inOriginal text m).start
  nonempty : ∀ m ∈ ms, m.start < m.stop ∧ m.stop ≤ (fold text).length
  ordered : ms.Pairwise fun m m' => m.stop ≤ m'.start

theorem inOrder_finditer {pattern : Re} (hp : ¬ pattern.Lang []) (text : List Char) :
    InOrder text 0 0 (finditer pattern (fold text)) := by
  obtain ⟨hin, hord⟩ := @matchesFrom_ordered pattern hp _ 0 [] (fold text) rfl
  refine ⟨Aligned.zero text, fun m _ => ⟨Nat.zero_le _, Nat.zero_le _⟩, fun m hm => ?_, hord⟩
  have := hin m hm
  omega

theorem substitute_cons {marker text : List Char} {n : Nat} {m : Match} {ms : List Match}
    (hn : n ≤ m.stop) : substitute marker (m :: ms) n (text.drop n) =
      (text.drop n).take (m.start - n) ++ marker ++ substitute marker ms m.stop (text.drop m.stop) := by
  rw [substitute, List.drop_drop, Nat.add_sub_cancel' hn]

/-- The next match cuts the rest of the original into what is kept, what is replaced, and what follows. -/
theorem InOrder.next {text : List Char} {n i : Nat} {m : Match} {ms : List Match}
    (h : InOrder text n i (m :: ms)) : ∃ kept part,
      text.drop n = kept ++ (part ++ text.drop (inOriginal text m).stop) ∧
      (∀ marker, substitute marker ((m :: ms).map (inOriginal text)) n (text.drop n) = kept ++ (marker ++
        substitute marker (ms.map (inOriginal text)) (inOriginal text m).stop
          (text.drop (inOriginal text m).stop))) ∧
      fold kept = ((fold text).drop i).take (m.start - i) ∧
      fold part = ((fold text).drop m.start).take (m.stop - m.start) ∧
      InOrder text (inOriginal text m).stop m.stop ms := by
  obtain ⟨hi, hn⟩ := h.after m List.mem_cons_self
  obtain ⟨hlt, hle⟩ := h.nonempty m List.mem_cons_self
  obtain ⟨hlater, hord⟩ := List.pairwise_cons.1 h.ordered
  have hstart : Aligned text (inOriginal text m).start m.start := (aligned_origin (by omega)).1
  have hstop : Aligned text (inOriginal text m).stop m.stop := by
    have := (@aligned_origin text (m.stop - 1) (by omega)).2
    rwa [Nat.sub_add_cancel (by omega)] at this
  have hab : (inOriginal text m).start ≤ (inOriginal text m).stop :=
    Nat.le_succ_of_le (origin_getD_le (by omega) (by omega))
  refine ⟨_, (text.drop (inOriginal text m).start).take ((inOriginal text m).stop - (inOriginal text m).start),
    ?_, fun marker => ?_, h.aligned.slice hstart hn hi, hstart.slice hstop hab hlt.le, hstop,
    fun m' hm' => ⟨hlater m' hm', ?_⟩, fun m' hm' => h.nonempty m' (List.mem_cons_of_mem m hm'), hord⟩
  · have hdrop : ∀ {a b : Nat}, a ≤ b → text.drop b = (text.drop a).drop (b - a) := fun {a b} hab => by
      rw [List.drop_drop, Nat.add_sub_cancel' hab]
    rw [hdrop hab, List.take_append_drop, hdrop hn, List.take_append_drop]
  · rw [List.map_cons, substitute_cons (le_trans hn hab), List.append_assoc]
  · have hm := hlater m' hm'
    obtain ⟨hlt', hle'⟩ := h.nonempty m' (List.mem_cons_of_mem m hm')
    exact origin_getD_lt (by omega) (by omega)

/-- Replacing from the right is substituting from the left. -/
theorem foldr_eq_substitute {text marker : List Char} {ms : List Match} (h : Ordered (spans ms))
    (hend : ∀ p ∈ spans ms, p.2 ≤ text.length) {n : Nat} (hn : ∀ p ∈ spans ms, n ≤ p.1) :
    ((spans ms).foldr (fun p t => t.take p.1 ++ marker ++ t.drop p.2) text).drop n =
      substitute marker ms n (text.drop n) := by
  induction ms generalizing n with
  | nil => rfl
  | cons m ms ih =>
    have hspans : spans (m :: ms) = (m.start, m.stop) :: spans ms := rfl
    rw [hspans] at h hend hn ⊢
    obtain ⟨hlater, hord⟩ := List.pairwise_cons.1 h.2
    have hrest : Ordered (spans ms) := ⟨fun p hp => h.1 p (List.mem_cons_of_mem _ hp), hord⟩
    have hend' : ∀ p ∈ spans ms, p.2 ≤ text.length := fun p hp => hend p (List.mem_cons_of_mem _ hp)
    have hlt := h.1 _ List.mem_cons_self
    have hle := hend _ List.mem_cons_self
    have hnm := hn _ List.mem_cons_self
    dsimp only at hlt hle hnm
    have hkept := @take_replaced text marker (spans ms) hrest hend' m.start fun p hp =>
      le_trans hlt.le (hlater p hp)
    rw [List.foldr_cons, hkept, List.append_assoc,
      List.drop_append_of_le_length (by rw [List.length_take]; omega), List.drop_take,
      ih hrest hend' hlater, substitute_cons (by omega), List.append_assoc]

/-- A round of `_defuse`, from the left. -/
theorem defusePattern_eq {pattern : Re} (hp : ¬ pattern.Lang []) (marker text : List Char) :
    (defusePattern pattern marker text).1 =
      substitute marker ((finditer pattern (fold text)).map (inOriginal text)) 0 text := by
  have hspans : replacedSpans pattern text = spans ((finditer pattern (fold text)).map (inOriginal text)) := by
    rw [replacedSpans, spans, List.map_map]
    refine List.map_congr_left fun m hm => ?_
    obtain ⟨-, hlt, hle⟩ := (matchesFrom_ordered hp rfl).1 m hm
    rw [Nat.zero_add] at hle
    exact originalSpan_eq hlt hle
  have hord := replacedSpans_ordered hp text
  have hend : ∀ p ∈ replacedSpans pattern text, p.2 ≤ text.length := fun p h => replacedSpans_end hp h
  rw [defusePattern_fst, replaceFolded_ordered hord]
  rw [hspans] at hord hend ⊢
  exact foldr_eq_substitute hord hend (n := 0) fun _ _ => Nat.zero_le _

theorem fold_substitute {marker text : List Char} (hm : fold marker = marker) {ms : List Match} :
    ∀ {n i : Nat}, InOrder text n i ms →
      fold (substitute marker (ms.map (inOriginal text)) n (text.drop n)) =
        substitute marker ms i ((fold text).drop i) := by
  induction ms with
  | nil => exact fun h => h.aligned.drop
  | cons m ms ih =>
    intro n i h
    obtain ⟨kept, part, -, hsub, hfold, -, hrest⟩ := h.next
    have hi := (h.after m List.mem_cons_self).1
    have hlt := (h.nonempty m List.mem_cons_self).1
    rw [hsub, substitute_cons (by omega), fold_append, fold_append, hfold, hm, ih hrest, List.append_assoc]

/-- A round of `_defuse` is a substitution in the folded text. -/
theorem fold_defusePattern {pattern : Re} (hp : ¬ pattern.Lang []) {marker : List Char}
    (hm : fold marker = marker) (text : List Char) :
    fold (defusePattern pattern marker text).1 = sub pattern marker (fold text) := by
  rw [defusePattern_eq hp]
  exact fold_substitute hm (inOrder_finditer hp text)

/-! ## What is replaced -/

/-- `out` is `text` with `k` disjoint parts replaced by the marker, each of which the pattern matches when
folded; every other character is kept in place. -/
inductive Replaced (pattern : Re) (marker : List Char) : Nat → List Char → List Char → Prop
  | rest (text : List Char) : Replaced pattern marker 0 text text
  | part (kept part : List Char) {k : Nat} {text out : List Char} (hpart : pattern.Lang (fold part))
      (h : Replaced pattern marker k text out) :
      Replaced pattern marker (k + 1) (kept ++ (part ++ text)) (kept ++ (marker ++ out))

/-- One rule after the other, each on the text the one before left: `k` replacements in all. -/
def InTurn : List (Re × List Char) → Nat → List Char → List Char → Prop
  | [], k, text, out => k = 0 ∧ out = text
  | rule :: rules, k, text, out => ∃ i j mid, Replaced rule.1 rule.2 i text mid ∧ InTurn rules j mid out ∧
      k = i + j

theorem replaced_substitute {pattern : Re} {marker text : List Char} {ms : List Match}
    (hlang : ∀ m ∈ ms, pattern.Lang (((fold text).drop m.start).take (m.stop - m.start))) :
    ∀ {n i : Nat}, InOrder text n i ms → Replaced pattern marker ms.length (text.drop n)
      (substitute marker (ms.map (inOriginal text)) n (text.drop n)) := by
  induction ms with
  | nil => exact fun {n i} _ => .rest (text.drop n)
  | cons m ms ih =>
    intro n i h
    obtain ⟨kept, part, htext, hsub, -, hpart, hrest⟩ := h.next
    have hrec := ih (fun m' hm' => hlang m' (List.mem_cons_of_mem m hm')) hrest
    rw [hsub, htext]
    exact .part kept part (hpart ▸ hlang m List.mem_cons_self) hrec

theorem defusePattern_snd (pattern : Re) (marker text : List Char) :
    (defusePattern pattern marker text).2 = (finditer pattern (fold text)).length := by
  rw [defusePattern]
  split
  · rename_i h
    rw [List.isEmpty_iff, List.map_eq_nil_iff] at h
    rw [h, List.length_nil]
  · exact List.length_map _

/-- A round of `_defuse` replaces as many parts as it counts. -/
theorem replaced_defusePattern {pattern : Re} (hp : ¬ pattern.Lang []) (marker text : List Char) :
    Replaced pattern marker (defusePattern pattern marker text).2 text
      (defusePattern pattern marker text).1 := by
  rw [defusePattern_eq hp, defusePattern_snd]
  refine replaced_substitute (fun m hm => ?_) (inOrder_finditer hp text)
  obtain ⟨u, w, rest, hsplit, hw, hstart, hstop⟩ := match_sound hp hm
  rw [hsplit, hstart, hstop, hstart, Nat.zero_add, List.drop_left, Nat.add_sub_cancel_left, List.take_left]
  exact hw

theorem Replaced.eq_of_zero {pattern : Re} {marker text out : List Char}
    (h : Replaced pattern marker 0 text out) : out = text := by
  cases h
  rfl

theorem InTurn.eq_of_zero {rules : List (Re × List Char)} : ∀ {text out : List Char},
    InTurn rules 0 text out → out = text := by
  induction rules with
  | nil => exact fun h => h.2
  | cons rule rules ih =>
    rintro text out ⟨i, j, mid, hfirst, hrest, hk⟩
    obtain ⟨rfl, rfl⟩ : i = 0 ∧ j = 0 := by omega
    exact (ih hrest).trans hfirst.eq_of_zero

/-- The rounds of `_defuse` for these rules. -/
def rounds (rules : List (Re × List Char)) (acc : List Char × Nat) : List Char × Nat :=
  rules.foldl (fun acc rule =>
    let (text, n) := defusePattern rule.1 rule.2 acc.1
    (text, acc.2 + n)) acc

theorem rounds_cons (rule : Re × List Char) (rules : List (Re × List Char)) (acc : List Char × Nat) :
    rounds (rule :: rules) acc = rounds rules ((defusePattern rule.1 rule.2 acc.1).1,
      acc.2 + (defusePattern rule.1 rule.2 acc.1).2) := rfl

theorem rounds_inTurn {rules : List (Re × List Char)} (hrules : ∀ rule ∈ rules, ¬ rule.1.Lang []) :
    ∀ acc, ∃ k, (rounds rules acc).2 = acc.2 + k ∧ InTurn rules k acc.1 (rounds rules acc).1 := by
  induction rules with
  | nil => exact fun acc => ⟨0, rfl, rfl, rfl⟩
  | cons rule rules ih =>
    intro acc
    have hfirst := replaced_defusePattern (hrules rule List.mem_cons_self) rule.2 acc.1
    obtain ⟨j, hj, hrest⟩ := ih (fun r hr => hrules r (List.mem_cons_of_mem rule hr))
      ((defusePattern rule.1 rule.2 acc.1).1, acc.2 + (defusePattern rule.1 rule.2 acc.1).2)
    rw [rounds_cons, hj]
    exact ⟨_, Nat.add_assoc _ _ _, _, j, _, hfirst, hrest, rfl⟩

/-- Where no rule matches, nothing is replaced. -/
theorem rounds_of_unmatched {rules : List (Re × List Char)} {text : List Char}
    (h : ∀ rule ∈ rules, Regex.search rule.1 (fold text) = false) (k : Nat) : rounds rules (text, k) = (text, k) := by
  induction rules with
  | nil => rfl
  | cons rule rules ih =>
    have hnil : finditer rule.1 (fold text) = [] := by
      simpa [Regex.search] using h rule List.mem_cons_self
    have hround : defusePattern rule.1 rule.2 text = (text, 0) := by
      rw [defusePattern, hnil]
      rfl
    rw [rounds_cons, hround]
    exact ih fun r hr => h r (List.mem_cons_of_mem rule hr)

/-! ## The grammar and its markers -/

theorem litIgnoreCase_only {s : String} {d : Char} (h : ∀ c ∈ s.toList, sameLetter c d = false) :
    (litIgnoreCase s).Only (· ≠ d) := by
  refine Re.Only.seqs fun r hr => ?_
  obtain ⟨c, hc, rfl⟩ := List.mem_map.1 hr
  rintro e he rfl
  rw [h c hc] at he
  cases he

/-- A character class without the character `d`. -/
theorem class_only {p : Char → Bool} {d : Char} (h : p d = false) : (Re.char p).Only (· ≠ d) := by
  rintro c hc rfl
  rw [h] at hc
  cases hc

theorem fenceHead_only : fenceHead.Only (· ≠ '[') :=
  ⟨class_only (by decide), class_only (by decide), class_only (by decide), class_only (by decide),
    ⟨litIgnoreCase_only (by simp [sameLetter]), class_only (by decide)⟩,
    litIgnoreCase_only (by simp [sameLetter]), class_only (by decide), litIgnoreCase_only (by simp [sameLetter])⟩

/-- A fence that runs across a marker was there before: its head stands before the marker, and its
closing bracket is not of the marker. -/
theorem fence_walled {r : Re} (hr : ¬ r.Lang []) {m : List Char} (hopen : m.head? = some '[')
    (hlt : '<' ∉ m) (hgt : '>' ∉ m) : fenceMarker.Walled r m fun _ _ => true where
  kept {pos before before' after} _ _ hne := by
    obtain ⟨h, x, hh, hx, hclose⟩ := fenceMarker_at.1 ((ends_ne_nil_iff fenceMarker_plain).1 hne)
    obtain ⟨rest, rfl, hrest⟩ := prefix_of_subFrom hr hopen (fun ho => fenceHead_only.lang hh _ ho rfl) hx
    have hin : '>' ∈ rest := (mem_subFrom hr rfl (hrest ▸ hclose)).resolve_left hgt
    exact (ends_ne_nil_iff fenceMarker_plain).2 (fenceMarker_at.2 ⟨h, rest, hh, rfl, hin⟩)
  inside {u y before rest} hrepl hy := by
    by_contra hne
    obtain ⟨w, hw, hpre⟩ := (ends_ne_nil_iff fenceMarker_plain).1 hne
    have hout : StartsOutside fenceMarker.Lang m :=
      startsOutside_of_head fun w hw => ⟨'<', fenceMarker_head hw, hlt⟩
    exact hout w hw y rest hy ⟨u, hrepl.symm⟩ hpre
  next _ _ _ _ := rfl

/-- No label starts inside a marker, nor reaches into one. -/
theorem label_walled {r : Re} (hr : ¬ r.Lang []) {e : Char} {m : List Char} (hm : '[' ∉ e :: m)
    (he : PyText.isSpace e = false ∧ PyText.isDigit e = false) :
    citationLabel.Walled r ('[' :: e :: m) fun _ _ => true := by
  have hshape : ∀ w, citationLabel.Lang w → ∃ f t, w = '[' :: f :: t ∧ f ≠ e ∧ '[' ∉ f :: t := by
    intro w hw
    obtain ⟨a, d, b, ha, hd, hb, hlo, -, rfl⟩ := citationLabel_lang.1 hw
    have hopen : '[' ∉ a ++ (d ++ (b ++ [']'])) := by
      simp only [List.mem_append, List.mem_singleton, not_or]
      exact ⟨fun h => absurd (ha _ h) (by decide), fun h => absurd (hd _ h) (by decide),
        fun h => absurd (hb _ h) (by decide), by decide⟩
    -- after the bracket comes white space or a digit
    obtain ⟨f, t, hft, hf⟩ : ∃ f t, a ++ (d ++ (b ++ [']'])) = f :: t ∧ f ≠ e := by
      cases a with
      | nil =>
        obtain ⟨f, d, rfl⟩ := List.exists_cons_of_length_pos hlo
        refine ⟨f, _, rfl, ?_⟩
        rintro rfl
        exact absurd (hd f List.mem_cons_self) (by rw [he.2]; decide)
      | cons f a =>
        refine ⟨f, _, rfl, ?_⟩
        rintro rfl
        exact absurd (ha f List.mem_cons_self) (by rw [he.1]; decide)
    rw [hft] at hopen ⊢
    exact ⟨f, t, rfl, hf, hopen⟩
  refine citationLabel_plain.anchored.walled (o := '[') hr rfl (List.getLast?_eq_some_getLast (by simp))
    (fun w hw => ?_) (fun w hw y rest hy hsuffix hpre => ?_) fun _ _ _ => rfl
  · obtain ⟨f, t, rfl, -, ht⟩ := hshape w hw
    exact ⟨by simp, ht⟩
  · obtain ⟨f, t, rfl, hf, -⟩ := hshape w hw
    obtain ⟨g, y, rfl⟩ := List.exists_cons_of_ne_nil hy
    obtain ⟨z, hz⟩ := hpre
    obtain ⟨rfl, htail⟩ := List.cons.inj hz
    rcases List.suffix_cons_iff.1 hsuffix with heq | hsuffix
    · obtain ⟨-, rfl⟩ := List.cons.inj heq
      exact hf (List.cons.inj htail).1
    · exact hm (hsuffix.mem List.mem_cons_self)

theorem pathLine_anchored : pathLine.Anchored
    (seqs [star space, litIgnoreCase "path", star space, .char (· == ':')]).Lang
    fun b _ => b.all (· == '\n') := by
  exact anchored_lineStart (by simp) ⟨char_plain _, litIgnoreCase_plain _, char_plain _, trivial⟩

/-- After a marker no line starts, and a path line has a colon and no brackets. -/
theorem path_walled {r : Re} (hr : ¬ r.Lang []) {m : List Char} (hopen : m.head? = some '[')
    (hclose : m.getLast? = some ']') (hcolon : ':' ∉ m) :
    pathLine.Walled r m fun b _ => b.all (· == '\n') := by
  have honly : ∀ d : Char, PyText.isSpace d = false → (∀ c ∈ "path".toList, sameLetter c d = false) →
      (d == ':') = false → (seqs [star space, litIgnoreCase "path", star space,
        .char (· == ':')]).Only (· ≠ d) := fun d hspace hpath hcolon =>
    ⟨class_only hspace, litIgnoreCase_only hpath, class_only hspace, class_only hcolon⟩
  have hhas : (seqs [star space, litIgnoreCase "path", star space, .char (· == ':')]).Has (· = ':') :=
    .inr (.inr (.inr fun c hc => by simpa using hc))
  refine pathLine_anchored.walled hr hopen hclose (fun w hw => ?_) (startsOutside_of_last hclose fun w hw => ?_)
    fun b a h => absurd h (by simp)
  · obtain ⟨d, hd, -⟩ := hhas.lang hw
    exact ⟨List.ne_nil_of_mem hd, fun ho =>
      (honly '[' (by decide) (by simp [sameLetter]) (by decide)).lang hw _ (List.mem_of_mem_tail ho) rfl⟩
  · obtain ⟨d, hd, rfl⟩ := hhas.lang hw
    exact ⟨fun hc => (honly ']' (by decide) (by simp [sameLetter]) (by decide)).lang hw _ hc rfl, _, hd, hcolon⟩

theorem grammar_not_nil : ∀ rule ∈ GRAMMAR, ¬ rule.1.Lang [] := by
  simp [GRAMMAR, fenceMarker_not_nil, citationLabel_not_nil, pathLine_not_nil]

/-- No pattern of the grammar matches a defused text. -/
theorem search_neutralize {rule : Re × List Char} (hrule : rule ∈ GRAMMAR) (text : List Char) :
    Regex.search rule.1 (fold (neutralize text)) = false := by
  rw [neutralize_eq, fold_defusePattern pathLine_not_nil (fold_ascii (by simp)),
    fold_defusePattern citationLabel_not_nil (fold_ascii (by simp)),
    fold_defusePattern fenceMarker_not_nil (fold_ascii (by simp))]
  have hlabel : "[citation removed]".toList = '[' :: 'c' :: "itation removed]".toList := by simp
  have hpath : "[path line removed]".toList = '[' :: 'p' :: "ath line removed]".toList := by simp
  simp only [GRAMMAR, List.mem_cons, List.not_mem_nil, or_false] at hrule
  rcases hrule with rfl | rfl | rfl
  · -- a fence: gone after the first round, and the later ones make none
    refine (fence_walled pathLine_not_nil (by simp) (by simp) (by simp)).search_sub pathLine_not_nil
      fenceMarker_not_nil (.inr ?_)
    refine (fence_walled citationLabel_not_nil (by simp) (by simp) (by simp)).search_sub
      citationLabel_not_nil fenceMarker_not_nil (.inr ?_)
    exact (fence_walled fenceMarker_not_nil (by simp) (by simp) (by simp)).search_sub fenceMarker_not_nil
      fenceMarker_not_nil (.inl rfl)
  · rw [hpath, hlabel]
    refine (label_walled pathLine_not_nil (by simp) (by decide)).search_sub pathLine_not_nil
      citationLabel_not_nil (.inr ?_)
    exact (label_walled citationLabel_not_nil (by simp) (by decide)).search_sub citationLabel_not_nil
      citationLabel_not_nil (.inl rfl)
  · exact (path_walled pathLine_not_nil (by simp) (by simp) (by simp)).search_sub pathLine_not_nil
      pathLine_not_nil (.inl rfl)

/-- Defusing is complete, has nothing left to do afterwards, and changes nothing but the parts it counts,
one pattern after the other. -/
theorem defuse_settles (text : List Char) :
    (∀ rule ∈ GRAMMAR, Regex.search rule.1 (fold (defuse text).1) = false) ∧
    defuse (defuse text).1 = ((defuse text).1, 0) ∧
    InTurn GRAMMAR (defuse text).2 text (defuse text).1 ∧
    ((defuse text).2 = 0 → (defuse text).1 = text) := by
  have hclean : ∀ rule ∈ GRAMMAR, Regex.search rule.1 (fold (defuse text).1) = false :=
    fun rule hrule => search_neutralize hrule text
  obtain ⟨k, hk, hturn⟩ := rounds_inTurn grammar_not_nil (text, 0)
  have hcount : (defuse text).2 = k := hk.trans (Nat.zero_add k)
  have hfaithful : InTurn GRAMMAR (defuse text).2 text (defuse text).1 := hcount ▸ hturn
  refine ⟨hclean, rounds_of_unmatched hclean 0, hfaithful, fun h0 => ?_⟩
  rw [h0] at hfaithful
  exact hfaithful.eq_of_zero

end KnowledgeDesk.Proofs
