import KnowledgeDesk.Chunking
import KnowledgeDesk.Lib.Strip

/-!
# The windows of `chunk_text`

The loop examines the windows at the multiples of the step, up to the first one that reaches the end
of the stripped text, and returns the strips that are not empty.
-/

open PyText

namespace KnowledgeDesk.Proofs

variable {env : Env} {s : List Char} {size step : Nat}

/-- The window of a text at `start`. -/
def window (s : List Char) (size start : Nat) : List Char := (s.drop start).take size

/-- The windows the loop of `chunk_text` examines from `start` on, by their starts. -/
def windowStarts (len size step : Nat) : Nat → Nat → List Nat
  | 0, _ => []
  | fuel + 1, start =>
    if len ≤ start then []
    else start :: if len ≤ start + size then [] else windowStarts len size step fuel (start + step)

theorem window_length_le (s : List Char) (size start : Nat) : (window s size start).length ≤ size :=
  List.length_take_le ..

theorem window_isPrefix (s : List Char) (size start : Nat) : window s size start <+: s.drop start :=
  List.take_prefix ..

theorem getElem?_window {p i : Nat} (h : i < size) : (window s size p)[i]? = s[p + i]? := by
  rw [window, List.getElem?_take_of_lt h, List.getElem?_drop]

/-- What the loop returns are the strips of the windows it examines, the empty ones left out. -/
theorem chunkWindows_eq (s : List Char) (size step fuel start : Nat) :
    chunkWindows s size step fuel start =
      ((windowStarts s.length size step fuel start).map fun p => strip (window s size p)).filter
        fun w => !w.isEmpty := by
  induction fuel generalizing start with
  | zero => rfl
  | succ fuel ih =>
    unfold chunkWindows windowStarts
    by_cases hend : s.length ≤ start
    · rw [if_pos hend, if_pos hend]
      rfl
    · rw [if_neg hend, if_neg hend, List.map_cons, List.filter_cons]
      have hrest : (if s.length ≤ start + size then [] else
          chunkWindows s size step fuel (start + step)) =
          ((if s.length ≤ start + size then [] else
            windowStarts s.length size step fuel (start + step)).map
              fun p => strip (window s size p)).filter fun w => !w.isEmpty := by
        by_cases hlast : s.length ≤ start + size
        · rw [if_pos hlast, if_pos hlast]
          rfl
        · rw [if_neg hlast, if_neg hlast, ih]
      show (if (strip (window s size start)).isEmpty = true then _ else strip (window s size start) :: _) = _
      rw [hrest]
      cases (strip (window s size start)).isEmpty <;> rfl

/-- Induction along the loop: past the end, at the window that reaches the end, and before it. -/
theorem windowStarts_induction {len : Nat} {P : Nat → List Nat → Prop} (hstep : 0 < step)
    (past : ∀ start, len ≤ start → P start [])
    (last : ∀ start, start < len → len ≤ start + size → P start [start])
    (next : ∀ fuel start, start + size < len → len ≤ start + step + fuel →
      P (start + step) (windowStarts len size step fuel (start + step)) →
      P start (start :: windowStarts len size step fuel (start + step))) :
    ∀ fuel start, len ≤ start + fuel → P start (windowStarts len size step fuel start) := by
  intro fuel
  induction fuel with
  | zero => exact fun start h => past start h
  | succ fuel ih =>
    intro start hfuel
    unfold windowStarts
    by_cases hend : len ≤ start
    · rw [if_pos hend]
      exact past start hend
    rw [if_neg hend]
    by_cases hlast : len ≤ start + size
    · rw [if_pos hlast]
      exact last start (Nat.lt_of_not_le hend) hlast
    · rw [if_neg hlast]
      exact next fuel start (Nat.lt_of_not_le hlast) (by omega) (ih (start + step) (by omega))

/-- The starts are `start, start + step, ...`, and the last window is the first that reaches the end. -/
theorem windowStarts_eq {len : Nat} (hstep : 0 < step) (hle : step ≤ size) (fuel start : Nat)
    (hstart : start < len) (hfuel : len ≤ start + fuel) : ∃ n,
      windowStarts len size step fuel start = (List.range (n + 1)).map (fun k => start + k * step) ∧
      len ≤ start + n * step + size ∧ ∀ k < n, start + k * step + size < len := by
  refine @windowStarts_induction size step len (fun start starts => start < len → ∃ n,
    starts = (List.range (n + 1)).map (fun k => start + k * step) ∧
      len ≤ start + n * step + size ∧ ∀ k < n, start + k * step + size < len)
    hstep ?_ ?_ ?_ fuel start hfuel hstart
  · intro start hend hlt
    omega
  · intro start _ hlast _
    exact ⟨0, by simp, by omega, fun k hk => absurd hk (Nat.not_lt_zero k)⟩
  · intro fuel start hmore _ ih _
    obtain ⟨n, hn, hend, hbefore⟩ := ih (by omega)
    have hshift : ∀ k, start + step + k * step = start + (k + 1) * step := fun k => by
      rw [Nat.succ_mul]
      omega
    refine ⟨n + 1, ?_, by rw [← hshift]; exact hend, fun k hk => ?_⟩
    · rw [hn, List.range_succ_eq_map (n := n + 1), List.map_cons, List.map_map, Nat.zero_mul, Nat.add_zero]
      congr 1
      exact List.map_congr_left fun k _ => hshift k
    · cases k with
      | zero => omega
      | succ k =>
        rw [← hshift]
        exact hbefore k (by omega)

theorem mem_chunkWindows {fuel start : Nat} {c : List Char} :
    c ∈ chunkWindows s size step fuel start ↔
      ∃ p ∈ windowStarts s.length size step fuel start, strip (window s size p) = c ∧ c ≠ [] := by
  rw [chunkWindows_eq, List.mem_filter, List.mem_map]
  constructor
  · rintro ⟨⟨p, hp, rfl⟩, hne⟩
    exact ⟨p, hp, rfl, by simpa using hne⟩
  · rintro ⟨p, hp, rfl, hne⟩
    exact ⟨⟨p, hp, rfl⟩, by simpa using hne⟩

/-! ## Windows side by side -/

theorem window_append (s : List Char) (a b p : Nat) :
    window s (a + b) p = window s a p ++ window s b (p + a) := by
  rw [window, window, window, List.take_add, List.drop_drop]

theorem drop_eq_window_append (s : List Char) (a p : Nat) :
    s.drop p = window s a p ++ s.drop (p + a) := by
  rw [window, ← List.drop_drop, List.take_append_drop]

theorem window_of_end {p : Nat} (h : s.length ≤ p + size) : window s size p = s.drop p := by
  rw [window, List.take_of_length_le]
  rw [List.length_drop]
  omega

/-! ## Coverage -/

/-- The windows examined over a stripped text `s`. -/
def examined (s : List Char) (size step : Nat) : List Nat := windowStarts s.length size step s.length 0

theorem examined_eq (hstep : 0 < step) (hle : step ≤ size) (hs : s ≠ []) : ∃ n,
    examined s size step = (List.range (n + 1)).map (· * step) ∧
      s.length ≤ n * step + size ∧ ∀ k < n, k * step + size < s.length := by
  obtain ⟨n, hn, hend, hbefore⟩ :=
    windowStarts_eq hstep hle s.length 0 (List.length_pos_iff.2 hs) (by omega)
  refine ⟨n, ?_, by omega, fun k hk => ?_⟩
  · rw [examined, hn]
    exact List.map_congr_left fun k _ => Nat.zero_add _
  · have := hbefore k hk
    omega

/-- Every character lies in a window examined. -/
theorem examined_covers (hstep : 0 < step) (hle : step ≤ size) {j : Nat} (hj : j < s.length) :
    ∃ p ∈ examined s size step, p ≤ j ∧ j < p + size := by
  obtain ⟨n, hn, hend, -⟩ := examined_eq hstep hle (List.ne_nil_of_length_pos (by omega : 0 < s.length))
  rw [hn]
  by_cases hk : j / step ≤ n
  · have hlow : j / step * step ≤ j := Nat.div_mul_le_self j step
    have hhigh : j < j / step * step + step := Nat.lt_div_mul_add hstep
    exact ⟨j / step * step, List.mem_map_of_mem (List.mem_range.2 (by omega)), hlow, by omega⟩
  · have hlow : n * step ≤ j := (Nat.le_div_iff_mul_le hstep).1 (by omega)
    exact ⟨n * step, List.mem_map_of_mem (List.mem_range.2 (by omega)), hlow, by omega⟩

/-- The last window examined is the one that reaches the end of the text. -/
theorem examined_last (hstep : 0 < step) (hle : step ≤ size) {p : Nat} (hp : p ∈ examined s size step) :
    s.length ≤ p + size ↔ (examined s size step).getLast? = some p := by
  have hs : s ≠ [] := by
    rintro rfl
    cases hp
  obtain ⟨n, hn, hend, hbefore⟩ := examined_eq hstep hle hs
  rw [hn] at hp ⊢
  obtain ⟨k, hk, rfl⟩ := List.mem_map.1 hp
  have hlast : ((List.range (n + 1)).map (· * step)).getLast? = some (n * step) := by
    rw [List.range_succ, List.map_append, List.map_singleton, List.getLast?_concat]
  rw [hlast, Option.some_inj, Nat.mul_left_inj (by omega)]
  constructor
  · intro hreach
    by_contra hne
    have := hbefore k (by have := List.mem_range.1 hk; omega)
    omega
  · rintro rfl
    exact hend

theorem examined_increasing (hstep : 0 < step) (hle : step ≤ size) :
    (examined s size step).Pairwise (· ≤ ·) := by
  by_cases hs : s = []
  · subst hs
    exact List.Pairwise.nil
  obtain ⟨n, hn, -, -⟩ := examined_eq hstep hle hs
  rw [hn, List.pairwise_map]
  exact List.pairwise_le_range.imp fun h => Nat.mul_le_mul_right step h

/-- Where the strip of the window at `p` stands in the text. -/
def chunkPlace (s : List Char) (size p : Nat) : Nat := p + leading (window s size p)

theorem strip_window_isPrefix (s : List Char) (size p : Nat) :
    strip (window s size p) <+: s.drop (chunkPlace s size p) := by
  rw [chunkPlace, ← List.drop_drop]
  exact (strip_prefix_drop _).trans (List.IsPrefix.drop (window_isPrefix s size p) _)

/-- A later window has its first character that is not white space no earlier. -/
theorem chunkPlace_mono {p q : Nat} (hpq : p ≤ q) (hq : strip (window s size q) ≠ []) :
    chunkPlace s size p ≤ chunkPlace s size q := by
  by_contra hlt
  rw [chunkPlace, chunkPlace] at hlt
  -- the first such character of the window at `q` would be cut off the window at `p`
  obtain ⟨c, hget, hc⟩ := exists_getElem?_leading (mt strip_eq_nil_iff.2 hq)
  have hin : leading (window s size q) < (window s size q).length := (List.getElem?_eq_some_iff.1 hget).1
  have hlen : (window s size q).length ≤ size := window_length_le s size q
  have hp : leading (window s size p) ≤ size := List.findIdx_le_length.trans (window_length_le s size p)
  rw [getElem?_window (by omega)] at hget
  have hget' : (window s size p)[q + leading (window s size q) - p]? = some c := by
    rw [getElem?_window (by omega), ← hget]
    congr 1
    omega
  rw [isSpace_of_lt_leading (by omega) hget'] at hc
  cases hc

/-- A chunking that covers its text: `starts` are the windows examined, by their starts in the
stripped text. -/
structure Covers (text : List Char) (size : Nat) (starts : List Nat) (chunks : List (List Char)) :
    Prop where
  returned : chunks = (starts.map fun p => strip (window (strip text) size p)).filter fun w => !w.isEmpty
  shape : ∀ c ∈ chunks, c ≠ [] ∧ Trimmed c ∧ c.length ≤ size
  placed : ∃ places : List Nat, List.Forall₂ (fun p c => c <+: text.drop p) places chunks ∧
    places.Pairwise (· ≤ ·)
  covered : ∀ i c, text[i]? = some c → isSpace c = false → ∃ p ∈ starts,
    leading text + p ≤ i ∧ i < leading text + p + size ∧ strip (window (strip text) size p) ∈ chunks
  last : ∀ p ∈ starts, (strip text).length ≤ p + size ↔ starts.getLast? = some p

theorem covers_of_steps (text : List Char) (hstep : 0 < step) (hle : step ≤ size) :
    Covers text size (examined (strip text) size step)
      (chunkWindows (strip text) size step (strip text).length 0) where
  returned := chunkWindows_eq ..
  shape := by
    intro c hc
    obtain ⟨p, -, rfl, hne⟩ := mem_chunkWindows.1 hc
    exact ⟨hne, trimmed_strip _, (length_strip_le _).trans (window_length_le ..)⟩
  placed := by
    have hkept : chunkWindows (strip text) size step (strip text).length 0 =
        ((examined (strip text) size step).filter fun p => !(strip (window (strip text) size p)).isEmpty).map
          fun p => strip (window (strip text) size p) := by
      rw [chunkWindows_eq, List.filter_map]
      rfl
    refine ⟨((examined (strip text) size step).filter fun p =>
      !(strip (window (strip text) size p)).isEmpty).map
        fun p => leading text + chunkPlace (strip text) size p, ?_, ?_⟩
    · rw [hkept, List.forall₂_map_left_iff, List.forall₂_map_right_iff, List.forall₂_same]
      intro p _
      rw [← List.drop_drop]
      exact (strip_window_isPrefix ..).trans (List.IsPrefix.drop (strip_prefix_drop text) _)
    · rw [List.pairwise_map]
      refine ((examined_increasing hstep hle).filter _).imp_of_mem fun _ hq hpq => ?_
      have hne := (List.mem_filter.1 hq).2
      exact Nat.add_le_add_left (chunkPlace_mono hpq (by simpa using hne)) _
  covered := by
    intro i c hget hc
    obtain ⟨hle', hget'⟩ := getElem?_strip hget hc
    obtain ⟨p, hp, hlow, hhigh⟩ := examined_covers hstep hle (List.getElem?_eq_some_iff.1 hget').1
    have hin : c ∈ ink (window (strip text) size p) := by
      refine mem_ink.2 ⟨List.mem_of_getElem? (i := i - leading text - p) ?_, hc⟩
      rw [getElem?_window (by omega), ← hget']
      congr 1
      omega
    refine ⟨p, hp, by omega, by omega, mem_chunkWindows.2 ⟨p, hp, rfl, ?_⟩⟩
    exact mt strip_eq_nil_iff.1 (List.ne_nil_of_mem hin)
  last _ hp := examined_last hstep hle hp

/-- `chunk_text` covers the text. -/
theorem chunkText_covers (env : Env) (text : String) {size overlap : Int} (h0 : 0 ≤ overlap)
    (h : overlap < size) : ∃ chunks, chunkText env text (some size) (some overlap) = .ok chunks ∧
      Covers text.toList size.toNat (examined (strip text.toList) size.toNat (size - overlap).toNat)
        (chunks.map String.toList) := by
  refine ⟨(chunkWindows (strip text.toList) size.toNat (size - overlap).toNat
    (strip text.toList).length 0).map String.ofList, ?_, ?_⟩
  · unfold chunkText
    simp only [Option.getD_some, if_neg (show ¬ size = 0 by omega)]
    rw [if_neg (by omega), if_neg (by omega)]
  · rw [List.map_map]
    have hid : String.toList ∘ String.ofList = id := funext fun _ => String.toList_ofList
    rw [hid, List.map_id]
    exact covers_of_steps text.toList (by omega) (by omega)

/-- Windows of four over nine characters, moved by three: the last one is the third. -/
theorem chunkText_covers_greeting : ∃ chunks,
    chunkText (asciiEnv id) " hi  there " (some 4) (some 1) = .ok chunks ∧
      Covers " hi  there ".toList 4 (examined (strip " hi  there ".toList) 4 3)
        (chunks.map String.toList) :=
  chunkText_covers (asciiEnv id) " hi  there " (by decide) (by decide)

end KnowledgeDesk.Proofs
