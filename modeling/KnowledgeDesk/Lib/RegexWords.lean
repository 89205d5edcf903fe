import KnowledgeDesk.Lib.RegexSub

/-!
# Where `\b` stands in words joined by a separator

In a text made of words with a separator between them, what stands between two boundaries, and begins
inside a word, is a run of whole words, with the separator after it at most.
-/

namespace Regex

variable {isWord : Char → Bool} {sep : Char} {ws : List (List Char)}

/-- Words: not empty, and of word characters. -/
def Words (isWord : Char → Bool) (ws : List (List Char)) : Prop :=
  ∀ w ∈ ws, w ≠ [] ∧ ∀ c ∈ w, isWord c = true

theorem Words.tail {w : List Char} (h : Words isWord (w :: ws)) : Words isWord ws :=
  fun v hv => h v (List.mem_cons_of_mem w hv)

theorem mem_intercalate {c : Char} (h : c ∈ [sep].intercalate ws) : c = sep ∨ ∃ w ∈ ws, c ∈ w := by
  induction ws with
  | nil => cases h
  | cons w ws ih =>
    cases ws with
    | nil => exact .inr ⟨w, List.mem_cons_self, by simpa using h⟩
    | cons w' ws =>
      rw [List.intercalate_cons_cons, List.mem_append, List.mem_append, List.mem_singleton] at h
      rcases h with (h | h) | h
      · exact .inr ⟨w, List.mem_cons_self, h⟩
      · exact .inl h
      · exact (ih h).imp_right fun ⟨x, hx, hc⟩ => ⟨x, List.mem_cons_of_mem w hx, hc⟩

theorem subset_intercalate {w : List Char} (hw : w ∈ ws) : w ⊆ [sep].intercalate ws := by
  induction ws with
  | nil => cases hw
  | cons x ws ih =>
    intro c hc
    cases ws with
    | nil => simpa [← List.mem_singleton.1 hw] using hc
    | cons x' ws =>
      rw [List.intercalate_cons_cons, List.mem_append, List.mem_append]
      rcases List.mem_cons.1 hw with rfl | hw
      · exact .inl (.inl hc)
      · exact .inr (ih hw hc)

theorem intercalate_append {vs : List (List Char)} (hv : vs ≠ []) (hw : ws ≠ []) :
    [sep].intercalate (vs ++ ws) = [sep].intercalate vs ++ sep :: [sep].intercalate ws := by
  induction vs with
  | nil => exact absurd rfl hv
  | cons v vs ih =>
    by_cases hnil : vs = []
    · subst hnil
      rw [List.singleton_append, List.intercalate_cons_of_ne_nil hw, List.intercalate_singleton,
        List.append_assoc]
      rfl
    · rw [List.cons_append, List.intercalate_cons_of_ne_nil (List.append_ne_nil_of_left_ne_nil hnil ws),
        List.intercalate_cons_of_ne_nil hnil, ih hnil, List.append_assoc (v ++ [sep])]

/-- Some of the words stand between separators, or at the ends. -/
theorem around_words {vs us : List (List Char)} (hne : ws ≠ []) :
    ∃ x z, [sep].intercalate (vs ++ ws ++ us) = x ++ [sep].intercalate ws ++ z ∧
      (x = [] ∨ x.getLast? = some sep) ∧ (z = [] ∨ z.head? = some sep) := by
  have hafter : ∃ z, [sep].intercalate (vs ++ ws ++ us) = [sep].intercalate (vs ++ ws) ++ z ∧
      (z = [] ∨ z.head? = some sep) := by
    by_cases hus : us = []
    · exact ⟨[], by simp [hus], .inl rfl⟩
    · refine ⟨sep :: [sep].intercalate us, ?_, .inr rfl⟩
      exact intercalate_append (List.append_ne_nil_of_right_ne_nil vs hne) hus
  obtain ⟨z, hjoin, hz⟩ := hafter
  by_cases hvs : vs = []
  · exact ⟨[], z, by rw [hjoin, hvs]; rfl, .inl rfl, hz⟩
  · refine ⟨[sep].intercalate vs ++ [sep], z, ?_, .inr (by simp), hz⟩
    rw [hjoin, intercalate_append hvs hne, List.append_cons]

/-- Words joined begin with a word character. -/
theorem head_intercalate (hws : Words isWord ws) (hne : ws ≠ []) :
    ∃ c ∈ ([sep].intercalate ws).head?, isWord c = true := by
  obtain ⟨w, ws, rfl⟩ := List.exists_cons_of_ne_nil hne
  obtain ⟨hw, hword⟩ := hws w List.mem_cons_self
  obtain ⟨c, w, rfl⟩ := List.exists_cons_of_ne_nil hw
  refine ⟨c, ?_, hword c List.mem_cons_self⟩
  cases ws with
  | nil => simp
  | cons w' ws => simp [List.intercalate_cons_cons]

/-- Words joined end with a word character. -/
theorem last_intercalate (hws : Words isWord ws) (hne : ws ≠ []) :
    ∃ c ∈ ([sep].intercalate ws).getLast?, isWord c = true := by
  induction ws with
  | nil => exact absurd rfl hne
  | cons w ws ih =>
    cases ws with
    | nil =>
      obtain ⟨hw, hword⟩ := hws w List.mem_cons_self
      refine ⟨w.getLast hw, ?_, hword _ (List.getLast_mem hw)⟩
      rw [List.intercalate_singleton]
      exact List.getLast?_eq_some_getLast hw
    | cons w' ws =>
      obtain ⟨c, hc, hword⟩ := ih hws.tail (List.cons_ne_nil _ _)
      refine ⟨c, ?_, hword⟩
      rw [List.intercalate_cons_cons, List.getLast?_append, Option.mem_def.1 hc]
      rfl

/-- A part that starts where no word goes on starts with one of the words. -/
theorem words_from (hws : Words isWord ws) {u x : List Char} (h : [sep].intercalate ws = u ++ x)
    (hx : x ≠ []) (hu : ∀ c ∈ u.getLast?, isWord c = false) :
    ∃ i < ws.length, x = [sep].intercalate (ws.drop i) := by
  induction ws generalizing u with
  | nil =>
    rw [List.intercalate_nil, eq_comm, List.append_eq_nil_iff] at h
    exact absurd h.2 hx
  | cons w ws ih =>
    by_cases hnil : u = []
    · subst hnil
      exact ⟨0, Nat.succ_pos _, h.symm⟩
    -- the last character of `u` is no character of the first word
    have hlast : u.getLast hnil ∉ w := fun hmem => by
      have hword := (hws w List.mem_cons_self).2 _ hmem
      rw [hu _ (List.getLast?_eq_some_getLast hnil)] at hword
      cases hword
    cases ws with
    | nil =>
      rw [List.intercalate_singleton] at h
      exact absurd (h ▸ List.mem_append_left x (List.getLast_mem hnil)) hlast
    | cons w' ws =>
      rw [List.intercalate_cons_cons, List.append_assoc, List.append_eq_append_iff] at h
      rcases h with ⟨a, rfl, ha⟩ | ⟨a, rfl, -⟩
      · cases a with
        | nil =>
          rw [List.append_nil] at hnil
          exact absurd (by simp) hlast
        | cons c a =>
          rw [List.singleton_append, List.cons_append, List.cons.injEq] at ha
          have ha' : ∀ c ∈ a.getLast?, isWord c = false := fun d hd => hu d (by
            rw [List.getLast?_append, List.getLast?_cons, Option.mem_def.1 hd]
            rfl)
          obtain ⟨i, hi, hx⟩ := ih hws.tail ha.2 ha'
          exact ⟨i + 1, Nat.succ_lt_succ hi, hx⟩
      · exact absurd (List.mem_append_left a (List.getLast_mem hnil)) hlast

/-- A part that stops where no word goes on stops after one of the words, or after the separator
behind it. -/
theorem words_until (hws : Words isWord ws) {w v : List Char} (h : [sep].intercalate ws = w ++ v)
    (hw : w ≠ []) (hend : ∀ c ∈ w.getLast?, ∀ d ∈ v.head?, isWord c ≠ isWord d) :
    ∃ n, 0 < n ∧ n ≤ ws.length ∧
      (w = [sep].intercalate (ws.take n) ∨ w = [sep].intercalate (ws.take n) ++ [sep]) := by
  induction ws generalizing w with
  | nil =>
    rw [List.intercalate_nil, eq_comm, List.append_eq_nil_iff] at h
    exact absurd h.1 hw
  | cons g ws ih =>
    -- the part does not stop inside the first word
    have hinside : ∀ a, g = w ++ a → (∀ d ∈ a.head?, d ∈ v.head?) → a = [] := by
      intro a hg ha
      cases a with
      | nil => rfl
      | cons d a =>
        have hword := (hws g List.mem_cons_self).2
        have hc := hword (w.getLast hw) (hg ▸ List.mem_append_left _ (List.getLast_mem hw))
        have hd := hword d (hg ▸ List.mem_append_right _ List.mem_cons_self)
        exact absurd (hc.trans hd.symm) (hend _ (List.getLast?_eq_some_getLast hw) d (ha d rfl))
    cases ws with
    | nil =>
      rw [List.intercalate_singleton] at h
      have hv := hinside v h fun d hd => hd
      rw [hv, List.append_nil] at h
      exact ⟨1, Nat.one_pos, Nat.le_refl _, .inl (by rw [h]; simp)⟩
    | cons g' ws =>
      rw [List.intercalate_cons_cons, List.append_assoc, List.append_eq_append_iff] at h
      rcases h with ⟨a, rfl, ha⟩ | ⟨a, hg, rfl⟩
      · cases a with
        | nil => exact ⟨1, Nat.one_pos, Nat.succ_le_succ (Nat.zero_le _), .inl (by simp)⟩
        | cons c a =>
          rw [List.singleton_append, List.cons_append, List.cons.injEq] at ha
          obtain ⟨rfl, ha⟩ := ha
          by_cases hnil : a = []
          · subst hnil
            exact ⟨1, Nat.one_pos, Nat.succ_le_succ (Nat.zero_le _), .inr (by simp)⟩
          have hend' : ∀ d ∈ a.getLast?, ∀ e ∈ v.head?, isWord d ≠ isWord e := fun d hd => hend d (by
            rw [List.getLast?_append, List.getLast?_cons, Option.mem_def.1 hd]
            rfl)
          obtain ⟨n, hpos, hn, hcase⟩ := ih hws.tail ha hnil hend'
          have htake : [sep].intercalate ((g :: g' :: ws).take (n + 1)) =
              g ++ sep :: [sep].intercalate ((g' :: ws).take n) := by
            obtain ⟨m, rfl⟩ := Nat.exists_eq_succ_of_ne_zero (Nat.pos_iff_ne_zero.1 hpos)
            rw [List.take_succ_cons, List.take_succ_cons, List.intercalate_cons_cons, List.append_assoc]
            rfl
          refine ⟨n + 1, Nat.succ_pos n, Nat.succ_le_succ hn, hcase.imp (fun h => ?_) fun h => ?_⟩
          · rw [htake, h]
          · rw [htake, h, List.append_assoc, List.cons_append]
      · have ha := hinside a hg fun d hd => by
          rw [List.head?_append, Option.mem_def.1 hd]
          rfl
        subst ha
        exact ⟨1, Nat.one_pos, Nat.succ_le_succ (Nat.zero_le _), .inl (by rw [hg]; simp)⟩

/-- What a pattern between two `\b` matches in such a text, if it does not begin with the separator. -/
theorem Re.Between.words {r : Re} {L : List Char → Prop} (hr : r.Between L (boundary isWord))
    (hL : ∀ w, L w → ∃ c ∈ w.head?, c ≠ sep) (hws : Words isWord ws) {u v : List Char}
    (htext : [sep].intercalate ws = u ++ v) (hmatch : r.ends ⟨u.reverse, v, []⟩ ≠ []) :
    ∃ w i n, L w ∧ i < ws.length ∧ 0 < n ∧ n ≤ ws.length - i ∧
      (w = [sep].intercalate ((ws.drop i).take n) ∨
        w = [sep].intercalate ((ws.drop i).take n) ++ [sep]) := by
  obtain ⟨t, ht⟩ := List.exists_mem_of_ne_nil _ hmatch
  obtain ⟨w, hw, ⟨hv, hbefore⟩, hstart, hstop⟩ := hr.sound ht
  simp only at hv hbefore hstart hstop
  obtain ⟨c, hc, hsep⟩ := hL w hw
  have hne : w ≠ [] := by
    rintro rfl
    cases hc
  have hhead : v.head? = some c := by
    rw [hv, List.head?_append, Option.mem_def.1 hc]
    rfl
  have hword : isWord c = true := by
    have hmem : c ∈ [sep].intercalate ws := by
      rw [htext]
      exact List.mem_append_right u (List.mem_of_mem_head? hhead)
    obtain ⟨g, hg, hcg⟩ := (mem_intercalate hmem).resolve_left hsep
    exact (hws g hg).2 c hcg
  have hu : ∀ d ∈ u.getLast?, isWord d = false := fun d hd => by
    rw [boundary, List.head?_reverse, Option.mem_def.1 hd, hhead] at hstart
    simpa [hword] using hstart
  obtain ⟨i, hi, hrest⟩ := words_from hws htext (fun hnil => by simp [hnil] at hhead) hu
  have hend : ∀ d ∈ w.getLast?, ∀ e ∈ t.after.head?, isWord d ≠ isWord e := fun d hd e he => by
    rw [boundary, hbefore, List.head?_append, List.head?_reverse, Option.mem_def.1 hd,
      Option.mem_def.1 he] at hstop
    simpa using hstop
  have hdrop : Words isWord (ws.drop i) := fun x hx => hws x (List.mem_of_mem_drop hx)
  obtain ⟨n, hpos, hn, hcase⟩ := words_until hdrop (hrest.symm.trans hv) hne hend
  exact ⟨w, i, n, hw, hi, hpos, by rwa [List.length_drop] at hn, hcase⟩

end Regex
