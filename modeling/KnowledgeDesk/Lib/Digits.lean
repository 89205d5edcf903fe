import KnowledgeDesk.Lib.PyText
import Mathlib.Algebra.Group.Nat.Defs

/-!
# Numbers in decimal

`str(n)` and `int(s)`: a number that is written out is read back, and a number that was read is short
enough to be written out and read again.
-/

namespace PyText

theorem isDigit_py {c : Char} (h : c.isDigit = true) : isDigit c = true ∧ isSpace c = false := by
  have hc := Char.isDigit_iff_toNat.1 h
  have h0 : ('0' : Char).toNat = 48 := rfl
  have h9 : ('9' : Char).toNat = 57 := rfl
  constructor
  · rw [isDigit, List.any_eq_true]
    refine ⟨0x30, by decide, ?_⟩
    simp only [Bool.and_eq_true, decide_eq_true_eq]
    omega
  · have hspaces : ∀ n ∈ spaces, n < 48 ∨ 57 < n := by decide
    rw [isSpace, List.contains_eq_mem, decide_eq_false_iff_not]
    intro hmem
    have := hspaces _ hmem
    omega

/-- `str(n)` is not empty, and made of digits. -/
theorem digits_toString (n : Nat) : (toString n).toList ≠ [] ∧ ∀ c ∈ (toString n).toList, isDigit c = true := by
  refine ⟨?_, fun c hc => (isDigit_py (isDigit_toString hc)).1⟩
  rw [Nat.toString_eq_repr, Nat.toList_repr]
  exact Nat.toDigits_ne_nil

/-- Digits up to a character that is none are told apart from what follows. -/
theorem digits_cons_inj {c : Char} (hc : isDigit c = false) {d d' x x' : List Char}
    (hd : ∀ a ∈ d, isDigit a = true) (hd' : ∀ a ∈ d', isDigit a = true) (h : d ++ c :: x = d' ++ c :: x') :
    d = d' ∧ x = x' := by
  have htake : ∀ {d x : List Char}, (∀ a ∈ d, isDigit a = true) → (d ++ c :: x).takeWhile isDigit = d := by
    intro d x hd
    rw [List.takeWhile_append_of_pos hd, List.takeWhile_cons_of_neg (by simp [hc]), List.append_nil]
  have heq : d = d' := (htake hd).symm.trans ((congrArg _ h).trans (htake hd'))
  subst heq
  simpa using h

/-- The digits of a number are read back as the number. -/
theorem intOfDigits_toString (n : Nat) : intOfDigits (toString n).toList = n := by
  have hvalue : ∀ c : Char, c.isDigit = true → digitValue c = c.toNat - '0'.toNat := by
    intro c hc
    have hrange := Char.isDigit_iff_toNat.1 hc
    have h0 : ('0' : Char).toNat = 48 := rfl
    have h9 : ('9' : Char).toNat = 57 := rfl
    have hfind : zeros.find? (fun z => decide (z ≤ c.toNat) && decide (c.toNat < z + 10)) = some 48 := by
      rw [zeros, List.find?_cons_of_pos]
      simp only [Bool.and_eq_true, decide_eq_true_eq]
      omega
    rw [digitValue, hfind, h0]
  have hfold : ∀ (cs : List Char) (k : Nat), (∀ c ∈ cs, c.isDigit = true) →
      cs.foldl (fun n c => 10 * n + digitValue c) k = Nat.ofDigitChars 10 cs k := by
    intro cs
    induction cs with
    | nil => exact fun _ _ => by simp
    | cons c cs ih =>
      intro k hcs
      rw [List.foldl_cons, Nat.ofDigitChars_cons, hvalue c (hcs c List.mem_cons_self),
        ih _ fun d hd => hcs d (List.mem_cons_of_mem c hd)]
  rw [intOfDigits, hfold _ 0 fun c hc => isDigit_toString hc, Nat.toString_eq_repr, Nat.toList_repr,
    Nat.ofDigitChars_toDigits (by decide) (by decide)]

theorem toString_injective {m n : Nat} (h : (toString m).toList = (toString n).toList) : m = n := by
  rw [← intOfDigits_toString m, h, intOfDigits_toString]

theorem digitValue_lt (c : Char) : digitValue c < 10 := by
  rw [digitValue]
  cases h : zeros.find? fun z => z ≤ c.toNat && c.toNat < z + 10 with
  | none => exact Nat.succ_pos 9
  | some z =>
    have hz := List.find?_some h
    simp only [Bool.and_eq_true, decide_eq_true_eq] at hz
    simp only
    omega

theorem intOfDigits_lt (s : List Char) : intOfDigits s < 10 ^ s.length := by
  have hfold : ∀ (s : List Char) (k : Nat),
      s.foldl (fun n c => 10 * n + digitValue c) k < (k + 1) * 10 ^ s.length := by
    intro s
    induction s with
    | nil => intro k; simp
    | cons c s ih =>
      intro k
      have hc := digitValue_lt c
      have hstep : (10 * k + digitValue c + 1) * 10 ^ s.length ≤ (k + 1) * 10 ^ (s.length + 1) := by
        rw [Nat.pow_succ', ← Nat.mul_assoc]
        exact Nat.mul_le_mul_right _ (by omega)
      exact Nat.lt_of_lt_of_le (ih _) hstep
  have h := hfold s 0
  rwa [Nat.zero_add, Nat.one_mul] at h

/-- What was read can be written out and read again. -/
theorem length_toString_intOfDigits {s : List Char} (h : s.length ≤ maxStrDigits) :
    (toString (intOfDigits s)).toList.length ≤ maxStrDigits := by
  have hlt : intOfDigits s < 10 ^ maxStrDigits :=
    Nat.lt_of_lt_of_le (intOfDigits_lt s) (Nat.pow_le_pow_right (by decide) h)
  rw [Nat.toString_eq_repr, String.length_toList]
  exact (Nat.length_repr_le_iff (by decide)).2 hlt

/-- A C `int` can be written out and read again. -/
theorem length_toString_cInt {n : Nat} (h : n < 2 ^ 31) : (toString n).toList.length ≤ maxStrDigits := by
  have hlt : n < 10 ^ 10 := Nat.lt_trans h (by decide)
  rw [Nat.toString_eq_repr, String.length_toList]
  exact Nat.le_trans ((Nat.length_repr_le_iff (by decide)).2 hlt) (by decide)

end PyText
