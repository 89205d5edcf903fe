import Mathlib.Data.Int.Basic
import Mathlib.Algebra.Order.Group.Int

/-!
# The civil calendar

Days since 1970-01-01 and the proleptic Gregorian calendar, in UTC, as `date_trunc` and `current_date`
use it. The months follow each other: the first day of a month never moves back (`monthStart_mono`).
-/

namespace Calendar

/-- The year (starting in March) and the day in it of a day number. -/
def marchYear (day : Int) : Int × Int :=
  let z := day + 719468
  let era := z / 146097
  let dayOfEra := z - era * 146097
  let year := (dayOfEra - dayOfEra / 1460 + dayOfEra / 36524 - dayOfEra / 146096) / 365
  (era * 400 + year, dayOfEra - (365 * year + year / 4 - year / 100))

/-- The first day of the month a day number falls in. -/
def monthStart (day : Int) : Int :=
  let dayOfYear := (marchYear day).2
  let month := (5 * dayOfYear + 2) / 153
  day - (dayOfYear - (153 * month + 2) / 5)

example : (List.map monthStart [0, 30, 31, 58, 59, 11016, 11017, 20000]) =
    [0, 0, 31, 31, 59, 10988, 11017, 19997] := by decide

/-- The day is the day `s` of the year `p` of the four years `b` of the century `c` of the era `e`. -/
structure DayOfEra (d e c b p s : Int) : Prop where
  day : d + 719468 = e * 146097 + c * 36524 + b * 1461 + p * 365 + s
  century : 0 ≤ c ∧ c ≤ 3
  fourYears : 0 ≤ b ∧ b ≤ 24
  year : 0 ≤ p ∧ p ≤ 3
  dayOfYear : 0 ≤ s
  /-- Only a leap year has a day 365, which is its last. -/
  last : s ≤ 364 ∨ (s = 365 ∧ p = 3 ∧ (b ≤ 23 ∨ c = 3))

theorem exists_dayOfEra (d : Int) : ∃ e c b p s, DayOfEra d e c b p s := by
  have hdiv := Int.mul_ediv_add_emod (d + 719468) 146097
  have h0 := Int.emod_nonneg (d + 719468) (by decide : (146097 : Int) ≠ 0)
  have h1 := Int.emod_lt_of_pos (d + 719468) (by decide : (0 : Int) < 146097)
  generalize (d + 719468) / 146097 = e at hdiv
  generalize (d + 719468) % 146097 = r at hdiv h0 h1
  let c := min (r / 36524) 3
  let b := (r - c * 36524) / 1461
  let p := min ((r - c * 36524 - b * 1461) / 365) 3
  refine ⟨e, c, b, p, r - c * 36524 - b * 1461 - p * 365, ?_, ?_, ?_, ?_, ?_, ?_⟩ <;> omega

/-- The day `r` of an era has behind it the leap days of `4 * b + p` years of the century `c`. -/
theorem yearOfEra_eq {r c b p s : Int} (hr : r = c * 36524 + b * 1461 + p * 365 + s) (hc : 0 ≤ c ∧ c ≤ 3)
    (hb : 0 ≤ b ∧ b ≤ 24) (hp : 0 ≤ p ∧ p ≤ 3) (hs : 0 ≤ s)
    (hlast : s ≤ 364 ∨ (s = 365 ∧ p = 3 ∧ (b ≤ 23 ∨ c = 3))) :
    (r - r / 1460 + r / 36524 - r / 146096) / 365 = 100 * c + 4 * b + p := by
  have hcenturies : r / 36524 - r / 146096 = c := by
    by_cases hend : r = 146096
    · subst hend
      omega
    · have h1 : r / 146096 = 0 := Int.ediv_eq_zero_of_lt (by omega) (by omega)
      have h2 : r / 36524 = c := by
        rw [hr, add_assoc, add_assoc, Int.add_comm, Int.add_mul_ediv_right _ _ (by decide)]
        rw [Int.ediv_eq_zero_of_lt (by omega) (by omega), zero_add]
      rw [h1, h2, sub_zero]
  have hyear : r - r / 1460 + r / 36524 - r / 146096 = r - r / 1460 + c := by omega
  have hsplit : r = (24 * c + b + 365 * p + s) + (25 * c + b) * 1460 := by omega
  have hdiv : r / 1460 = (24 * c + b + 365 * p + s) / 1460 + (25 * c + b) := by
    conv_lhs => rw [hsplit]
    exact Int.add_mul_ediv_right _ _ (by decide)
  rw [hyear, hdiv]
  by_cases hleap : 24 * c + b + 365 * p + s < 1460
  · rw [Int.ediv_eq_zero_of_lt (by omega) hleap]
    omega
  · have hone : (24 * c + b + 365 * p + s) / 1460 = 1 := by omega
    rw [hone]
    omega

theorem DayOfEra.marchYear {d e c b p s : Int} (h : DayOfEra d e c b p s) :
    marchYear d = (e * 400 + 100 * c + 4 * b + p, s) := by
  obtain ⟨hday, hc, hb, hp, hs, hlast⟩ := h
  have hera : (d + 719468) / 146097 = e := by omega
  have hyear := yearOfEra_eq (r := d + 719468 - e * 146097) (by omega) hc hb hp hs hlast
  have h4 : (100 * c + 4 * b + p) / 4 = 25 * c + b := by omega
  have h100 : (100 * c + 4 * b + p) / 100 = c := by omega
  simp only [Calendar.marchYear, hera, hyear, h4, h100, Prod.mk.injEq]
  clear hera hyear h4 h100
  constructor <;> omega

/-- The day after a day is the next day of its year, or the first of the next year. -/
theorem marchYear_succ (d : Int) : marchYear (d + 1) = ((marchYear d).1, (marchYear d).2 + 1) ∨
    marchYear (d + 1) = ((marchYear d).1 + 1, 0) := by
  obtain ⟨e, c, b, p, s, h⟩ := exists_dayOfEra d
  have hd := h.marchYear
  obtain ⟨hday, hc, hb, hp, hs, hlast⟩ := h
  by_cases hnext : s ≤ 363 ∨ (s = 364 ∧ p = 3 ∧ (b ≤ 23 ∨ c = 3))
  · have h' : DayOfEra (d + 1) e c b p (s + 1) := ⟨by omega, hc, hb, hp, by omega, by omega⟩
    exact .inl (by rw [h'.marchYear, hd])
  refine .inr ?_
  by_cases hyear : p ≤ 2
  · have h' : DayOfEra (d + 1) e c b (p + 1) 0 := ⟨by omega, hc, hb, by omega, by omega, by omega⟩
    rw [h'.marchYear, hd]
    exact Prod.ext (by dsimp only; omega) rfl
  obtain rfl : p = 3 := by omega
  by_cases hcycle : b ≤ 23
  · have h' : DayOfEra (d + 1) e c (b + 1) 0 0 := ⟨by omega, hc, by omega, by omega, by omega, by omega⟩
    rw [h'.marchYear, hd]
    exact Prod.ext (by dsimp only; omega) rfl
  obtain rfl : b = 24 := by omega
  by_cases hcentury : c ≤ 2
  · have h' : DayOfEra (d + 1) e (c + 1) 0 0 0 := ⟨by omega, by omega, by omega, by omega, by omega, by omega⟩
    rw [h'.marchYear, hd]
    exact Prod.ext (by dsimp only; omega) rfl
  · obtain rfl : c = 3 := by omega
    have h' : DayOfEra (d + 1) (e + 1) 0 0 0 0 := ⟨by omega, by omega, by omega, by omega, by omega, by omega⟩
    rw [h'.marchYear, hd]
    exact Prod.ext (by dsimp only; omega) rfl

/-- A month starts on its first day or before. -/
theorem monthStart_le (d : Int) : monthStart d ≤ d := by
  unfold monthStart
  dsimp only
  omega

theorem monthStart_le_succ (d : Int) : monthStart d ≤ monthStart (d + 1) := by
  rcases marchYear_succ d with h | h
  · simp only [monthStart, h]
    omega
  · have hfirst : monthStart (d + 1) = d + 1 := by simp [monthStart, h]
    have hle := monthStart_le d
    omega

/-- The months follow each other. -/
theorem monthStart_mono {d d' : Int} (h : d ≤ d') : monthStart d ≤ monthStart d' := by
  induction d', h using Int.leInduction with
  | base => exact le_refl _
  | succ n _ ih => exact ih.trans (monthStart_le_succ n)

end Calendar
