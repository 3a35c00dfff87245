import Mathlib.Data.Nat.Find
import Mathlib.Order.Bounds.Basic
import Mathlib.Order.Monotone.Basic
import Mathlib.Tactic.IntervalCases

/-!
# The Gregorian Calendar

Days are counted from the first of January of the year 1, which is day 0 and a Monday, as if the
Gregorian calendar had always been in use. The year of a day is the greatest one that does not begin
after it, and its month the greatest one of that year.
-/

namespace Ace3.Lib.Calendar

/-! ## §1 Years -/

def isLeap (y : ℕ) : Bool := y % 4 = 0 ∧ (y % 100 ≠ 0 ∨ y % 400 = 0)

def daysBeforeYear (y : ℕ) : ℕ :=
  let passed := y - 1
  passed * 365 + passed / 4 - passed / 100 + passed / 400

def yearOf (k : ℕ) : ℕ := Nat.findGreatest (fun y => daysBeforeYear y ≤ k) (k / 365 + 1)

variable {j k y m d : ℕ}

theorem daysBeforeYear_succ (hy : 1 ≤ y) :
    daysBeforeYear (y + 1) = daysBeforeYear y + if isLeap y then 366 else 365 := by
  obtain ⟨p, rfl⟩ : ∃ p, y = p + 1 := ⟨y - 1, by omega⟩
  have hfour : (p + 1) / 4 = p / 4 + if (p + 1) % 4 = 0 then 1 else 0 := by split <;> omega
  have hcentury : (p + 1) / 100 = p / 100 + if (p + 1) % 100 = 0 then 1 else 0 := by
    split <;> omega
  have hcycle : (p + 1) / 400 = p / 400 + if (p + 1) % 400 = 0 then 1 else 0 := by split <;> omega
  have hle : p / 100 ≤ p / 4 := by omega
  simp only [daysBeforeYear, isLeap, Nat.add_sub_cancel, decide_eq_true_eq, hfour, hcentury, hcycle]
  -- a century is a fourth year, and a fourth century is a century
  by_cases h4 : (p + 1) % 4 = 0
  · by_cases h100 : (p + 1) % 100 = 0
    · by_cases h400 : (p + 1) % 400 = 0
      · simp only [h4, h100, h400, if_true, ne_eq, not_true, or_true, and_self]
        omega
      · simp only [h4, h100, h400, if_true, if_false, ne_eq, not_true, or_false, and_false]
        omega
    · have h400 : (p + 1) % 400 ≠ 0 := by omega
      simp only [h4, h100, h400, if_true, if_false, ne_eq, not_false_eq_true, or_false, and_self]
      omega
  · have h100 : (p + 1) % 100 ≠ 0 := by omega
    have h400 : (p + 1) % 400 ≠ 0 := by omega
    simp only [h4, h100, h400, if_false, false_and]
    omega

theorem daysBeforeYear_mono : Monotone daysBeforeYear := by
  apply monotone_nat_of_le_succ
  intro y
  rcases Nat.eq_zero_or_pos y with rfl | hy
  · decide
  · rw [daysBeforeYear_succ hy]
    exact Nat.le_add_right _ _

theorem mul_le_daysBeforeYear (y : ℕ) : (y - 1) * 365 ≤ daysBeforeYear y := by
  simp only [daysBeforeYear]
  omega

theorem one_le_yearOf (k : ℕ) : 1 ≤ yearOf k :=
  Nat.le_findGreatest (Nat.le_add_left 1 _) (Nat.zero_le k)

theorem daysBeforeYear_yearOf_le (k : ℕ) : daysBeforeYear (yearOf k) ≤ k :=
  Nat.findGreatest_spec (P := fun y => daysBeforeYear y ≤ k) (Nat.le_add_left 1 _) (Nat.zero_le k)

theorem le_yearOf_iff : y ≤ yearOf k ↔ daysBeforeYear y ≤ k := by
  constructor
  · intro h
    exact (daysBeforeYear_mono h).trans (daysBeforeYear_yearOf_le k)
  · intro h
    refine Nat.le_findGreatest ?_ h
    have hlong := (mul_le_daysBeforeYear y).trans h
    omega

theorem lt_daysBeforeYear_succ (k : ℕ) : k < daysBeforeYear (yearOf k + 1) := by
  by_contra hle
  have hyear := le_yearOf_iff.mpr (Nat.not_lt.mp hle)
  omega

theorem yearOf_mono : Monotone yearOf := fun _ _ hjk =>
  le_yearOf_iff.mpr ((daysBeforeYear_yearOf_le _).trans hjk)

theorem yearOf_eq (hle : daysBeforeYear y ≤ k) (hlt : k < daysBeforeYear (y + 1)) : yearOf k = y := by
  apply Nat.le_antisymm
  · by_contra hyear
    have hnext := (le_yearOf_iff (y := y + 1) (k := k)).mp (by omega)
    omega
  · exact le_yearOf_iff.mpr hle

/-! ## §2 Months -/

/-- The number of days of the year before the month begins. -/
def daysBeforeMonth (leap : Bool) : ℕ → ℕ
  | 0 | 1 => 0
  | 2 => 31
  | 3 => if leap then 60 else 59
  | 4 => if leap then 91 else 90
  | 5 => if leap then 121 else 120
  | 6 => if leap then 152 else 151
  | 7 => if leap then 182 else 181
  | 8 => if leap then 213 else 212
  | 9 => if leap then 244 else 243
  | 10 => if leap then 274 else 273
  | 11 => if leap then 305 else 304
  | 12 => if leap then 335 else 334
  | _ => if leap then 366 else 365

def dayInYear (k : ℕ) : ℕ := k - daysBeforeYear (yearOf k)

def monthIn (leap : Bool) (n : ℕ) : ℕ := Nat.findGreatest (fun m => daysBeforeMonth leap m ≤ n) 12

def monthOf (k : ℕ) : ℕ := monthIn (isLeap (yearOf k)) (dayInYear k)

def dayOf (k : ℕ) : ℕ := dayInYear k - daysBeforeMonth (isLeap (yearOf k)) (monthOf k) + 1

def weekday (k : ℕ) : ℕ := k % 7

def ordinal (y m d : ℕ) : ℕ := daysBeforeYear y + daysBeforeMonth (isLeap y) m + (d - 1)

theorem daysBeforeMonth_mono (leap : Bool) : Monotone (daysBeforeMonth leap) := by
  apply monotone_nat_of_le_succ
  intro m
  match m with
  | 0 | 1 | 2 | 3 | 4 | 5 | 6 | 7 | 8 | 9 | 10 | 11 | 12 =>
    cases leap <;> decide
  | _ + 13 => exact Nat.le_refl _

theorem daysBeforeMonth_monthIn_le (leap : Bool) (n : ℕ) :
    daysBeforeMonth leap (monthIn leap n) ≤ n :=
  Nat.findGreatest_spec (P := fun m => daysBeforeMonth leap m ≤ n) (Nat.zero_le 12) (Nat.zero_le n)

theorem monthIn_mono (leap : Bool) : Monotone (monthIn leap) := fun _ _ hle =>
  Nat.le_findGreatest (Nat.findGreatest_le 12) ((daysBeforeMonth_monthIn_le leap _).trans hle)

theorem one_le_monthIn (leap : Bool) (n : ℕ) : 1 ≤ monthIn leap n :=
  Nat.le_findGreatest (by omega) (Nat.zero_le n)

theorem monthIn_daysBeforeMonth (leap : Bool) (h1 : 1 ≤ m) (h12 : m ≤ 12) :
    monthIn leap (daysBeforeMonth leap m) = m := by
  interval_cases m <;> cases leap <;> decide

theorem monthIn_le (leap : Bool) (n : ℕ) : monthIn leap n ≤ 12 := Nat.findGreatest_le 12

theorem monthOf_le (k : ℕ) : monthOf k ≤ 12 := monthIn_le _ _

theorem ordinal_date (k : ℕ) : ordinal (yearOf k) (monthOf k) (dayOf k) = k := by
  have hyear := daysBeforeYear_yearOf_le k
  have hmonth := daysBeforeMonth_monthIn_le (isLeap (yearOf k)) (dayInYear k)
  rw [ordinal, dayOf, monthOf, Nat.add_sub_cancel]
  unfold dayInYear at *
  omega

theorem yearOf_ordinal (hy : 1 ≤ y) (h12 : m ≤ 12) : yearOf (ordinal y m 1) = y := by
  apply yearOf_eq
  · rw [ordinal, Nat.add_assoc]
    exact Nat.le_add_right _ _
  · have hmonth := daysBeforeMonth_mono (isLeap y) h12
    have hlast : daysBeforeMonth (isLeap y) 12 < if isLeap y then 366 else 365 := by
      cases isLeap y <;> decide
    rw [daysBeforeYear_succ hy, ordinal]
    omega

theorem dayInYear_ordinal (hy : 1 ≤ y) (h12 : m ≤ 12) :
    dayInYear (ordinal y m 1) = daysBeforeMonth (isLeap y) m := by
  rw [dayInYear, yearOf_ordinal hy h12, ordinal]
  omega

theorem monthOf_ordinal (hy : 1 ≤ y) (h1 : 1 ≤ m) (h12 : m ≤ 12) :
    monthOf (ordinal y m 1) = m := by
  rw [monthOf, yearOf_ordinal hy h12, dayInYear_ordinal hy h12, monthIn_daysBeforeMonth _ h1 h12]

theorem dayOf_ordinal (hy : 1 ≤ y) (h1 : 1 ≤ m) (h12 : m ≤ 12) : dayOf (ordinal y m 1) = 1 := by
  rw [dayOf, monthOf_ordinal hy h1 h12, yearOf_ordinal hy h12, dayInYear_ordinal hy h12]
  omega

/-! ## §3 First days -/

theorem isGreatest_firstOfMonth (k : ℕ) :
    IsGreatest {j | j ≤ k ∧ dayOf j = 1} (ordinal (yearOf k) (monthOf k) 1) := by
  have hyear := one_le_yearOf k
  have hmonth : 1 ≤ monthOf k := one_le_monthIn _ _
  refine ⟨⟨?_, dayOf_ordinal hyear hmonth (monthOf_le k)⟩, fun j hj => ?_⟩
  · have hdate := ordinal_date k
    unfold ordinal at *
    omega
  · obtain ⟨hle, hfirst⟩ := hj
    have hdate := ordinal_date j
    rw [hfirst] at hdate
    rcases Nat.lt_or_eq_of_le (yearOf_mono hle) with hlt | heq
    · -- the year of `j` has ended
      have hend := (lt_daysBeforeYear_succ j).trans_le (daysBeforeYear_mono (Nat.succ_le_of_lt hlt))
      exact hend.le.trans (by rw [ordinal, Nat.add_assoc]; exact Nat.le_add_right _ _)
    · have hdays : dayInYear j ≤ dayInYear k := by
        unfold dayInYear
        rw [heq]
        omega
      have hmonths : monthOf j ≤ monthOf k := by
        unfold monthOf
        rw [heq]
        exact monthIn_mono _ hdays
      rw [← hdate, ordinal, ordinal, heq]
      have hbefore := daysBeforeMonth_mono (isLeap (yearOf k)) hmonths
      omega

theorem isGreatest_firstOfYear (k : ℕ) :
    IsGreatest {j | j ≤ k ∧ dayOf j = 1 ∧ monthOf j = 1} (ordinal (yearOf k) 1 1) := by
  have hyear := one_le_yearOf k
  refine ⟨⟨?_, dayOf_ordinal hyear (Nat.le_refl 1) (by omega),
    monthOf_ordinal hyear (Nat.le_refl 1) (by omega)⟩, fun j hj => ?_⟩
  · exact daysBeforeYear_yearOf_le k
  · obtain ⟨hle, hfirst, hmonth⟩ := hj
    have hdate := ordinal_date j
    rw [hfirst, hmonth] at hdate
    rw [← hdate]
    exact daysBeforeYear_mono (yearOf_mono hle)

theorem isGreatest_sunday (h : (weekday k + 1) % 7 ≤ k) :
    IsGreatest {j | j ≤ k ∧ weekday j = 6} (k - (weekday k + 1) % 7) := by
  unfold weekday at *
  refine ⟨⟨Nat.sub_le _ _, by omega⟩, fun j hj => ?_⟩
  obtain ⟨hle, hsunday⟩ := hj
  omega

end Ace3.Lib.Calendar
