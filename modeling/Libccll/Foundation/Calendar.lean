import Mathlib.Data.Int.Notation
import Mathlib.Logic.Function.Iterate
import Mathlib.Order.Monotone.Basic

/-! The Gregorian calendar as dates that follow each other, day by day from the epoch. -/

namespace Foundation.Calendar

def isLeap (year : Int) : Bool :=
  year % 4 = 0 && (year % 100 ≠ 0 || year % 400 = 0)

def daysInMonth (year : Int) (month : Nat) : Nat :=
  match month with
  | 2 => if isLeap year then 29 else 28
  | 4 | 6 | 9 | 11 => 30
  | _ => 31

theorem daysInMonth_bounds (year : Int) (month : Nat)
    : 28 ≤ daysInMonth year month ∧ daysInMonth year month ≤ 31 := by
  unfold daysInMonth
  split <;> try split
  all_goals omega

/-- A date that exists. -/
structure Date where
  year : Int
  month : Nat
  day : Nat
  month_pos : 1 ≤ month
  month_le : month ≤ 12
  day_pos : 1 ≤ day
  day_le : day ≤ daysInMonth year month

theorem Date.day_le_31 (date : Date) : date.day ≤ 31 :=
  Nat.le_trans date.day_le (daysInMonth_bounds date.year date.month).2

/-- The first of a month. -/
def firstOf (year : Int) (month : Nat) (month_pos : 1 ≤ month) (month_le : month ≤ 12) : Date :=
  ⟨year, month, 1, month_pos, month_le, Nat.le_refl 1,
    Nat.le_trans (by omega) (daysInMonth_bounds year month).1⟩

/-- The last of a month. -/
def lastOf (year : Int) (month : Nat) (month_pos : 1 ≤ month) (month_le : month ≤ 12) : Date :=
  ⟨year, month, daysInMonth year month, month_pos, month_le,
    Nat.le_trans (by omega) (daysInMonth_bounds year month).1, Nat.le_refl _⟩

def nextDay (date : Date) : Date :=
  if more : date.day < daysInMonth date.year date.month then
    { date with day := date.day + 1, day_pos := Nat.le_add_left 1 date.day, day_le := more }
  else if inYear : date.month < 12 then
    firstOf date.year (date.month + 1) (Nat.le_add_left 1 date.month) inYear
  else
    firstOf (date.year + 1) 1 (by omega) (by omega)

def prevDay (date : Date) : Date :=
  if more : 1 < date.day then
    {
      date with
      day := date.day - 1
      day_pos := Nat.le_sub_one_of_lt more
      day_le := Nat.le_trans (Nat.sub_le date.day 1) date.day_le
    }
  else if inYear : 1 < date.month then
    lastOf date.year (date.month - 1) (Nat.le_sub_one_of_lt inYear)
      (Nat.le_trans (Nat.sub_le date.month 1) date.month_le)
  else
    lastOf (date.year - 1) 12 (by omega) (by omega)

/-- 1970-01-01. -/
def epoch : Date := firstOf 1970 1 (by omega) (by omega)

/-- The date `n` days after the epoch, or before it for a negative `n`. -/
def civil : Int → Date
  | .ofNat n => nextDay^[n] epoch
  | .negSucc n => prevDay^[n + 1] epoch

/-- Leap days and the end of a century, as the calendar has them. -/
example : ((civil 789).month, (civil 789).day) = (2, 29) := by decide +kernel

example : ((civil (-1)).year, (civil (-1)).month, (civil (-1)).day) = (1969, 12, 31) := by
  decide

-----------------------------------------------------------------------------------------
-- Counting days
-----------------------------------------------------------------------------------------

/-- Leap years before a year, counted from the year 1. -/
def leapsBefore (year : Int) : Int := (year - 1) / 4 - (year - 1) / 100 + (year - 1) / 400

/-- Days from the epoch to the first of a year. -/
def yearStart (year : Int) : Int := 365 * (year - 1970) + (leapsBefore year - leapsBefore 1970)

/-- Days in the first `n` months of a year. -/
def daysBefore (year : Int) : Nat → Nat
  | 0 => 0
  | n + 1 => daysBefore year n + daysInMonth year (n + 1)

/-- The number of a day of a month, which need not exist there. -/
def dayNumber (year : Int) (month : Nat) (day : Int) : Int :=
  yearStart year + daysBefore year (month - 1) + day - 1

def Date.number (date : Date) : Int := dayNumber date.year date.month date.day

theorem leapsBefore_succ (year : Int)
    : leapsBefore (year + 1) = leapsBefore year + if isLeap year then 1 else 0 := by
  simp only [leapsBefore, isLeap, Bool.and_eq_true, Bool.or_eq_true, decide_eq_true_eq]
  split <;> omega

theorem daysBefore_year (year : Int)
    : daysBefore year 12 = 365 + if isLeap year then 1 else 0 := by
  simp only [daysBefore, daysInMonth]
  split <;> rfl

/-- A year ends where the next one starts. -/
theorem yearStart_succ (year : Int)
    : yearStart (year + 1) = yearStart year + daysBefore year 12 := by
  rw [yearStart, yearStart, leapsBefore_succ, daysBefore_year]
  split <;> omega

/-- A month ends where the next one starts. -/
theorem daysBefore_month (year : Int) {month : Nat} (month_pos : 1 ≤ month)
    : daysBefore year month = daysBefore year (month - 1) + daysInMonth year month := by
  obtain ⟨n, rfl⟩ := Nat.exists_eq_add_of_le' month_pos
  rfl

theorem number_nextDay (date : Date) : (nextDay date).number = date.number + 1 := by
  have month := daysBefore_month date.year date.month_pos
  have last := date.day_le
  have inYear := date.month_le
  unfold nextDay
  split
  · simp only [Date.number, dayNumber]
    omega
  · split
    · simp only [Date.number, dayNumber, firstOf, Nat.add_sub_cancel, month]
      omega
    · have december : date.month = 12 := by omega
      have year := yearStart_succ date.year
      have none : daysBefore (date.year + 1) (1 - 1) = 0 := rfl
      rename_i notLast _
      rw [december] at month last notLast
      simp only [Date.number, dayNumber, firstOf, none, year, december]
      omega

theorem number_prevDay (date : Date) : (prevDay date).number = date.number - 1 := by
  have first := date.day_pos
  have inYear := date.month_pos
  unfold prevDay
  split
  · simp only [Date.number, dayNumber]
    omega
  · split
    · rename_i later
      have month := daysBefore_month date.year (show 1 ≤ date.month - 1 by omega)
      simp only [Date.number, dayNumber, lastOf]
      omega
    · have january : date.month = 1 := by omega
      have month := daysBefore_month (date.year - 1) (show 1 ≤ 12 by omega)
      have year := yearStart_succ (date.year - 1)
      rw [Int.sub_add_cancel] at year
      simp only [Date.number, dayNumber, lastOf, january, Nat.sub_self, daysBefore.eq_1]
      omega

/-- The calendar and the count of days agree, on both sides of the epoch. -/
theorem number_civil (n : Int) : (civil n).number = n := by
  cases n with
  | ofNat n =>
      change (nextDay^[n] epoch).number = (n : Int)
      induction n with
      | zero => rfl
      | succ n ih =>
          rw [Function.iterate_succ_apply', number_nextDay, ih]
          rfl
  | negSucc n =>
      change (prevDay^[n + 1] epoch).number = Int.negSucc n
      induction n with
      | zero => rfl
      | succ n ih =>
          rw [Function.iterate_succ_apply', number_prevDay, ih]
          rfl

end Foundation.Calendar
