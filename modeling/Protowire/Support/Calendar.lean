import Mathlib.Tactic.Common

/-!
The proleptic Gregorian calendar. Days are counted from the first of January of the year 0, by
adding up the years and the months before a date.
-/

namespace Support

def isLeap (year : Nat) : Bool := year % 4 = 0 && (year % 100 ≠ 0 || year % 400 = 0)

def leapDay (year : Nat) : Nat := if isLeap year then 1 else 0

def monthLength (year month : Nat) : Nat :=
  if month = 2 then 28 + leapDay year
  else if month = 4 ∨ month = 6 ∨ month = 9 ∨ month = 11 then 30
  else 31

def daysBeforeYear : Nat → Nat
  | 0 => 0
  | year + 1 => daysBeforeYear year + (365 + leapDay year)

def daysBeforeMonth (year : Nat) : Nat → Nat
  | 0 => 0
  | 1 => 0
  | month + 2 => daysBeforeMonth year (month + 1) + monthLength year (month + 1)

structure Date where
  year : Nat
  month : Nat
  day : Nat
  monthLow : 1 ≤ month
  monthHigh : month ≤ 12
  dayLow : 1 ≤ day
  dayHigh : day ≤ monthLength year month

def Date.number (date : Date) : Nat :=
  daysBeforeYear date.year + daysBeforeMonth date.year date.month + (date.day - 1)

theorem daysBeforeYear_eq (year : Nat) :
    daysBeforeYear year + (year + 99) / 100 = 365 * year + (year + 3) / 4 + (year + 399) / 400 := by
  induction year with
  | zero => rfl
  | succ year ih =>
    have four : (year + 4) / 4 = (year + 3) / 4 + if year % 4 = 0 then 1 else 0 := by
      split <;> omega
    have hundred : (year + 100) / 100 = (year + 99) / 100 + if year % 100 = 0 then 1 else 0 := by
      split <;> omega
    have cycle : (year + 400) / 400 = (year + 399) / 400 + if year % 400 = 0 then 1 else 0 := by
      split <;> omega
    have leap : leapDay year + (if year % 100 = 0 then 1 else 0) =
        (if year % 4 = 0 then 1 else 0) + if year % 400 = 0 then 1 else 0 := by
      have inner : year % 400 = 0 → year % 100 = 0 := by omega
      have outer : year % 100 = 0 → year % 4 = 0 := by omega
      by_cases quad : year % 4 = 0
      · by_cases century : year % 100 = 0
        · by_cases full : year % 400 = 0 <;> simp [leapDay, isLeap, quad, century, full]
        · have full : ¬year % 400 = 0 := fun full => century (inner full)
          simp [leapDay, isLeap, quad, century, full]
      · have century : ¬year % 100 = 0 := fun century => quad (outer century)
        have full : ¬year % 400 = 0 := fun full => century (inner full)
        simp [leapDay, isLeap, quad, century, full]
    rw [daysBeforeYear]
    omega

theorem daysBeforeYear_cycle (cycles year : Nat) :
    daysBeforeYear (400 * cycles + year) = 146097 * cycles + daysBeforeYear year := by
  have early := daysBeforeYear_eq year
  have late := daysBeforeYear_eq (400 * cycles + year)
  omega

theorem daysBeforeYear_lt {first second : Nat} (before : first < second) :
    daysBeforeYear first + (365 + leapDay first) ≤ daysBeforeYear second := by
  induction before with
  | refl => exact Nat.le_refl _
  | step _ ih => exact Nat.le_trans ih (Nat.le_add_right ..)

theorem daysBeforeMonth_lt (year : Nat) {first second : Nat} (low : 1 ≤ first) (before : first < second) :
    daysBeforeMonth year first + monthLength year first ≤ daysBeforeMonth year second := by
  obtain ⟨first, rfl⟩ : ∃ month, first = month + 1 := ⟨first - 1, by omega⟩
  induction before with
  | refl => exact Nat.le_refl _
  | step later ih =>
    rename_i month
    have positive : first + 2 ≤ month := later
    obtain ⟨month, rfl⟩ : ∃ earlier, month = earlier + 1 := ⟨month - 1, by omega⟩
    exact Nat.le_trans ih (Nat.le_add_right ..)

theorem daysBeforeMonth_year (year : Nat) : daysBeforeMonth year 13 = 365 + leapDay year := by
  simp [daysBeforeMonth, monthLength]
  omega

namespace Date

theorem number_lt_month (date : Date) : daysBeforeMonth date.year date.month + (date.day - 1) <
    daysBeforeMonth date.year date.month + monthLength date.year date.month := by
  have low := date.dayLow
  have high := date.dayHigh
  omega

theorem number_lt_year (date : Date) :
    date.number < daysBeforeYear date.year + (365 + leapDay date.year) := by
  have inMonth := date.number_lt_month
  have inYear := daysBeforeMonth_lt date.year date.monthLow (Nat.lt_succ_of_le date.monthHigh)
  rw [daysBeforeMonth_year] at inYear
  rw [number]
  omega

theorem number_lt {first second : Date} (earlier : first.year < second.year ∨
    first.year = second.year ∧ (first.month < second.month ∨
      first.month = second.month ∧ first.day < second.day)) : first.number < second.number := by
  obtain year | ⟨year, month | ⟨month, day⟩⟩ := earlier
  · have inYear := first.number_lt_year
    have later := daysBeforeYear_lt year
    rw [number.eq_def second]
    omega
  · have inMonth := first.number_lt_month
    have later := daysBeforeMonth_lt first.year first.monthLow month
    simp only [number, ← year]
    omega
  · have low := first.dayLow
    simp only [number, ← year, ← month]
    omega

theorem number_injective {first second : Date} (same : first.number = second.number) :
    first = second := by
  have forward := @number_lt first second
  have backward := @number_lt second first
  have fields : first.year = second.year ∧ first.month = second.month ∧ first.day = second.day := by
    omega
  cases first
  cases second
  obtain ⟨year, month, day⟩ := fields
  simp only at year month day
  subst year month day
  rfl

end Date

end Support
