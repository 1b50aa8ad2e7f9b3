import Protowire.Detail.TimeCore
import Protowire.Support.Calendar

/-!
The date conversions against the calendar. Both count from the first of March, where the leap day
is the last of a year, in eras of 400 years.
-/

namespace Protowire

open Support

def marchYear (yoe : Nat) : Nat := 365 * yoe + yoe / 4 - yoe / 100

def marchMonth (mp : Nat) : Nat := (153 * mp + 2) / 5

theorem marchYear_january : ∀ yoe : Fin 400,
    daysBeforeYear (yoe + 1) = marchYear yoe + 366 := by
  decide +kernel

theorem daysBeforeYear_march (era : Int) {yoe year : Nat} (inEra : yoe < 400)
    (same : (year : Int) = era * 400 + yoe + 1) :
    (daysBeforeYear year : Int) = era * 146097 + marchYear yoe + 366 := by
  have january := marchYear_january ⟨yoe, inEra⟩
  simp only at january
  by_cases first : era = -1
  · obtain ⟨rfl, rfl⟩ : yoe = 399 ∧ year = 0 := by omega
    subst first
    decide
  · obtain ⟨cycles, rfl⟩ := Int.eq_ofNat_of_zero_le (show 0 ≤ era by omega)
    have shape : year = 400 * cycles + (yoe + 1) := by omega
    rw [shape, daysBeforeYear_cycle, january]
    omega

theorem daysBeforeMonth_march (year : Nat) {mp : Nat} (inYear : mp < 10) :
    daysBeforeMonth year (mp + 3) = 59 + leapDay year + marchMonth mp ∧
      monthLength year (mp + 3) = marchMonth (mp + 1) - marchMonth mp := by
  obtain rfl | rfl | rfl | rfl | rfl | rfl | rfl | rfl | rfl | rfl : mp = 0 ∨ mp = 1 ∨ mp = 2 ∨ mp = 3 ∨
      mp = 4 ∨ mp = 5 ∨ mp = 6 ∨ mp = 7 ∨ mp = 8 ∨ mp = 9 := by omega
  all_goals simp [daysBeforeMonth, monthLength, marchMonth]; try omega

theorem floor_tdiv (n : Int) {k : Int} (positive : 0 < k) :
    (if 0 ≤ n then n else n - (k - 1)).tdiv k = n / k := by
  split
  · rename_i nonneg
    exact Int.tdiv_eq_ediv_of_nonneg nonneg
  · rename_i negative
    have flip : n - (k - 1) = -(k - 1 - n) := by omega
    rw [flip, Int.neg_tdiv, Int.tdiv_eq_ediv_of_nonneg (by omega)]
    have whole := Int.mul_ediv_add_emod (k - 1 - n) k
    have low := Int.emod_nonneg (k - 1 - n) (by omega : k ≠ 0)
    have high := Int.emod_lt_of_pos (k - 1 - n) positive
    generalize (k - 1 - n) / k = q at whole ⊢
    have unique : n / k = -q ∧ n % k = k - 1 - (k - 1 - n) % k :=
      (Int.ediv_emod_unique positive).mpr ⟨by rw [Int.mul_neg]; omega, by omega, by omega⟩
    exact unique.1.symm

structure MarchDate (date : Date) (era : Int) (yoe mp : Nat) : Prop where
  inEra : yoe < 400
  inYear : mp < 12
  year : (date.year : Int) = era * 400 + yoe + if mp < 10 then 0 else 1
  month : date.month = if mp < 10 then mp + 3 else mp - 9

theorem MarchDate.number {date : Date} {era : Int} {yoe mp : Nat} (march : MarchDate date era yoe mp) :
    (date.number : Int) = era * 146097 + marchYear yoe + 60 + marchMonth mp + date.day - 1 := by
  have day := date.dayLow
  have year := march.year
  have month := march.month
  have inYear := march.inYear
  by_cases late : mp < 10
  · rw [if_pos late] at year month
    have following := daysBeforeYear_march era march.inEra (show ((date.year + 1 : Nat) : Int) = _ by omega)
    have months := (daysBeforeMonth_march date.year late).1
    rw [daysBeforeYear] at following
    rw [Date.number, month, months]
    omega
  · rw [if_neg late] at year month
    have start := daysBeforeYear_march era march.inEra year
    obtain rfl | rfl : mp = 10 ∨ mp = 11 := by omega
    · have months : daysBeforeMonth date.year 1 = 0 := rfl
      have offset : marchMonth 10 = 306 := rfl
      rw [Date.number, month, months]
      omega
    · have months : daysBeforeMonth date.year 2 = 31 := rfl
      have offset : marchMonth 11 = 337 := rfl
      rw [Date.number, month, months]
      omega

theorem daysFromCivil_number (date : Date) :
    daysFromCivil date.year date.month date.day = (date.number : Int) - 719528 := by
  have low := date.monthLow
  have high := date.monthHigh
  have day := date.dayLow
  generalize shifted : (date.year : Int) - (if date.month ≤ 2 then 1 else 0) = year
  generalize offset : (if 2 < date.month then date.month - 3 else date.month + 9) = mp
  have march : MarchDate date (year / 400) (year - year / 400 * 400).toNat mp := by
    refine ⟨by omega, by split at offset <;> omega, ?_, ?_⟩
    · split at offset <;> split at shifted <;> split <;> omega
    · split at offset <;> split <;> omega
  have number := march.number
  have era := floor_tdiv year (show (0 : Int) < 400 by decide)
  simp only [daysFromCivil, shifted, offset]
  change (if 0 ≤ year then year else year - 399).tdiv 400 = _ at era
  rw [era, number, marchYear, marchMonth]
  omega

def commonDays (doe : Nat) : Nat := doe - doe / 1460 + doe / 36524 - doe / 146096

theorem commonDays_mono {first second : Nat} (le : first ≤ second) :
    commonDays first ≤ commonDays second := by
  induction le with
  | refl => exact Nat.le_refl _
  | step _ ih =>
    refine Nat.le_trans ih ?_
    simp only [commonDays]
    omega

theorem commonDays_year : ∀ yoe : Fin 400, 365 * yoe ≤ commonDays (marchYear yoe) ∧
    commonDays (marchYear yoe + 364 + leapDay (yoe + 1)) < 365 * (yoe + 1) := by
  decide +kernel

theorem marchYear_succ : ∀ yoe : Fin 399,
    marchYear (yoe + 1) = marchYear yoe + 365 + leapDay (yoe + 1) := by
  decide +kernel

theorem exists_marchYear {yoe doe : Nat} (inEra : yoe < 400)
    (before : doe < marchYear yoe + 365 + leapDay (yoe + 1)) :
    ∃ year ≤ yoe, marchYear year ≤ doe ∧ doe < marchYear year + 365 + leapDay (year + 1) := by
  induction yoe with
  | zero => exact ⟨0, Nat.le_refl _, Nat.zero_le _, before⟩
  | succ yoe ih =>
    by_cases inside : marchYear (yoe + 1) ≤ doe
    · exact ⟨yoe + 1, Nat.le_refl _, inside, before⟩
    · have following := marchYear_succ ⟨yoe, by omega⟩
      obtain ⟨year, le, found⟩ := ih (by omega) (by simp only at following; omega)
      exact ⟨year, by omega, found⟩

theorem commonDays_div {doe : Nat} (inEra : doe < 146097) :
    commonDays doe / 365 < 400 ∧ marchYear (commonDays doe / 365) ≤ doe ∧
      doe < marchYear (commonDays doe / 365) + 365 + leapDay (commonDays doe / 365 + 1) := by
  obtain ⟨year, le, from_, before⟩ := exists_marchYear (show 399 < 400 by decide)
    (show doe < marchYear 399 + 365 + leapDay (399 + 1) from inEra)
  obtain ⟨low, high⟩ := commonDays_year ⟨year, by omega⟩
  have lower := commonDays_mono from_
  have upper := commonDays_mono (show doe ≤ marchYear year + 364 + leapDay (year + 1) by omega)
  have same : commonDays doe / 365 = year := by
    simp only at low high
    omega
  rw [same]
  exact ⟨by omega, from_, before⟩

theorem marchMonth_div {doy : Nat} (inYear : doy < 366) :
    (5 * doy + 2) / 153 < 12 ∧ marchMonth ((5 * doy + 2) / 153) ≤ doy ∧
      doy < marchMonth ((5 * doy + 2) / 153 + 1) := by
  simp only [marchMonth]
  omega

theorem leapDay_cycle {era : Int} {year yoe : Nat} (same : (year : Int) = era * 400 + yoe) :
    leapDay year = leapDay yoe := by
  have four : year % 4 = yoe % 4 := by omega
  have hundred : year % 100 = yoe % 100 := by omega
  have cycle : year % 400 = yoe % 400 := by omega
  have leap : isLeap year = isLeap yoe := by simp only [isLeap, four, hundred, cycle]
  rw [leapDay, leap, leapDay]

theorem civilFromDays_date {days : Int} (start : 0 ≤ days + 719528) :
    ∃ date : Date, civilFromDays days = ((date.year : Int), date.month, date.day) ∧
      (date.number : Int) = days + 719528 := by
  have floor := floor_tdiv (days + 719468) (show (0 : Int) < 146097 by decide)
  change (if 0 ≤ days + 719468 then days + 719468 else days + 719468 - 146096).tdiv 146097 = _ at floor
  simp only [civilFromDays, floor]
  generalize eraEq : (days + 719468) / 146097 = era
  generalize doeEq : (days + 719468 - era * 146097).toNat = doe
  have inEra : doe < 146097 := by omega
  obtain ⟨yearInEra, from_, before⟩ := commonDays_div inEra
  have common : doe - doe / 1460 + doe / 36524 - doe / 146096 = commonDays doe := rfl
  rw [common]
  generalize commonDays doe / 365 = yoe at yearInEra from_ before ⊢
  have started : 365 * yoe + yoe / 4 - yoe / 100 = marchYear yoe := rfl
  rw [started]
  have leapYear : leapDay (yoe + 1) ≤ 1 := by
    rw [leapDay]
    split <;> decide
  generalize doyEq : doe - marchYear yoe = doy
  obtain ⟨monthInYear, first, last⟩ := marchMonth_div (show doy < 366 by omega)
  generalize (5 * doy + 2) / 153 = mp at monthInYear first last ⊢
  have months : (153 * mp + 2) / 5 = marchMonth mp := rfl
  rw [months]
  -- The year of the calendar, which starts in the tenth month from March.
  obtain ⟨year, yearEq⟩ : ∃ year : Nat, (year : Int) = era * 400 + yoe + if mp < 10 then 0 else 1 := by
    refine ⟨(era * 400 + yoe + if mp < 10 then 0 else 1).toNat, Int.toNat_of_nonneg ?_⟩
    by_cases later : 0 ≤ era
    · split <;> omega
    · -- The year 0 has its first two months in the era before.
      simp only [marchYear, marchMonth] at before last doyEq
      rw [if_neg (by omega)]
      omega
  have dayHigh : doy - marchMonth mp + 1 ≤ monthLength year (if mp < 10 then mp + 3 else mp - 9) := by
    by_cases late : mp < 10
    · rw [if_pos late, (daysBeforeMonth_march year late).2]
      omega
    · rw [if_neg late] at yearEq ⊢
      obtain rfl | rfl : mp = 10 ∨ mp = 11 := by omega
      · change doy - 306 + 1 ≤ 31
        change doy < 337 at last
        omega
      · change doy - 337 + 1 ≤ 28 + leapDay year
        rw [leapDay_cycle (show (year : Int) = era * 400 + (yoe + 1 : Nat) by omega)]
        omega
  let date : Date := ⟨year, if mp < 10 then mp + 3 else mp - 9, doy - marchMonth mp + 1,
    by split <;> omega, by split <;> omega, by omega, dayHigh⟩
  have march : MarchDate date era yoe mp := ⟨yearInEra, monthInYear, yearEq, rfl⟩
  refine ⟨date, ?_, ?_⟩
  · simp only [date, yearEq]
    rw [Prod.mk.injEq]
    refine ⟨?_, rfl⟩
    split <;> split <;> omega
  · rw [march.number]
    simp only [date]
    omega

end Protowire
