import QuotaGuard.Lib.Gregorian
import QuotaGuard.Lua.Civil

/-!
# The calendar of the script is the Gregorian one

The years of the script start in March. Read as civil dates they are the dates of the calendar, one
day after the other, and each conversion undoes the other.
-/

namespace QuotaGuard

open Gregorian

/-- The date of a day number, as the script computes it. -/
def dateOf (days : Int) : Date :=
  ⟨(civilFromDays days).1, (civilFromDays days).2.1, (civilFromDays days).2.2⟩

/-- The day number of a date, as the script computes it. -/
def daysOf (d : Date) : Int := daysFromCivil d.year d.month d.day

/-! ### Days within a month -/

theorem exists_civilMonth {month : Int} (hmonth : 1 ≤ month ∧ month ≤ 12) (year : Int) :
    ∃ y mp, 0 ≤ mp ∧ mp ≤ 11 ∧ year = civilYear y mp ∧ month = civilMonth mp := by
  by_cases hwinter : month ≤ 2
  · refine ⟨year - 1, month + 9, by omega, by omega, ?_, ?_⟩
    · rw [civilYear, civilMonth]
      split_ifs <;> omega
    · rw [civilMonth, if_pos (by omega)]
      ring
  · refine ⟨year, month - 3, by omega, by omega, ?_, ?_⟩
    · rw [civilYear, civilMonth]
      split_ifs <;> omega
    · rw [civilMonth, if_neg (by omega)]
      ring

/-- The length of the month at place `mp` of the March year `y`. Only its last month, February, knows
whether the year is leap. -/
theorem monthLength_march {y mp : Int} (hmp : 0 ≤ mp) (hmp' : mp ≤ 11) :
    monthLength (civilYear y mp) (civilMonth mp) =
      if mp = 11 then if IsLeap (y + 1) then 29 else 28
      else (153 * (mp + 1) + 2) / 5 - (153 * mp + 2) / 5 := by
  interval_cases mp <;> rfl

/-- The splitting of the day number of a date. -/
theorem marchSplit_daysFromCivil {y mp d : Int} (hmp : 0 ≤ mp) (hmp' : mp ≤ 11) (hd : 1 ≤ d)
    (hd' : d ≤ monthLength (civilYear y mp) (civilMonth mp)) :
    MarchSplit (daysFromCivil (civilYear y mp) (civilMonth mp) d) (y / 400) (y % 400 / 100)
      (y % 100 / 4) (y % 4) ((153 * mp + 2) / 5 + d - 1) := by
  rw [monthLength_march hmp hmp'] at hd'
  rw [daysFromCivil_march hmp hmp']
  have hleap : mp = 11 → d = 29 → (y + 1) % 4 = 0 ∧ ((y + 1) % 100 ≠ 0 ∨ (y + 1) % 400 = 0) := by
    rintro rfl rfl
    rw [if_pos rfl] at hd'
    split at hd'
    · rename_i hyes
      obtain ⟨h4, h100⟩ := hyes
      omega
    · omega
  have hu : (153 * mp + 2) / 5 + d - 1 ≤ 365 ∧ ((153 * mp + 2) / 5 + d - 1 = 365 → mp = 11 ∧ d = 29) := by
    split at hd'
    · split at hd' <;> omega
    · omega
  constructor <;> omega

/-- The days of a March year fall into its months, wherever the year lies. -/
theorem month_of_day {mp d : Int} (hmp : 0 ≤ mp) (hmp' : mp ≤ 11) (hd : 1 ≤ d)
    (hlast : mp = 11 → d ≤ 29)
    (hshort : mp < 11 → d ≤ (153 * (mp + 1) + 2) / 5 - (153 * mp + 2) / 5) :
    (5 * ((153 * mp + 2) / 5 + d - 1) + 2) / 153 = mp := by
  interval_cases mp <;> omega

/-- A date of the calendar is what its day number is read back as. -/
theorem civilFromDays_daysFromCivil {d : Date} (h : d.Valid) :
    civilFromDays (daysFromCivil d.year d.month d.day) = (d.year, d.month, d.day) := by
  obtain ⟨year, month, day⟩ := d
  obtain ⟨hmonth, hday, hday'⟩ := h
  simp only at hmonth hday hday' ⊢
  obtain ⟨y, mp, hmp, hmp', rfl, rfl⟩ := exists_civilMonth hmonth year
  have hsplit := marchSplit_daysFromCivil hmp hmp' hday hday'
  rw [monthLength_march hmp hmp'] at hday'
  have hplace : (5 * ((153 * mp + 2) / 5 + day - 1) + 2) / 153 = mp := by
    apply month_of_day hmp hmp' hday
    · intro hlast
      rw [if_pos hlast] at hday'
      split at hday' <;> omega
    · intro hshort
      rwa [if_neg (by omega)] at hday'
  rw [hsplit.civilFromDays_eq]
  simp only [hplace]
  have hyear : 100 * (y % 400 / 100) + 4 * (y % 100 / 4) + y % 4 + y / 400 * 400 = y := by omega
  have hlast : (153 * mp + 2) / 5 + day - 1 - (153 * mp + 2) / 5 + 1 = day := by ring
  rw [hyear, hlast]
  rfl

/-- What a day number is read as is a date of the calendar, with that day number. -/
theorem dateOf_spec (days : Int) : (dateOf days).Valid ∧ daysOf (dateOf days) = days := by
  obtain ⟨era, c, q, t, u, h⟩ := exists_marchSplit days
  have hcivil := h.civilFromDays_eq
  have hleap := h.leapDays_eq
  obtain ⟨hdays, hc, hq, ht, hu, hgroup, hcentury⟩ := h
  obtain ⟨mp, hmp⟩ : ∃ mp, mp = (5 * u + 2) / 153 := ⟨_, rfl⟩
  obtain ⟨yoe, hyoe⟩ : ∃ yoe, yoe = 100 * c + 4 * q + t := ⟨_, rfl⟩
  simp only [← hmp, ← hyoe] at hcivil hleap
  have hlow : 0 ≤ mp := by omega
  have hhigh : mp ≤ 11 := by omega
  have hdate : dateOf days =
      ⟨civilYear (yoe + era * 400) mp, civilMonth mp, u - (153 * mp + 2) / 5 + 1⟩ := by
    rw [dateOf, hcivil]
    rfl
  rw [hdate]
  have hera : (yoe + era * 400) / 400 = era := by omega
  refine ⟨⟨?_, ?_⟩, ?_⟩
  · simp only [civilMonth]
    split_ifs <;> omega
  · simp only [monthLength_march hlow hhigh]
    split
    · split
      · omega
      · -- The last day of February has been reached, in a year that is not leap.
        rename_i hcommon
        have hfour : ¬ (4 ∣ yoe + era * 400 + 1 ∧ (¬ 100 ∣ yoe + era * 400 + 1 ∨
          400 ∣ yoe + era * 400 + 1)) := hcommon
        omega
    · omega
  · simp only [daysOf]
    rw [daysFromCivil_march hlow hhigh, hera]
    omega

/-! ### The day after -/

/-- Within a month the days are counted from its first. -/
theorem daysFromCivil_first (year month day : Int) :
    daysFromCivil year month day = daysFromCivil year month 1 + (day - 1) := by
  simp only [daysFromCivil]
  ring

/-- The first of the next month has the day number that would be the day after the last of this. -/
theorem daysFromCivil_nextMonth (year : Int) {month : Int} (hmonth : 1 ≤ month ∧ month ≤ 12) :
    daysFromCivil (nextMonth year month).1 (nextMonth year month).2 1 =
      daysFromCivil year month (monthLength year month) + 1 := by
  obtain ⟨y, mp, hmp, hmp', rfl, rfl⟩ := exists_civilMonth hmonth year
  rw [nextMonth_march hmp hmp', daysFromCivil_march hmp hmp', monthLength_march hmp hmp']
  by_cases hlast : mp = 11
  · rw [if_pos hlast, if_pos hlast, daysFromCivil_march (by decide) (by decide), hlast]
    split
    · rename_i hleap
      have hfour : 4 ∣ y + 1 ∧ (¬ 100 ∣ y + 1 ∨ 400 ∣ y + 1) := hleap
      omega
    · rename_i hcommon
      have hfour : ¬ (4 ∣ y + 1 ∧ (¬ 100 ∣ y + 1 ∨ 400 ∣ y + 1)) := hcommon
      omega
  · rw [if_neg hlast, if_neg hlast, daysFromCivil_march (by omega) (by omega)]
    omega

theorem daysOf_next {d : Date} (h : d.Valid) : daysOf d.next = daysOf d + 1 := by
  obtain ⟨hmonth, hday, hday'⟩ := h
  have hfirst := daysFromCivil_nextMonth d.year hmonth
  unfold Date.next daysOf
  split
  · rw [daysFromCivil_first, daysFromCivil_first _ _ d.day]
    ring
  · have hlast : d.day = monthLength d.year d.month := by omega
    rw [← hlast] at hfirst
    rw [← hfirst, nextMonth]
    split
    · rw [if_neg (by omega)]
    · rw [if_pos (by omega)]

theorem dateOf_daysOf {d : Date} (h : d.Valid) : dateOf (daysOf d) = d := by
  rw [dateOf, daysOf, civilFromDays_daysFromCivil h]

theorem dateOf_succ (days : Int) : dateOf (days + 1) = (dateOf days).next := by
  obtain ⟨hvalid, hdays⟩ := dateOf_spec days
  rw [← dateOf_daysOf hvalid.next, daysOf_next hvalid, hdays]

/-- **The civil helpers are the Gregorian calendar.** Every day number is read as a date of the
calendar, the next one as the date after it, day 0 as the first of January 1970; and the two helpers
undo each other. -/
theorem civil_gregorian :
    (∀ days, (dateOf days).Valid ∧ daysOf (dateOf days) = days ∧
      dateOf (days + 1) = (dateOf days).next) ∧
    civilFromDays 0 = (1970, 1, 1) ∧
    ∀ d : Date, d.Valid →
      civilFromDays (daysFromCivil d.year d.month d.day) = (d.year, d.month, d.day) :=
  ⟨fun days => ⟨(dateOf_spec days).1, (dateOf_spec days).2, dateOf_succ days⟩, rfl,
    fun _ h => civilFromDays_daysFromCivil h⟩

/-- The leap day of a century that four divides. -/
theorem civil_gregorian_sample : civilFromDays (daysFromCivil 2000 2 29) = (2000, 2, 29) :=
  civil_gregorian.2.2 ⟨2000, 2, 29⟩ ⟨by decide, by decide⟩

end QuotaGuard
