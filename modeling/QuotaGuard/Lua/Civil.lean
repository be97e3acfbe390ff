import QuotaGuard.Lib.Text
import QuotaGuard.Redis.Keyspace
import Mathlib.Tactic.SplitIfs
import Mathlib.Tactic.Ring

/-!
# The civil calendar of check.lua

The script derives the month it charges from its own clock. Both conversions count in years that
start in March, so that a leap day is the last day of its year, and in eras of 400 years, which all
have 146097 days. Every `math.floor` of a quotient is a floor division.

The facts below rest on one splitting of the day number: into its era, the century, four-year group
and year inside it, and the day of that year.
-/

namespace QuotaGuard

/-- `civil_from_days`: year, month and day of a day number counted from 1970-01-01. -/
def civilFromDays (days : Int) : Int × Int × Int :=
  let z := days + 719468
  let era := z / 146097
  let doe := z - era * 146097
  let yoe := (doe - doe / 1460 + doe / 36524 - doe / 146096) / 365
  let y := yoe + era * 400
  let doy := doe - (365 * yoe + yoe / 4 - yoe / 100)
  let mp := (5 * doy + 2) / 153
  let d := doy - (153 * mp + 2) / 5 + 1
  let m := if mp ≥ 10 then mp - 9 else mp + 3
  let y := if m ≤ 2 then y + 1 else y
  (y, m, d)

/-- `days_from_civil`: the day number of a date. -/
def daysFromCivil (y m d : Int) : Int :=
  let y := if m ≤ 2 then y - 1 else y
  let era := y / 400
  let yoe := y - era * 400
  let mp := if m ≤ 2 then m + 9 else m - 3
  let doy := (153 * mp + 2) / 5 + d - 1
  let doe := yoe * 365 + yoe / 4 - yoe / 100 + doy
  era * 146097 + doe - 719468

def nextMonth (year month : Int) : Int × Int :=
  if month + 1 > 12 then (year + 1, 1) else (year, month + 1)

/-- Epoch seconds of the first instant after a month. -/
def monthEndOf (year month : Int) : Int :=
  daysFromCivil (nextMonth year month).1 (nextMonth year month).2 1 * 86400

/-- `string.format('%04d-%02d', year, month)`. -/
def monthStrOf (year month : Int) : String :=
  Text.zeroPad 4 year ++ String.singleton '-' ++ Text.zeroPad 2 month

namespace Time

def civil (t : Time) : Int × Int × Int := civilFromDays ((t.sec : Int) / 86400)

def monthStr (t : Time) : String := monthStrOf t.civil.1 t.civil.2.1

/-- The second the month of a clock reading ends. -/
def monthEnd (t : Time) : Int := monthEndOf t.civil.1 t.civil.2.1

end Time

/-! ### The March splitting of a day number -/

/-- The day number lies in era `era`, century `c` of it, four-year group `q` of that, year `t` of the
group, and is day `u` of the year that starts in March. -/
structure MarchSplit (days era c q t u : Int) : Prop where
  days_eq : days + 719468 = 146097 * era + (36524 * c + 1461 * q + 365 * t + u)
  c_bounds : 0 ≤ c ∧ c ≤ 3
  q_bounds : 0 ≤ q ∧ q ≤ 24
  t_bounds : 0 ≤ t ∧ t ≤ 3
  u_bounds : 0 ≤ u ∧ u ≤ 365
  leap_group : t < 3 → u ≤ 364
  leap_century : q = 24 → t = 3 → c < 3 → u ≤ 364

theorem exists_marchSplit (days : Int) : ∃ era c q t u, MarchSplit days era c q t u := by
  obtain ⟨era, hera⟩ : ∃ era, era = (days + 719468) / 146097 := ⟨_, rfl⟩
  obtain ⟨doe, hdoe⟩ : ∃ doe, doe = days + 719468 - 146097 * era := ⟨_, rfl⟩
  obtain ⟨c, hc⟩ : ∃ c : Int, 0 ≤ c ∧ c ≤ 3 ∧ 36524 * c ≤ doe ∧
      (doe < 36524 * (c + 1) ∨ c = 3) := by
    by_cases hlast : doe < 109572
    · exact ⟨doe / 36524, by omega⟩
    · exact ⟨3, by omega⟩
  obtain ⟨q, hq⟩ : ∃ q : Int, q = (doe - 36524 * c) / 1461 := ⟨_, rfl⟩
  obtain ⟨s, hs⟩ : ∃ s : Int, s = doe - 36524 * c - 1461 * q := ⟨_, rfl⟩
  -- The leap day of a four-year group would make a fifth year of one day.
  by_cases hleap : s = 1460
  · exact ⟨era, c, q, 3, 365, by constructor <;> omega⟩
  · exact ⟨era, c, q, s / 365, s % 365, by constructor <;> omega⟩

namespace MarchSplit

variable {days era c q t u : Int}

theorem doe_bounds (h : MarchSplit days era c q t u) :
    1461 * q + 365 * t + u ≤ 36523 ∨ 1461 * q + 365 * t + u = 36524 ∧ c = 3 := by
  obtain ⟨-, hc, hq, ht, hu, hgroup, hcentury⟩ := h
  by_cases hq' : q = 24
  · by_cases ht' : t = 3
    · by_cases hc' : c = 3 <;> omega
    · omega
  · omega

theorem era_eq (h : MarchSplit days era c q t u) : (days + 719468) / 146097 = era := by
  have hdoe := h.doe_bounds
  obtain ⟨hdays, hc, hq, ht, hu, -, -⟩ := h
  omega

/-- The correction terms of `yoe` cancel the leap days of the centuries and groups before. -/
theorem yoe_eq (h : MarchSplit days era c q t u) :
    let doe := 36524 * c + 1461 * q + 365 * t + u
    (doe - doe / 1460 + doe / 36524 - doe / 146096) / 365 = 100 * c + 4 * q + t := by
  intro doe
  have hdoe := h.doe_bounds
  obtain ⟨-, hc, hq, ht, hu, hgroup, hcentury⟩ := h
  have hyears : doe / 1460 = 25 * c + q + (if 24 * c + q + 365 * t + u ≥ 1460 then 1 else 0) := by
    split <;> omega
  have hcenturies : doe / 36524 - doe / 146096 = c := by
    rcases hdoe with hdoe | ⟨hdoe, rfl⟩
    · have : doe / 36524 = c := by omega
      have : doe / 146096 = 0 := by omega
      omega
    · omega
  have hsum : doe - doe / 1460 + doe / 36524 - doe / 146096 =
      365 * (100 * c + 4 * q + t) + u - (if 24 * c + q + 365 * t + u ≥ 1460 then 1 else 0) := by
    omega
  rw [hsum]
  split <;> omega

theorem leapDays_eq (h : MarchSplit days era c q t u) :
    365 * (100 * c + 4 * q + t) + (100 * c + 4 * q + t) / 4 - (100 * c + 4 * q + t) / 100 =
      36524 * c + 1461 * q + 365 * t := by
  obtain ⟨-, hc, hq, ht, -, -, -⟩ := h
  omega

theorem civilFromDays_eq (h : MarchSplit days era c q t u) :
    civilFromDays days =
      let mp := (5 * u + 2) / 153
      let m := if mp ≥ 10 then mp - 9 else mp + 3
      let y := 100 * c + 4 * q + t + era * 400
      (if m ≤ 2 then y + 1 else y, m, u - (153 * mp + 2) / 5 + 1) := by
  have hera := h.era_eq
  have hdoe : days + 719468 - era * 146097 = 36524 * c + 1461 * q + 365 * t + u := by
    have := h.days_eq
    omega
  have hyoe := h.yoe_eq
  have hdoy : 36524 * c + 1461 * q + 365 * t + u -
      (365 * (100 * c + 4 * q + t) + (100 * c + 4 * q + t) / 4 - (100 * c + 4 * q + t) / 100) =
      u := by
    rw [h.leapDays_eq]
    ring
  simp only at hyoe
  simp only [civilFromDays, hera, hdoe, hyoe, hdoy]

end MarchSplit

/-! ### Months

A month is named by its March year and its place `mp` in it, March being 0. -/

def civilMonth (mp : Int) : Int := if mp ≥ 10 then mp - 9 else mp + 3

/-- The civil year of the month at place `mp` of the March year `y`. -/
def civilYear (y mp : Int) : Int := if civilMonth mp ≤ 2 then y + 1 else y

theorem daysFromCivil_march {y mp : Int} (hmp : 0 ≤ mp) (hmp' : mp ≤ 11) (d : Int) :
    daysFromCivil (civilYear y mp) (civilMonth mp) d =
      y / 400 * 146097 + ((y - y / 400 * 400) * 365 + (y - y / 400 * 400) / 4
        - (y - y / 400 * 400) / 100 + ((153 * mp + 2) / 5 + d - 1)) - 719468 := by
  by_cases hwinter : mp ≥ 10
  · have hmonth : civilMonth mp = mp - 9 := if_pos hwinter
    have hyear : civilYear y mp = y + 1 := if_pos (by omega)
    have hplace : mp - 9 + 9 = mp := by ring
    have hback : y + 1 - 1 = y := by ring
    simp only [daysFromCivil, hmonth, hyear, if_pos (show mp - 9 ≤ 2 by omega), hplace, hback]
  · have hmonth : civilMonth mp = mp + 3 := if_neg hwinter
    have hyear : civilYear y mp = y := if_neg (by omega)
    have hplace : mp + 3 - 3 = mp := by ring
    simp only [daysFromCivil, hmonth, hyear, if_neg (show ¬ mp + 3 ≤ 2 by omega), hplace]

/-- February ends a March year; every other month is followed by the next of the same year. -/
theorem nextMonth_march {y mp : Int} (hmp : 0 ≤ mp) (hmp' : mp ≤ 11) :
    nextMonth (civilYear y mp) (civilMonth mp) =
      if mp = 11 then (civilYear (y + 1) 0, civilMonth 0)
      else (civilYear y (mp + 1), civilMonth (mp + 1)) := by
  obtain rfl | rfl | rfl | hsummer : mp = 11 ∨ mp = 10 ∨ mp = 9 ∨ mp < 9 := by omega
  · rfl
  · rfl
  · rfl
  · have hmonth : civilMonth mp = mp + 3 := if_neg (by omega)
    have hnext : civilMonth (mp + 1) = mp + 3 + 1 := by
      rw [civilMonth, if_neg (by omega)]
      ring
    have hyear : civilYear y mp = y := if_neg (by omega)
    have hnextYear : civilYear y (mp + 1) = y := if_neg (by omega)
    rw [nextMonth, if_neg (by omega), if_neg (by omega), hmonth, hnext, hyear, hnextYear]

/-- The first day of the month at place `mp` of the March year `y`. -/
def marchStart (y mp : Int) : Int := daysFromCivil (civilYear y mp) (civilMonth mp) 1

/-- The first day of the month after it. -/
def marchNext (y mp : Int) : Int := if mp = 11 then marchStart (y + 1) 0 else marchStart y (mp + 1)

theorem exists_march (days : Int) :
    ∃ y mp, 0 ≤ mp ∧ mp ≤ 11 ∧ (civilFromDays days).1 = civilYear y mp ∧
      (civilFromDays days).2.1 = civilMonth mp ∧ marchStart y mp ≤ days ∧
      days < marchNext y mp ∧ (0 ≤ days → 1969 ≤ y) := by
  obtain ⟨era, c, q, t, u, h⟩ := exists_marchSplit days
  have hdoe := h.doe_bounds
  have hcivil := h.civilFromDays_eq
  obtain ⟨hdays, hc, hq, ht, hu, hgroup, hcentury⟩ := h
  obtain ⟨mp, hmp⟩ : ∃ mp, mp = (5 * u + 2) / 153 := ⟨_, rfl⟩
  obtain ⟨yoe, hyoe⟩ : ∃ yoe, yoe = 100 * c + 4 * q + t := ⟨_, rfl⟩
  simp only [← hmp, ← hyoe] at hcivil
  have hera : (yoe + era * 400) / 400 = era := by omega
  refine ⟨yoe + era * 400, mp, by omega, by omega, by rw [hcivil]; rfl, by rw [hcivil]; rfl, ?_, ?_,
    by omega⟩
  · rw [marchStart, daysFromCivil_march (by omega) (by omega), hera]
    omega
  unfold marchNext marchStart
  split
  · rw [daysFromCivil_march (by omega) (by omega)]
    -- The next March year opens a new era after year 399.
    by_cases hlast : yoe = 399
    · have hnext : (yoe + era * 400 + 1) / 400 = era + 1 := by omega
      rw [hnext]
      omega
    · have hnext : (yoe + era * 400 + 1) / 400 = era := by omega
      rw [hnext]
      omega
  · rw [daysFromCivil_march (by omega) (by omega), hera]
    omega

theorem civil_month_bounds (days : Int) :
    1 ≤ (civilFromDays days).2.1 ∧ (civilFromDays days).2.1 ≤ 12 := by
  obtain ⟨y, mp, hmp, hmp', -, hmonth, -, -, -⟩ := exists_march days
  rw [hmonth, civilMonth]
  split <;> omega

theorem civil_year_pos {days : Int} (hdays : 0 ≤ days) : 1 ≤ (civilFromDays days).1 := by
  obtain ⟨y, mp, -, -, hyear, -, -, -, hepoch⟩ := exists_march days
  have hy := hepoch hdays
  rw [hyear, civilYear]
  split <;> omega

/-- The month a day lies in ends after that day. -/
theorem lt_daysFromCivil_nextMonth (days : Int) :
    days < daysFromCivil (nextMonth (civilFromDays days).1 (civilFromDays days).2.1).1
      (nextMonth (civilFromDays days).1 (civilFromDays days).2.1).2 1 := by
  obtain ⟨y, mp, hmp, hmp', hyear, hmonth, -, hlt, -⟩ := exists_march days
  rw [hyear, hmonth, nextMonth_march hmp hmp']
  unfold marchNext at hlt
  split
  · rwa [if_pos ‹_›] at hlt
  · rwa [if_neg ‹_›] at hlt

/-- A month ends before a later one starts. -/
theorem marchNext_le {y y' mp mp' : Int} (hmp : 0 ≤ mp) (hmp' : mp ≤ 11) (hlow : 0 ≤ mp')
    (hhigh : mp' ≤ 11) (hlt : y < y' ∨ y = y' ∧ mp < mp') : marchNext y mp ≤ marchStart y' mp' := by
  have hstart (y mp : Int) (hmp : 0 ≤ mp) (hmp' : mp ≤ 11) := daysFromCivil_march (y := y) hmp hmp' 1
  unfold marchNext marchStart
  rw [hstart y' mp' hlow hhigh]
  split
  · rw [hstart (y + 1) 0 (by decide) (by decide)]
    omega
  · rw [hstart y (mp + 1) (by omega) (by omega)]
    omega

/-- Months do not overlap. -/
theorem march_unique {y y' mp mp' day : Int} (hmp : 0 ≤ mp ∧ mp ≤ 11) (hmp' : 0 ≤ mp' ∧ mp' ≤ 11)
    (hstart : marchStart y mp ≤ day) (hend : day < marchNext y mp)
    (hstart' : marchStart y' mp' ≤ day) (hend' : day < marchNext y' mp') : y' = y ∧ mp' = mp := by
  have hafter (hlt : y < y' ∨ y = y' ∧ mp < mp') : False := by
    have := marchNext_le hmp.1 hmp.2 hmp'.1 hmp'.2 hlt
    omega
  have hbefore (hlt : y' < y ∨ y' = y ∧ mp' < mp) : False := by
    have := marchNext_le hmp'.1 hmp'.2 hmp.1 hmp.2 hlt
    omega
  by_contra hne
  rcases lt_trichotomy y y' with hlt | heq | hlt
  · exact hafter (.inl hlt)
  · rcases lt_trichotomy mp mp' with hlt | hsame | hlt
    · exact hafter (.inr ⟨heq, hlt⟩)
    · exact hne ⟨heq.symm, hsame.symm⟩
    · exact hbefore (.inr ⟨heq.symm, hlt⟩)
  · exact hbefore (.inl hlt)

/-- A later day before the end of the month is in the month. -/
theorem civilMonth_until {first day : Int} (hfirst : first ≤ day)
    (hday : day < daysFromCivil (nextMonth (civilFromDays first).1 (civilFromDays first).2.1).1
      (nextMonth (civilFromDays first).1 (civilFromDays first).2.1).2 1) :
    (civilFromDays day).1 = (civilFromDays first).1 ∧
      (civilFromDays day).2.1 = (civilFromDays first).2.1 := by
  obtain ⟨y, mp, hmp, hmp', hyear, hmonth, hstart, -, -⟩ := exists_march first
  obtain ⟨z, np, hnp, hnp', hyear', hmonth', hstart', hend', -⟩ := exists_march day
  have hend : day < marchNext y mp := by
    rw [hyear, hmonth, nextMonth_march hmp hmp'] at hday
    unfold marchNext
    split
    · rwa [if_pos ‹_›] at hday
    · rwa [if_neg ‹_›] at hday
  obtain ⟨rfl, rfl⟩ :=
    march_unique ⟨hmp, hmp'⟩ ⟨hnp, hnp'⟩ (hstart.trans hfirst) hend hstart' hend'
  exact ⟨hyear'.trans hyear.symm, hmonth'.trans hmonth.symm⟩

/-- What lies between two days of a month is in that month. -/
theorem civilMonth_between {first day last : Int} (hfirst : first ≤ day) (hlast : day ≤ last)
    (hyear : (civilFromDays first).1 = (civilFromDays last).1)
    (hmonth : (civilFromDays first).2.1 = (civilFromDays last).2.1) :
    (civilFromDays day).1 = (civilFromDays last).1 ∧
      (civilFromDays day).2.1 = (civilFromDays last).2.1 := by
  have hend := lt_daysFromCivil_nextMonth last
  rw [← hyear, ← hmonth] at hend ⊢
  exact civilMonth_until hfirst (hlast.trans_lt hend)

theorem Time.sec_lt_monthEnd (t : Time) : (t.sec : Int) < t.monthEnd := by
  have hlt : (t.sec : Int) / 86400 < daysFromCivil (nextMonth t.civil.1 t.civil.2.1).1
      (nextMonth t.civil.1 t.civil.2.1).2 1 := lt_daysFromCivil_nextMonth _
  simp only [Time.monthEnd, monthEndOf]
  omega

theorem monthStrOf_inj {year year' month month' : Int} (hyear : 0 ≤ year) (hyear' : 0 ≤ year')
    (hmonth : 0 ≤ month) (hmonth' : 0 ≤ month')
    (h : monthStrOf year month = monthStrOf year' month') : year = year' ∧ month = month' := by
  obtain ⟨hleft, hright⟩ := Text.append_sep_inj (Text.sep_notMem_zeroPad (by decide) hyear)
    (Text.sep_notMem_zeroPad (by decide) hyear') h
  exact ⟨Text.zeroPad_injective hyear hyear' hleft, Text.zeroPad_injective hmonth hmonth' hright⟩

theorem Time.civil_nonneg (t : Time) : 0 ≤ t.civil.1 ∧ 0 ≤ t.civil.2.1 := by
  have hbounds := (civil_month_bounds ((t.sec : Int) / 86400)).1
  exact ⟨le_trans (by decide) (civil_year_pos (by omega)), le_trans (by decide) hbounds⟩

theorem Time.sep_notMem_monthStr (t : Time) : ':' ∉ t.monthStr.toList := by
  obtain ⟨hyear, hmonth⟩ := t.civil_nonneg
  rw [monthStr, monthStrOf, String.toList_append, String.toList_append, List.mem_append,
    List.mem_append, String.toList_singleton]
  rintro ((hmem | hmem) | hmem)
  · exact Text.sep_notMem_zeroPad (by decide) hyear hmem
  · exact absurd hmem (by decide)
  · exact Text.sep_notMem_zeroPad (by decide) hmonth hmem

theorem Time.civil_eq {t t' : Time} (h : t.monthStr = t'.monthStr) :
    t.civil.1 = t'.civil.1 ∧ t.civil.2.1 = t'.civil.2.1 :=
  monthStrOf_inj t.civil_nonneg.1 t'.civil_nonneg.1 t.civil_nonneg.2 t'.civil_nonneg.2 h

theorem Time.monthEnd_eq {t t' : Time} (h : t.monthStr = t'.monthStr) : t.monthEnd = t'.monthEnd := by
  obtain ⟨hyear, hmonth⟩ := Time.civil_eq h
  rw [Time.monthEnd, Time.monthEnd, monthEndOf, monthEndOf, hyear, hmonth]

theorem Time.monthStr_between {first now last : Time} (hfirst : first.sec ≤ now.sec)
    (hlast : now.sec ≤ last.sec) (h : first.monthStr = last.monthStr) :
    now.monthStr = last.monthStr := by
  obtain ⟨hyear, hmonth⟩ := Time.civil_eq h
  have hbegin : (first.sec : Int) / 86400 ≤ (now.sec : Int) / 86400 := by omega
  have hend : (now.sec : Int) / 86400 ≤ (last.sec : Int) / 86400 := by omega
  obtain ⟨hyear, hmonth⟩ := civilMonth_between hbegin hend hyear hmonth
  simp only [Time.monthStr, Time.civil, hyear, hmonth]

end QuotaGuard
