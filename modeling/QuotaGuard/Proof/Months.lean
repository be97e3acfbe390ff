import QuotaGuard.Proof.Calendar
import QuotaGuard.Proof.Trace
import QuotaGuard.Service.Headers
import Mathlib.Data.String.Basic

/-!
# Months partition time

A month lasts from its first second to the one before the month end the script computes; at the month
end the next one begins, and the texts of the months are in the order of time. Python reads the same
month from the text: the same end, and a length that no reset exceeds.
-/

namespace QuotaGuard

open Gregorian

/-! ### Timestamps -/

/-- `datetime(year, month, day, tzinfo=UTC).timestamp()`. -/
def timestamp (d : Date) : Int := (d.ordinal - (⟨1970, 1, 1⟩ : Date).ordinal) * 86400

theorem daysBeforeMonth_eq {month : Int} (hmonth : 1 ≤ month ∧ month ≤ 12) (year : Int) :
    daysBeforeMonth year month =
      if month ≤ 2 then 31 * (month - 1)
      else (153 * (month - 3) + 2) / 5 + 59 + if IsLeap year then 1 else 0 := by
  obtain ⟨hlow, hhigh⟩ := hmonth
  have hfebruary : monthLength year 2 = 28 + if IsLeap year then 1 else 0 := by
    show (if IsLeap year then 29 else 28) = _
    split <;> rfl
  interval_cases month <;>
    simp [daysBeforeMonth, Finset.sum_range_succ, hfebruary] <;> simp [monthLength] <;> omega

/-- The helpers of the script count the days between two ordinals of the calendar. -/
theorem daysFromCivil_eq_ordinal {year month : Int} (hmonth : 1 ≤ month ∧ month ≤ 12) (day : Int) :
    daysFromCivil year month day =
      (⟨year, month, day⟩ : Date).ordinal - (⟨1970, 1, 1⟩ : Date).ordinal := by
  have hepoch : (⟨1970, 1, 1⟩ : Date).ordinal = 719163 := rfl
  rw [hepoch, Date.ordinal, daysBeforeMonth_eq hmonth, daysBeforeYear]
  simp only [daysFromCivil]
  by_cases hwinter : month ≤ 2
  · simp only [if_pos hwinter]
    omega
  · simp only [if_neg hwinter]
    by_cases hleap : IsLeap year
    · rw [if_pos hleap]
      have hfour : 4 ∣ year ∧ (¬ 100 ∣ year ∨ 400 ∣ year) := hleap
      omega
    · rw [if_neg hleap]
      have hfour : ¬ (4 ∣ year ∧ (¬ 100 ∣ year ∨ 400 ∣ year)) := hleap
      omega

theorem nextMonth_bounds (year : Int) {month : Int} (hmonth : 1 ≤ month ∧ month ≤ 12) :
    (1 ≤ (nextMonth year month).2 ∧ (nextMonth year month).2 ≤ 12) ∧
      year ≤ (nextMonth year month).1 ∧ (nextMonth year month).1 ≤ year + 1 := by
  unfold nextMonth
  split <;> simp only <;> omega

/-- The month ends where the first of the next one begins. -/
theorem monthEndOf_eq_timestamp {year month : Int} (hmonth : 1 ≤ month ∧ month ≤ 12) :
    monthEndOf year month =
      timestamp ⟨(nextMonth year month).1, (nextMonth year month).2, 1⟩ := by
  rw [monthEndOf, daysFromCivil_eq_ordinal (nextMonth_bounds year hmonth).1, timestamp]

/-! ### The seconds of a month -/

namespace Time

variable {t t' : Time}

theorem civil_until (hle : t.sec ≤ t'.sec) (hlt : (t'.sec : Int) < t.monthEnd) :
    t'.civil.1 = t.civil.1 ∧ t'.civil.2.1 = t.civil.2.1 := by
  apply civilMonth_until
  · omega
  · simp only [monthEnd, monthEndOf] at hlt
    exact Int.ediv_lt_of_lt_mul (by decide) hlt

theorem monthStr_until (hle : t.sec ≤ t'.sec) (hlt : (t'.sec : Int) < t.monthEnd) :
    t'.monthStr = t.monthStr := by
  obtain ⟨hyear, hmonth⟩ := civil_until hle hlt
  rw [monthStr, monthStr, hyear, hmonth]

theorem civil_month_bounds (t : Time) : 1 ≤ t.civil.2.1 ∧ t.civil.2.1 ≤ 12 :=
  QuotaGuard.civil_month_bounds _

theorem civil_of_first {next : Int × Int} (hmonth : 1 ≤ next.2 ∧ next.2 ≤ 12)
    (hdays : (t'.sec : Int) / 86400 = daysFromCivil next.1 next.2 1) :
    t'.civil.1 = next.1 ∧ t'.civil.2.1 = next.2 := by
  have hvalid : (⟨next.1, next.2, 1⟩ : Date).Valid := ⟨hmonth, le_rfl, one_le_monthLength _ _⟩
  have hcivil := civilFromDays_daysFromCivil hvalid
  simp only at hcivil
  rw [civil, hdays, hcivil]
  exact ⟨rfl, rfl⟩

/-- At its end a month is followed by the next one. -/
theorem civil_monthEnd (h : (t'.sec : Int) = t.monthEnd) :
    t'.civil.1 = (nextMonth t.civil.1 t.civil.2.1).1 ∧
      t'.civil.2.1 = (nextMonth t.civil.1 t.civil.2.1).2 := by
  apply civil_of_first (nextMonth_bounds _ t.civil_month_bounds).1
  rw [h, monthEnd, monthEndOf, Int.mul_ediv_cancel _ (by decide)]

/-- What lies at or after the end of a month is in a later month. -/
theorem civil_lt_of_monthEnd_le (h : t.monthEnd ≤ t'.sec) :
    t.civil.1 < t'.civil.1 ∨ t.civil.1 = t'.civil.1 ∧ t.civil.2.1 < t'.civil.2.1 := by
  obtain ⟨y, mp, hmp, hmp', hyear, hmonth, hstart, -, -⟩ := exists_march ((t.sec : Int) / 86400)
  obtain ⟨y', np, hnp, hnp', hyear', hmonth', -, hend', -⟩ := exists_march ((t'.sec : Int) / 86400)
  have hnext : marchNext y mp ≤ (t'.sec : Int) / 86400 := by
    rw [Int.le_ediv_iff_mul_le (by decide)]
    refine le_trans (le_of_eq ?_) h
    rw [monthEnd, monthEndOf, civil, hyear, hmonth, nextMonth_march hmp hmp', marchNext]
    split <;> rfl
  have horder : y < y' ∨ y = y' ∧ mp < np := by
    by_contra hnot
    by_cases hsame : y = y' ∧ mp = np
    · obtain ⟨rfl, rfl⟩ := hsame
      omega
    · have hback := marchNext_le hnp hnp' hmp hmp' (show y' < y ∨ y' = y ∧ np < mp by omega)
      have hlate := t.sec_lt_monthEnd
      omega
  rw [civil, civil, hyear, hyear', hmonth, hmonth']
  unfold civilYear civilMonth
  split_ifs <;> omega

/-- What is left of a month is no longer than the month. -/
theorem monthEnd_sub_sec_le (t : Time) :
    t.monthEnd - t.sec ≤ monthLength t.civil.1 t.civil.2.1 * 86400 := by
  obtain ⟨hvalid, hdays⟩ := dateOf_spec ((t.sec : Int) / 86400)
  have hfirst : daysFromCivil t.civil.1 t.civil.2.1 t.civil.2.2 = (t.sec : Int) / 86400 := hdays
  have hday : 1 ≤ t.civil.2.2 := hvalid.day.1
  have hend : t.monthEnd =
      (daysFromCivil t.civil.1 t.civil.2.1 (monthLength t.civil.1 t.civil.2.1) + 1) * 86400 := by
    rw [monthEnd, monthEndOf, daysFromCivil_nextMonth _ t.civil_month_bounds]
  rw [daysFromCivil_first] at hfirst hend
  rw [hend]
  omega

end Time

/-! ### The texts of months -/

theorem monthStrOf_toList {year month : Int} (hyear : 0 ≤ year) (hmonth : 0 ≤ month) :
    (monthStrOf year month).toList =
      (Text.pad 4 year.natAbs).toList ++ '-' :: (Text.pad 2 month.natAbs).toList := by
  rw [monthStrOf, Text.zeroPad_of_nonneg hyear, Text.zeroPad_of_nonneg hmonth, String.toList_append,
    String.toList_append, String.toList_singleton, List.append_assoc, List.singleton_append]

/-- Texts of months with a year of four digits are ordered as the months are. -/
theorem monthStrOf_lt_iff {year year' month month' : Int} (hyear : 0 ≤ year ∧ year ≤ 9999)
    (hyear' : 0 ≤ year' ∧ year' ≤ 9999) (hmonth : 1 ≤ month ∧ month ≤ 12)
    (hmonth' : 1 ≤ month' ∧ month' ≤ 12) :
    monthStrOf year month < monthStrOf year' month' ↔
      year < year' ∨ year = year' ∧ month < month' := by
  have hlength : (Text.pad 4 year.natAbs).toList.length = (Text.pad 4 year'.natAbs).toList.length :=
    (Text.length_pad (by decide) (by omega)).trans (Text.length_pad (by decide) (by omega)).symm
  have hsame : (Text.pad 4 year.natAbs).toList = (Text.pad 4 year'.natAbs).toList ↔ year = year' := by
    constructor
    · intro h
      have := Text.pad_injective (String.toList_injective h)
      omega
    · rintro rfl
      rfl
  rw [String.lt_iff_toList_lt, monthStrOf_toList hyear.1 (by omega),
    monthStrOf_toList hyear'.1 (by omega), Text.append_lt_append_iff hlength, hsame,
    Text.pad_lt_pad_iff (by decide) (by omega) (by omega), List.cons_lt_cons_iff,
    Text.pad_lt_pad_iff (by decide) (by omega) (by omega)]
  simp only [Char.lt_irrefl, false_or, true_and]
  omega

theorem int_pad (width n : Nat) : int (Text.pad width n).toList = some (n : Int) := by
  rw [int_digits (fun _ => Text.isDigit_of_mem_pad), Text.value_pad]
  intro hempty
  rw [Text.toList_pad, List.append_eq_nil_iff] at hempty
  exact absurd hempty.2 Nat.toDigits_ne_nil

theorem monthWindowSeconds_monthStrOf {year month : Int} (hyear : 0 ≤ year)
    (hmonth : 1 ≤ month ∧ month ≤ 12) :
    monthWindowSeconds (monthStrOf year month) = .ok (monthLength year month * 86400) := by
  have hsep (width n : Nat) : '-' ∉ (Text.pad width n).toList := fun hmem =>
    absurd (Text.isDigit_of_mem_pad hmem) (by decide)
  have hparts : ∀ part ∈ [(Text.pad 4 year.natAbs).toList, (Text.pad 2 month.natAbs).toList],
      '-' ∉ part := by
    intro part hpart
    simp only [List.mem_cons, List.not_mem_nil, or_false] at hpart
    rcases hpart with rfl | rfl
    · exact hsep 4 _
    · exact hsep 2 _
  have hsplit : (monthStrOf year month).toList.splitOn '-' =
      [(Text.pad 4 year.natAbs).toList, (Text.pad 2 month.natAbs).toList] := by
    rw [← List.splitOn_intercalate '-' hparts (by simp), List.intercalate_cons_cons,
      List.intercalate_singleton, List.append_assoc, List.singleton_append,
      ← monthStrOf_toList hyear (by omega)]
  have hnumbers : ((monthStrOf year month).toList.splitOn '-').map int = [some year, some month] := by
    rw [hsplit, List.map_cons, List.map_cons, List.map_nil, int_pad, int_pad,
      Int.natAbs_of_nonneg hyear, Int.natAbs_of_nonneg (by omega)]
  rw [monthWindowSeconds, hnumbers]
  exact if_pos hmonth

/-- Python reads the year and the month back from a text of four digits and two. -/
theorem monthEndOfText_eq {year month : Int} (hyear : 0 ≤ year ∧ year ≤ 9999)
    (hmonth : 1 ≤ month ∧ month ≤ 12) :
    monthEndOfText (monthStrOf year month) = monthEndSeconds year month := by
  have hlength : (Text.pad 4 year.natAbs).toList.length = 4 :=
    Text.length_pad (by decide) (by omega)
  have hlength' : (Text.pad 2 month.natAbs).toList.length = 2 :=
    Text.length_pad (by decide) (by omega)
  have hleft : (monthStrOf year month).toList.take 4 = (Text.pad 4 year.natAbs).toList := by
    rw [monthStrOf_toList (by omega) (by omega), List.take_left' hlength]
  have hright : ((monthStrOf year month).toList.drop 5).take 2 = (Text.pad 2 month.natAbs).toList := by
    rw [monthStrOf_toList (by omega) (by omega), List.drop_append, hlength,
      List.drop_of_length_le (hlength.trans_le (by decide)), List.nil_append, List.drop_succ_cons,
      List.drop_zero, List.take_of_length_le hlength'.le]
  simp only [monthEndOfText, hleft, hright, int_pad, Int.natAbs_of_nonneg hyear.1,
    Int.natAbs_of_nonneg (show 0 ≤ month by omega), Option.bind_eq_bind, Option.bind_some]

/-- Where Python finds an end of the month, it is the one the script computes. -/
theorem monthEndSeconds_eq {year month : Int} (hmonth : 1 ≤ month ∧ month ≤ 12) :
    monthEndSeconds year month =
      if 1 ≤ (nextMonth year month).1 ∧ (nextMonth year month).1 ≤ 9999 then
        some (monthEndOf year month)
      else none := by
  have hbounds := nextMonth_bounds year hmonth
  have hnext : (if month = 12 then (year + 1, 1) else (year, month + 1)) = nextMonth year month := by
    unfold nextMonth
    split_ifs <;> first | rfl | omega
  simp only [monthEndSeconds, hnext, hbounds.1, and_self, and_true]
  rfl

theorem monthEndOfText_monthStrOf {year month : Int} (hyear : 1 ≤ year ∧ year ≤ 9998)
    (hmonth : 1 ≤ month ∧ month ≤ 12) :
    monthEndOfText (monthStrOf year month) = some (monthEndOf year month) := by
  have hbounds := nextMonth_bounds year hmonth
  rw [monthEndOfText_eq (by omega) hmonth, monthEndSeconds_eq hmonth, if_pos (by omega)]

/-- Python reads no other end from a text of a month of the script. -/
theorem Time.monthEnd_of_text {t : Time} {monthEnd : Int} (hyear : t.civil.1 ≤ 9999)
    (h : monthEndOfText t.monthStr = some monthEnd) : monthEnd = t.monthEnd := by
  rw [monthStr, monthEndOfText_eq ⟨t.civil_nonneg.1, hyear⟩ t.civil_month_bounds,
    monthEndSeconds_eq t.civil_month_bounds] at h
  split at h
  · exact (Option.some.inj h).symm
  · cases h

namespace Time

variable {t t' : Time}

theorem monthStr_lt_iff (hyear : t.civil.1 ≤ 9999) (hyear' : t'.civil.1 ≤ 9999) :
    t.monthStr < t'.monthStr ↔
      t.civil.1 < t'.civil.1 ∨ t.civil.1 = t'.civil.1 ∧ t.civil.2.1 < t'.civil.2.1 :=
  monthStrOf_lt_iff ⟨t.civil_nonneg.1, hyear⟩ ⟨t'.civil_nonneg.1, hyear'⟩ t.civil_month_bounds
    t'.civil_month_bounds

/-- The order of the texts is the order of time. -/
theorem monthStr_lt_iff_monthEnd_le (hyear : t.civil.1 ≤ 9999) (hyear' : t'.civil.1 ≤ 9999) :
    t.monthStr < t'.monthStr ↔ t.monthEnd ≤ t'.sec := by
  refine ⟨fun hlt => ?_, fun hle => (monthStr_lt_iff hyear hyear').mpr (civil_lt_of_monthEnd_le hle)⟩
  by_contra hopen
  rw [not_le] at hopen
  by_cases hlater : t.sec ≤ t'.sec
  · rw [monthStr_until hlater hopen] at hlt
    exact absurd hlt (lt_irrefl _)
  by_cases hclosed : t'.monthEnd ≤ t.sec
  · have hback := (monthStr_lt_iff hyear' hyear).mpr (civil_lt_of_monthEnd_le hclosed)
    exact absurd (hlt.trans hback) (lt_irrefl _)
  · rw [monthStr_until (not_le.mp hlater).le (not_le.mp hclosed)] at hlt
    exact absurd hlt (lt_irrefl _)

/-- No month of four digits has a text between those of a month and the next one. -/
theorem monthStr_monthEnd_le {year month : Int} (hyear : t.civil.1 ≤ 9998)
    (hend : (t'.sec : Int) = t.monthEnd) (hyear' : 0 ≤ year ∧ year ≤ 9999)
    (hmonth : 1 ≤ month ∧ month ≤ 12) (hlt : t.monthStr < monthStrOf year month) :
    t'.monthStr ≤ monthStrOf year month := by
  obtain ⟨hnext, hnext'⟩ := civil_monthEnd hend
  have hbounds := t.civil_month_bounds
  have hlow := t.civil_nonneg.1
  rw [monthStr, monthStrOf_lt_iff ⟨hlow, by omega⟩ hyear' hbounds hmonth] at hlt
  have hfits := nextMonth_bounds t.civil.1 hbounds
  rw [← hnext, ← hnext'] at hfits
  rw [← not_lt, monthStr, monthStrOf_lt_iff hyear' ⟨by omega, by omega⟩ hmonth hfits.1, hnext, hnext']
  unfold nextMonth
  split <;> simp only <;> omega

end Time

/-- **Months partition time, and Python agrees.** -/
theorem months_partition_time {t : Time} (hyear : t.civil.1 ≤ 9998) :
    (t.sec : Int) < t.monthEnd ∧
    (∀ t' : Time, t.sec ≤ t'.sec → (t'.sec : Int) < t.monthEnd →
      t'.monthStr = t.monthStr ∧ t'.monthEnd = t.monthEnd) ∧
    (∀ t' : Time, (t'.sec : Int) = t.monthEnd → t.monthStr < t'.monthStr ∧
      ∀ year month, 0 ≤ year ∧ year ≤ 9999 → 1 ≤ month ∧ month ≤ 12 →
        t.monthStr < monthStrOf year month → t'.monthStr ≤ monthStrOf year month) ∧
    (∀ t' : Time, t'.civil.1 ≤ 9999 → (t.monthStr < t'.monthStr ↔ t.monthEnd ≤ t'.sec)) ∧
    (∃ window, monthWindowSeconds t.monthStr = .ok window ∧
      ∀ argv v tokens count newUsed softCrossed oldest,
        1 ≤ (report argv t v tokens count newUsed softCrossed oldest).qReset ∧
        (report argv t v tokens count newUsed softCrossed oldest).qReset ≤ window) ∧
    monthEndOfText t.monthStr = some t.monthEnd ∧
    t.monthEnd = timestamp
      ⟨(nextMonth t.civil.1 t.civil.2.1).1, (nextMonth t.civil.1 t.civil.2.1).2, 1⟩ := by
  have hbounds := t.civil_month_bounds
  have hpos : 1 ≤ t.civil.1 := civil_year_pos (by omega)
  have hend := t.sec_lt_monthEnd
  refine ⟨hend, fun t' hle hlt => ?_, fun t' hat => ⟨?_, fun year month hyear' hmonth hlt => ?_⟩,
    fun t' hyear' => Time.monthStr_lt_iff_monthEnd_le (by omega) hyear', ?_, ?_,
    monthEndOf_eq_timestamp hbounds⟩
  · have hsame := Time.monthStr_until hle hlt
    exact ⟨hsame, Time.monthEnd_eq hsame⟩
  · obtain ⟨hnext, -⟩ := Time.civil_monthEnd hat
    have hfits := (nextMonth_bounds t.civil.1 hbounds).2.2
    exact (Time.monthStr_lt_iff_monthEnd_le (by omega) (by omega)).mpr hat.ge
  · exact Time.monthStr_monthEnd_le hyear hat hyear' hmonth hlt
  · refine ⟨_, monthWindowSeconds_monthStrOf (by omega) hbounds, fun _ _ _ _ _ _ _ => ⟨?_, ?_⟩⟩
    · show 1 ≤ t.monthEnd - t.sec
      omega
    · exact t.monthEnd_sub_sec_le
  · exact monthEndOfText_monthStrOf ⟨hpos, hyear⟩ hbounds

/-- The first month ends after thirty-one days. -/
theorem months_partition_time_sample :
    (sampleTime 0).monthStr = "1970-01" ∧
      monthEndOfText (sampleTime 0).monthStr = some 2678400 := by
  have hend := (months_partition_time (t := sampleTime 0) (by decide +kernel)).2.2.2.2.2.1
  have hseconds : (sampleTime 0).monthEnd = 2678400 := by decide +kernel
  rw [hseconds] at hend
  exact ⟨by decide +kernel, hend⟩

end QuotaGuard
