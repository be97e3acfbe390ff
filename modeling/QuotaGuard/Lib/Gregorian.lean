import Mathlib.Algebra.BigOperators.Group.Finset.Basic
import Mathlib.Algebra.Order.Ring.Int
import Mathlib.Tactic.IntervalCases

/-!
# The proleptic Gregorian calendar

Dates of the calendar continued over all years, before its introduction and below year 1. A month has
its length, a date its successor, and the ordinal of a date counts the days from the first of January
of year 1, which is day 1.
-/

namespace Gregorian

/-- A year, a month and a day, not necessarily of the calendar. -/
@[ext] structure Date where
  year : Int
  month : Int
  day : Int
  deriving DecidableEq

/-- Every fourth year, except the centuries that four does not divide. -/
def IsLeap (year : Int) : Prop := 4 ∣ year ∧ (¬ 100 ∣ year ∨ 400 ∣ year)

instance (year : Int) : Decidable (IsLeap year) := inferInstanceAs (Decidable (_ ∧ _))

def monthLength (year month : Int) : Int :=
  if month = 2 then if IsLeap year then 29 else 28
  else if month = 4 ∨ month = 6 ∨ month = 9 ∨ month = 11 then 30 else 31

theorem four_weeks_le_monthLength (year month : Int) : 28 ≤ monthLength year month := by
  unfold monthLength
  split
  · split <;> decide
  · split <;> decide

theorem one_le_monthLength (year month : Int) : 1 ≤ monthLength year month :=
  le_trans (by decide) (four_weeks_le_monthLength year month)

def daysBeforeYear (year : Int) : Int :=
  365 * (year - 1) + (year - 1) / 4 - (year - 1) / 100 + (year - 1) / 400

def daysBeforeMonth (year month : Int) : Int :=
  ∑ m ∈ Finset.range (month - 1).toNat, monthLength year (m + 1)

namespace Date

structure Valid (d : Date) : Prop where
  month : 1 ≤ d.month ∧ d.month ≤ 12
  day : 1 ≤ d.day ∧ d.day ≤ monthLength d.year d.month

/-- The next day. -/
def next (d : Date) : Date :=
  if d.day < monthLength d.year d.month then ⟨d.year, d.month, d.day + 1⟩
  else if d.month < 12 then ⟨d.year, d.month + 1, 1⟩
  else ⟨d.year + 1, 1, 1⟩

def ordinal (d : Date) : Int := daysBeforeYear d.year + daysBeforeMonth d.year d.month + d.day

theorem Valid.next {d : Date} (h : d.Valid) : d.next.Valid := by
  obtain ⟨hmonth, hday⟩ := h
  unfold Date.next
  split
  · exact ⟨hmonth, by constructor <;> simp only <;> omega⟩
  split
  · exact ⟨by constructor <;> simp only <;> omega, le_rfl, one_le_monthLength _ _⟩
  · exact ⟨⟨le_rfl, show (1 : Int) ≤ 12 by decide⟩, le_rfl, one_le_monthLength _ _⟩

/-- The order of the calendar. -/
def Before (d d' : Date) : Prop :=
  d.year < d'.year ∨ d.year = d'.year ∧ (d.month < d'.month ∨ d.month = d'.month ∧ d.day < d'.day)

theorem Before.trans {d d' d'' : Date} (h : d.Before d') (h' : d'.Before d'') : d.Before d'' := by
  unfold Before at h h' ⊢
  omega

theorem before_next (d : Date) : d.Before d.next := by
  unfold Before Date.next
  split
  · exact .inr ⟨rfl, .inr ⟨rfl, Int.lt_succ _⟩⟩
  · split
    · exact .inr ⟨rfl, .inl (Int.lt_succ _)⟩
    · exact .inl (Int.lt_succ _)

end Date

end Gregorian
