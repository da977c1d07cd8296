import Mathlib.Algebra.BigOperators.Intervals
import Mathlib.Algebra.Order.BigOperators.Group.Finset
import Mathlib.Data.List.Basic
import Mathlib.Tactic.IntervalCases

/-!
# The Gregorian calendar

Dates and times of day that exist, and how many days and seconds lie between a first year and a
moment, counted year by year and month by month.
-/

namespace ShadowMount.Foundation
namespace Calendar

/-- The rule of leap years. -/
def IsLeap (year : Nat) : Prop := year % 4 = 0 ∧ (year % 100 ≠ 0 ∨ year % 400 = 0)

instance : DecidablePred IsLeap := fun year =>
  inferInstanceAs (Decidable (year % 4 = 0 ∧ (year % 100 ≠ 0 ∨ year % 400 = 0)))

/-- The number of days of a year. -/
def daysInYear (year : Nat) : Nat := if IsLeap year then 366 else 365

/-- The number of days of a month. -/
def daysInMonth (year month : Nat) : Nat :=
  if month = 2 then if IsLeap year then 29 else 28
  else if month = 4 ∨ month = 6 ∨ month = 9 ∨ month = 11 then 30 else 31

/-- A date that exists. -/
structure Date where
  year : Nat
  month : Nat
  day : Nat
  month_pos : 1 ≤ month
  month_le : month ≤ 12
  day_pos : 1 ≤ day
  day_le : day ≤ daysInMonth year month

/-- A date and a time of day. -/
structure Moment extends Date where
  hour : Nat
  minute : Nat
  second : Nat
  hour_lt : hour < 24
  minute_lt : minute < 60
  second_lt : second < 60

theorem Date.day_le_31 (d : Date) : d.day ≤ 31 := by
  have hle := d.day_le
  unfold daysInMonth at hle
  split at hle
  · split at hle <;> omega
  · split at hle <;> omega

/-- The days from the first of one year to the first of another. -/
def daysBeforeYear (epoch year : Nat) : Nat := ∑ y ∈ Finset.Ico epoch year, daysInYear y

/-- The days of a year before a month. -/
def daysBeforeMonth (year month : Nat) : Nat := ∑ m ∈ Finset.Ico 1 month, daysInMonth year m

/-- The days of its year before a date. -/
def Date.dayOfYear (d : Date) : Nat := daysBeforeMonth d.year d.month + (d.day - 1)

/-- The days before a date, counted from a first year. -/
def Date.days (epoch : Nat) (d : Date) : Nat := daysBeforeYear epoch d.year + d.dayOfYear

/-- The seconds before a moment, counted from a first year. -/
def Moment.seconds (epoch : Nat) (m : Moment) : Nat :=
  m.days epoch * 86400 + m.hour * 3600 + m.minute * 60 + m.second

/-- A date by its parts, the year first. -/
def Date.parts (d : Date) : List Nat := [d.year, d.month, d.day]

/-- A moment by its parts, the year first. -/
def Moment.parts (m : Moment) : List Nat := m.toDate.parts ++ [m.hour, m.minute, m.second]

/-- The leap years among the first so many years. -/
def leapsThrough (n : Nat) : Nat := n / 4 - n / 100 + n / 400

theorem leapsThrough_cast (n : Nat) :
    (leapsThrough n : Int) = (n : Int) / 4 - n / 100 + n / 400 := by
  unfold leapsThrough
  omega

theorem leapsThrough_succ (n : Nat) :
    leapsThrough (n + 1) = leapsThrough n + if IsLeap (n + 1) then 1 else 0 := by
  unfold leapsThrough
  split
  next hleap =>
    unfold IsLeap at hleap
    omega
  next hleap =>
    unfold IsLeap at hleap
    omega

/-- The days of the first so many years. -/
theorem daysBeforeYear_one (n : Nat) : daysBeforeYear 1 (n + 1) = 365 * n + leapsThrough n := by
  induction n with
  | zero => rfl
  | succ n ih =>
    have hnext : daysBeforeYear 1 (n + 1 + 1) = daysBeforeYear 1 (n + 1) + daysInYear (n + 1) :=
      Finset.sum_Ico_succ_top (by omega) _
    rw [hnext, ih, leapsThrough_succ]
    unfold daysInYear
    split <;> omega

theorem daysBeforeYear_add {epoch year : Nat} (hfirst : 1 ≤ epoch) (hle : epoch ≤ year) :
    daysBeforeYear 1 epoch + daysBeforeYear epoch year = daysBeforeYear 1 year :=
  Finset.sum_Ico_consecutive _ hfirst hle

theorem daysBeforeMonth_thirteen (year : Nat) : daysBeforeMonth year 13 = daysInYear year := by
  simp only [daysBeforeMonth, Finset.sum_Ico_eq_sum_range, Finset.sum_range_succ,
    Finset.sum_range_zero, daysInMonth, daysInYear]
  by_cases hleap : IsLeap year
  · simp [hleap]
  · simp [hleap]

/-- The days of a year before a month: from March on the months repeat with 153 days for five of
them. -/
theorem daysBeforeMonth_eq (year : Nat) {month : Nat} (hpos : 1 ≤ month) (hle : month ≤ 12) :
    daysBeforeMonth year month =
      if month ≤ 2 then 31 * (month - 1)
      else (153 * (month - 3) + 2) / 5 + 59 + if IsLeap year then 1 else 0 := by
  interval_cases month
  all_goals
    simp only [daysBeforeMonth, Finset.sum_Ico_eq_sum_range, Finset.sum_range_succ,
      Finset.sum_range_zero, daysInMonth]
    by_cases hleap : IsLeap year
    · simp [hleap]
    · simp [hleap]

/-- A later year begins behind the days of an earlier one. -/
theorem daysBeforeYear_step {epoch year year' : Nat} (hepoch : epoch ≤ year) (h : year < year') :
    daysBeforeYear epoch year + daysInYear year ≤ daysBeforeYear epoch year' := by
  have hnext : daysBeforeYear epoch (year + 1) = daysBeforeYear epoch year + daysInYear year :=
    Finset.sum_Ico_succ_top hepoch _
  have hmono : daysBeforeYear epoch (year + 1) ≤ daysBeforeYear epoch year' :=
    Finset.sum_le_sum_of_subset (Finset.Ico_subset_Ico_right h)
  omega

/-- A later month begins behind the days of an earlier one. -/
theorem daysBeforeMonth_step (year : Nat) {month month' : Nat} (hpos : 1 ≤ month)
    (h : month < month') :
    daysBeforeMonth year month + daysInMonth year month ≤ daysBeforeMonth year month' := by
  have hnext : daysBeforeMonth year (month + 1) =
      daysBeforeMonth year month + daysInMonth year month :=
    Finset.sum_Ico_succ_top hpos _
  have hmono : daysBeforeMonth year (month + 1) ≤ daysBeforeMonth year month' :=
    Finset.sum_le_sum_of_subset (Finset.Ico_subset_Ico_right h)
  omega

theorem Date.dayOfYear_lt (d : Date) : d.dayOfYear < daysInYear d.year := by
  have hmonth : d.month < 13 := Nat.lt_succ_of_le d.month_le
  have hyear := daysBeforeMonth_step d.year d.month_pos hmonth
  have hpos := d.day_pos
  have hday := d.day_le
  rw [daysBeforeMonth_thirteen] at hyear
  unfold Date.dayOfYear
  omega

/-- A later date has more days before it. -/
theorem Date.days_lt {epoch : Nat} {d d' : Date} (hepoch : epoch ≤ d.year)
    (h : d.parts < d'.parts) : d.days epoch < d'.days epoch := by
  unfold Date.days
  simp only [Date.parts, List.cons_lt_cons_iff, List.not_lt_nil, and_false, or_false] at h
  rcases h with hyear | ⟨hyear, hmonth | ⟨hmonth, hday⟩⟩
  · have hstep := daysBeforeYear_step hepoch hyear
    have hlt := d.dayOfYear_lt
    omega
  · have hstep := daysBeforeMonth_step d.year d.month_pos hmonth
    have hpos := d.day_pos
    have hle := d.day_le
    rw [hyear] at hstep hle ⊢
    simp only [Date.dayOfYear, hyear]
    omega
  · have hpos := d.day_pos
    simp only [Date.dayOfYear, hyear, hmonth]
    omega

/-- A later moment has more seconds before it. -/
theorem Moment.seconds_lt {epoch : Nat} {m m' : Moment} (hepoch : epoch ≤ m.year)
    (h : m.parts < m'.parts) : m.seconds epoch < m'.seconds epoch := by
  have hhour := m.hour_lt
  have hminute := m.minute_lt
  have hsecond := m.second_lt
  have hlater : m.toDate.parts < m'.toDate.parts →
      m.days epoch < m'.days epoch := Date.days_lt hepoch
  have hsame : m.year = m'.year → m.month = m'.month → m.day = m'.day →
      m.days epoch = m'.days epoch := by
    intro hyear hmonth hday
    simp only [Date.days, Date.dayOfYear, hyear, hmonth, hday]
  unfold Moment.seconds
  simp only [Moment.parts, Date.parts, List.cons_append, List.nil_append, List.cons_lt_cons_iff,
    List.not_lt_nil, and_false, or_false] at h hlater
  rcases h with hyear | ⟨hyear, hmonth | ⟨hmonth, hday | ⟨hday, htime⟩⟩⟩
  · have hdays := hlater (.inl hyear)
    omega
  · have hdays := hlater (.inr ⟨hyear, .inl hmonth⟩)
    omega
  · have hdays := hlater (.inr ⟨hyear, .inr ⟨hmonth, hday⟩⟩)
    omega
  · have hdays := hsame hyear hmonth hday
    omega

end Calendar
end ShadowMount.Foundation
