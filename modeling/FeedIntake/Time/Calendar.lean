import FeedIntake.Total

/-! # The calendar

Dates of the years 1 to 9999 in the Gregorian calendar, extended backwards, and their day numbers
counted from the first of January of the year 1. A date is also found from a week of its year.
-/

namespace FeedIntake.Time

def isLeap (year : Nat) : Bool := year % 4 = 0 && (year % 100 ≠ 0 || year % 400 = 0)

def monthLengths (leap : Bool) : List Nat :=
  [31, if leap then 29 else 28, 31, 30, 31, 30, 31, 31, 30, 31, 30, 31]

def daysInYear (year : Nat) : Nat := if isLeap year then 366 else 365

theorem total_monthLengths (year : Nat) : total (monthLengths (isLeap year)) = daysInYear year := by
  unfold daysInYear
  cases isLeap year <;> decide

def daysInMonth (year month : Nat) : Nat :=
  if month = 0 then 0 else (monthLengths (isLeap year)).getD (month - 1) 0

def daysBeforeYear (year : Nat) : Nat :=
  let y := year - 1
  365 * y + y / 4 - y / 100 + y / 400

def daysBeforeMonth (year month : Nat) : Nat :=
  total ((monthLengths (isLeap year)).take (month - 1))

def IsDate (year month day : Nat) : Prop :=
  (1 ≤ year ∧ year ≤ 9999) ∧ (1 ≤ month ∧ month ≤ 12) ∧ 1 ≤ day ∧ day ≤ daysInMonth year month

instance (year month day : Nat) : Decidable (IsDate year month day) := by
  unfold IsDate; infer_instance

structure Date where
  year : Nat
  month : Nat
  day : Nat
  isDate : IsDate year month day
  deriving DecidableEq

namespace Date

def of? (year month day : Nat) : Option Date :=
  if h : IsDate year month day then some ⟨year, month, day, h⟩ else none

def dayNumber (d : Date) : Nat :=
  daysBeforeYear d.year + daysBeforeMonth d.year d.month + (d.day - 1)

def count : Nat := 3652059

/-- The day of the week, Monday being nought. -/
def weekday (d : Date) : Nat := d.dayNumber % 7

end Date

/-- Walks the months from `month` on and finds the one in which day `n` falls. -/
def findMonth : List Nat → Nat → Nat → Nat × Nat
  | [], month, n => (month, n + 1)
  | length :: rest, month, n =>
      if n < length then (month, n + 1) else findMonth rest (month + 1) (n - length)

theorem findMonth_spec (lengths : List Nat) (month n : Nat) (h : n < total lengths) :
    ∃ i, ∃ hi : i < lengths.length, (findMonth lengths month n).1 = month + i ∧
      1 ≤ (findMonth lengths month n).2 ∧ (findMonth lengths month n).2 ≤ lengths[i] := by
  induction lengths generalizing month n with
  | nil => simp at h
  | cons length rest ih =>
      unfold findMonth
      split
      · exact ⟨0, by simp, by simp, by simp, by simp; omega⟩
      · have hrest : n - length < total rest := by simp at h; omega
        obtain ⟨i, hi, hm, h1, h2⟩ := ih (month + 1) (n - length) hrest
        exact ⟨i + 1, by simp; omega, by omega, h1, by simpa using h2⟩

/-- The year in which a day falls and the days of that year before it. Four centuries, one
century, four years and one year are split off in turn; the last of each may be a day longer. -/
def yearAndDay (n : Nat) : Nat × Nat :=
  let inEra := n % 146097
  let century := min (inEra / 36524) 3
  let inCentury := inEra - century * 36524
  let inCycle := inCentury % 1461
  let single := min (inCycle / 365) 3
  (n / 146097 * 400 + century * 100 + inCentury / 1461 * 4 + single + 1, inCycle - single * 365)

theorem isLeap_iff (year : Nat) :
    isLeap year = true ↔ year % 4 = 0 ∧ (year % 100 ≠ 0 ∨ year % 400 = 0) := by
  simp [isLeap]

theorem yearAndDay_lt (n : Nat) : (yearAndDay n).2 < daysInYear (yearAndDay n).1 := by
  unfold daysInYear
  by_cases h : isLeap (yearAndDay n).1 = true
  · rw [if_pos h]
    simp only [yearAndDay]
    omega
  · rw [if_neg h]
    rw [isLeap_iff] at h
    simp only [yearAndDay] at h ⊢
    omega

theorem yearAndDay_year {n : Nat} (h : n < Date.count) :
    1 ≤ (yearAndDay n).1 ∧ (yearAndDay n).1 ≤ 9999 := by
  simp only [yearAndDay]
  simp only [Date.count] at h
  omega

def Date.ofDayNumber (n : Nat) (h : n < Date.count) : Date :=
  let year := (yearAndDay n).1
  let found := findMonth (monthLengths (isLeap year)) 1 (yearAndDay n).2
  ⟨year, found.1, found.2, by
    have hlt : (yearAndDay n).2 < total (monthLengths (isLeap year)) := by
      rw [total_monthLengths]; exact yearAndDay_lt n
    obtain ⟨i, hi, hm, h1, h2⟩ := findMonth_spec _ 1 _ hlt
    have hlen : (monthLengths (isLeap year)).length = 12 := rfl
    have hfound : found.1 = 1 + i := hm
    refine ⟨yearAndDay_year h, by omega, h1, ?_⟩
    unfold daysInMonth
    rw [if_neg (by omega), hfound, show 1 + i - 1 = i by omega, List.getD_eq_getElem?_getD,
      List.getElem?_eq_getElem hi, Option.getD_some]
    exact h2⟩

/-- The Monday with which the first week of a year begins: that of the week with its fourth day. -/
def firstMonday (year : Nat) : Int :=
  let fourth := daysBeforeYear year + 3
  (fourth : Int) - (fourth % 7 : Nat)

/-- Whether a year has a week 53: it begins on a Thursday, or on a Wednesday when it is leap. -/
def hasLongWeek (year : Nat) : Bool :=
  let weekday := daysBeforeYear year % 7
  weekday = 3 || (weekday = 2 && isLeap year)

/-- The date of a day of a week, both counted from one, where it lies in the calendar. -/
def Date.ofWeek? (year week day : Nat) : Option Date :=
  if year < 1 || 9999 < year then none
  else if week = 0 || 53 < week || (week = 53 && !hasLongWeek year) then none
  else if day = 0 || 7 < day then none
  else
    let n := firstMonday year + ((week - 1) * 7 + (day - 1) : Nat)
    if h : 0 ≤ n ∧ n.toNat < Date.count then some (.ofDayNumber n.toNat h.2) else none

example : (Date.of? 2021 2 29).isSome = false ∧ (Date.of? 2020 2 29).isSome = true := by decide

end FeedIntake.Time
