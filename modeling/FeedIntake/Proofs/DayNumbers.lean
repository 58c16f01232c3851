import Mathlib.Data.Nat.Basic
import FeedIntake.Time.Moment

/-! # Day numbers

Counting the days to a date and finding the date of a day are inverse to each other, and so every
date-time in UTC is shown by an instant of the calendar.
-/

namespace FeedIntake.Time

/-- A year is four centuries, a century, four years and a year on from the first. -/
theorem daysBeforeYear_split {a b c d : Nat} (hb : b < 4) (hc : c < 25) (hd : d < 4) :
    daysBeforeYear (400 * a + 100 * b + 4 * c + d + 1) =
      146097 * a + 36524 * b + 1461 * c + 365 * d := by
  simp only [daysBeforeYear]
  omega

/-- The quotients split off are the ones put together, unless the day is one too many. -/
theorem yearAndDay_split {a b c d k : Nat} (hb : b < 4) (hc : c < 25) (hd : d < 4)
    (hk : k < 365 ∨ k = 365 ∧ d = 3 ∧ (c ≠ 24 ∨ b = 3)) :
    yearAndDay (146097 * a + 36524 * b + 1461 * c + 365 * d + k) =
      (400 * a + 100 * b + 4 * c + d + 1, k) := by
  have hera : (146097 * a + 36524 * b + 1461 * c + 365 * d + k) / 146097 = a := by omega
  have hinEra : (146097 * a + 36524 * b + 1461 * c + 365 * d + k) % 146097 =
      36524 * b + 1461 * c + 365 * d + k := by omega
  have hcentury : min ((36524 * b + 1461 * c + 365 * d + k) / 36524) 3 = b := by omega
  have hcycle : (1461 * c + 365 * d + k) / 1461 = c := by omega
  have hinCycle : (1461 * c + 365 * d + k) % 1461 = 365 * d + k := by omega
  have hsingle : min ((365 * d + k) / 365) 3 = d := by omega
  have hsub : 36524 * b + 1461 * c + 365 * d + k - b * 36524 = 1461 * c + 365 * d + k := by omega
  simp only [yearAndDay, hera, hinEra, hcentury, hsub, hcycle, hinCycle, hsingle]
  ext <;> simp only <;> omega

theorem yearAndDay_daysBeforeYear {year k : Nat} (hy : 1 ≤ year) (hk : k < daysInYear year) :
    yearAndDay (daysBeforeYear year + k) = (year, k) := by
  obtain ⟨a, b, c, d, rfl, hb, hc, hd⟩ : ∃ a b c d, year = 400 * a + 100 * b + 4 * c + d + 1 ∧
      b < 4 ∧ c < 25 ∧ d < 4 :=
    ⟨(year - 1) / 400, (year - 1) % 400 / 100, (year - 1) % 100 / 4, (year - 1) % 4, by omega⟩
  rw [daysBeforeYear_split hb hc hd]
  apply yearAndDay_split hb hc hd
  unfold daysInYear at hk
  split at hk
  · rename_i h
    rw [isLeap_iff] at h
    omega
  · omega

theorem daysBeforeYear_yearAndDay (n : Nat) :
    daysBeforeYear (yearAndDay n).1 + (yearAndDay n).2 = n := by
  have hcentury : min (n % 146097 / 36524) 3 < 4 := by omega
  have hcycle : (n % 146097 - min (n % 146097 / 36524) 3 * 36524) / 1461 < 25 := by omega
  have hsingle : min ((n % 146097 - min (n % 146097 / 36524) 3 * 36524) % 1461 / 365) 3 < 4 := by
    omega
  have hsplit := @daysBeforeYear_split (n / 146097) _ _ _ hcentury hcycle hsingle
  simp only [Nat.mul_comm 400, Nat.mul_comm 100, Nat.mul_comm 4] at hsplit
  simp only [yearAndDay, hsplit]
  omega

/-- The day `k` of the month `i` is found where the months before it end. -/
theorem findMonth_take {lengths : List Nat} {i k : Nat} (hi : i < lengths.length)
    (hk : k < lengths[i]) (month : Nat) :
    findMonth lengths month (total (lengths.take i) + k) = (month + i, k + 1) := by
  induction lengths generalizing i month with
  | nil => simp at hi
  | cons length rest ih =>
      cases i with
      | zero => simp at hk; simp [findMonth, hk]
      | succ i =>
          simp only [List.getElem_cons_succ] at hk
          simp only [List.length_cons, Nat.add_lt_add_iff_right] at hi
          rw [List.take_succ_cons, total_cons, findMonth, if_neg (by omega),
            show length + total (rest.take i) + k - length = total (rest.take i) + k by omega,
            ih hi hk, Nat.add_assoc, Nat.add_comm 1]

theorem total_take_findMonth {lengths : List Nat} {n : Nat} (h : n < total lengths) (month : Nat) :
    total (lengths.take ((findMonth lengths month n).1 - month)) +
      ((findMonth lengths month n).2 - 1) = n := by
  induction lengths generalizing month n with
  | nil => simp at h
  | cons length rest ih =>
      unfold findMonth
      split
      · simp
      · have hrest : n - length < total rest := by simp at h; omega
        obtain ⟨i, -, hfound, -, -⟩ := findMonth_spec rest (month + 1) (n - length) hrest
        have hback := ih hrest (month + 1)
        rw [hfound, show month + 1 + i - (month + 1) = i by omega] at hback
        rw [hfound, show month + 1 + i - month = i + 1 by omega, List.take_succ_cons, total_cons]
        omega

theorem total_take_add_lt {lengths : List Nat} {i k : Nat} (hi : i < lengths.length)
    (hk : k < lengths[i]) : total (lengths.take i) + k < total lengths := by
  induction lengths generalizing i with
  | nil => simp at hi
  | cons length rest ih =>
      cases i with
      | zero => simp at hk; simp; omega
      | succ i =>
          have := ih (by simpa using hi) (by simpa using hk)
          simp
          omega

theorem daysBeforeYear_add_le {year : Nat} (hy : 1 ≤ year) (hle : year ≤ 9999) :
    daysBeforeYear year + daysInYear year ≤ Date.count := by
  unfold daysInYear
  split
  · rename_i h
    rw [isLeap_iff] at h
    simp only [daysBeforeYear, Date.count]
    omega
  · simp only [daysBeforeYear, Date.count]
    omega

namespace Date

/-- The month of a date is one of the year's, and its day one of the month's. -/
theorem exists_month (d : Date) : ∃ hi : d.month - 1 < (monthLengths (isLeap d.year)).length,
    d.day - 1 < (monthLengths (isLeap d.year))[d.month - 1] := by
  obtain ⟨-, ⟨hm, hm'⟩, hd, hd'⟩ := d.isDate
  have hi : d.month - 1 < (monthLengths (isLeap d.year)).length := by
    show d.month - 1 < 12
    omega
  refine ⟨hi, ?_⟩
  rw [daysInMonth, if_neg (by omega), List.getD_eq_getElem?_getD, List.getElem?_eq_getElem hi,
    Option.getD_some] at hd'
  omega

theorem day_le (d : Date) : d.day ≤ 31 := by
  obtain ⟨hi, hday⟩ := d.exists_month
  have hlengths : ∀ leap, ∀ length ∈ monthLengths leap, length ≤ 31 := by decide
  have hlength := hlengths _ _ (List.getElem_mem hi)
  omega

theorem dayInYear_lt (d : Date) :
    daysBeforeMonth d.year d.month + (d.day - 1) < daysInYear d.year := by
  obtain ⟨hi, hk⟩ := d.exists_month
  rw [← total_monthLengths]
  exact total_take_add_lt hi hk

theorem dayNumber_lt (d : Date) : d.dayNumber < count := by
  have hyear := daysBeforeYear_add_le d.isDate.1.1 d.isDate.1.2
  have hday := d.dayInYear_lt
  unfold dayNumber
  omega

theorem ofDayNumber_dayNumber (d : Date) : ofDayNumber d.dayNumber d.dayNumber_lt = d := by
  obtain ⟨⟨hyear, -⟩, ⟨hmonth, -⟩, hday, -⟩ := d.isDate
  obtain ⟨hi, hk⟩ := d.exists_month
  have hsplit : yearAndDay d.dayNumber =
      (d.year, daysBeforeMonth d.year d.month + (d.day - 1)) := by
    rw [dayNumber, Nat.add_assoc]
    exact yearAndDay_daysBeforeYear hyear d.dayInYear_lt
  have hfound : findMonth (monthLengths (isLeap d.year)) 1
      (daysBeforeMonth d.year d.month + (d.day - 1)) = (d.month, d.day) := by
    rw [daysBeforeMonth, findMonth_take hi hk]
    ext <;> simp only <;> omega
  cases d
  simp only [ofDayNumber, hsplit, hfound]

theorem dayNumber_ofDayNumber {n : Nat} (h : n < count) : (ofDayNumber n h).dayNumber = n := by
  have hlt : (yearAndDay n).2 < total (monthLengths (isLeap (yearAndDay n).1)) := by
    rw [total_monthLengths]
    exact yearAndDay_lt n
  have hmonth := total_take_findMonth hlt 1
  have hyear := daysBeforeYear_yearAndDay n
  simp only [dayNumber, ofDayNumber, daysBeforeMonth]
  omega

end Date

theorem TimeOfDay.ofMicros_micros (t : TimeOfDay) : ofMicros t.micros = t := by
  have := t.inDay
  cases t
  simp only [ofMicros, micros] at this ⊢
  simp only [mk.injEq]
  omega

theorem DateTime.localMicros_lt (d : DateTime) : d.localMicros < Date.count * dayMicros := by
  have hdate := d.date.dayNumber_lt
  have htime := d.time.micros_lt
  calc d.localMicros < d.date.dayNumber * dayMicros + dayMicros := by
        rw [localMicros]; omega
    _ = (d.date.dayNumber + 1) * dayMicros := by rw [Nat.add_mul, Nat.one_mul]
    _ ≤ Date.count * dayMicros := Nat.mul_le_mul_right _ hdate

/-- Every date-time in UTC has its instant, which shows the same date and time. -/
theorem DateTime.exists_instant (date : Date) (time : TimeOfDay) :
    ∃ i, instant? ⟨date, time, some .utc⟩ = some i ∧ i.date = date ∧ i.time = time := by
  have hlt := localMicros_lt ⟨date, time, some .utc⟩
  refine ⟨⟨_, hlt⟩, ?_, ?_, ?_⟩
  · have hposition : position ⟨date, time, some .utc⟩ = localMicros ⟨date, time, some .utc⟩ :=
      Int.sub_zero _
    rw [instant?, hposition, Instant.of?, dif_pos ⟨by omega, hlt⟩]
    rfl
  · have hday : (localMicros ⟨date, time, some .utc⟩) / dayMicros = date.dayNumber := by
      rw [localMicros, Nat.mul_comm, Nat.mul_add_div (by decide), Nat.div_eq_of_lt time.micros_lt]
      rfl
    simp only [Instant.date, hday]
    exact date.ofDayNumber_dayNumber
  · have htime : (localMicros ⟨date, time, some .utc⟩) % dayMicros = time.micros := by
      rw [localMicros, Nat.mul_comm, Nat.mul_add_mod, Nat.mod_eq_of_lt time.micros_lt]
    rw [Instant.time, htime, TimeOfDay.ofMicros_micros]

theorem DateTime.instant?_eq_some_iff {d : DateTime} {i : Instant} :
    d.instant? = some i ↔ (i.micros : Int) = d.position := by
  obtain ⟨micros, inCalendar⟩ := i
  unfold instant? Instant.of?
  split
  · rename_i hplace
    simp only [Option.some.injEq, Instant.mk.injEq]
    omega
  · rename_i hplace
    constructor
    · intro hnone
      cases hnone
    · intro hposition
      refine absurd ⟨?_, ?_⟩ hplace
      · omega
      · rwa [← hposition, Int.toNat_natCast]

namespace Instant

theorem localMicros_toDateTime (i : Instant) : i.toDateTime.localMicros = i.micros := by
  have htime : i.micros % dayMicros < dayMicros := Nat.mod_lt _ (by decide)
  simp only [DateTime.localMicros, toDateTime, date, time, Date.dayNumber_ofDayNumber,
    TimeOfDay.micros_ofMicros htime]
  exact Nat.div_add_mod' _ _

theorem position_toDateTime (i : Instant) : i.toDateTime.position = i.micros := by
  rw [DateTime.position, localMicros_toDateTime]
  exact Int.sub_zero _

theorem eq_of_date_of_time {i j : Instant} (hdate : i.date = j.date) (htime : i.time = j.time) :
    i = j := by
  have hmicros : i.micros = j.micros := by
    rw [← localMicros_toDateTime i, ← localMicros_toDateTime j, toDateTime, toDateTime, hdate,
      htime]
  cases i
  cases j
  cases hmicros
  rfl

end Instant

end FeedIntake.Time
