import FeedIntake.Proofs.Entries
import FeedIntake.Proofs.IsoTexts

/-! # Stamps read back

The stamp of a broken-down time has a year of any width, with or without a sign, and may name a day
or a second that does not exist. The reader of dates knows years of four digits only, and it takes
the first digits it finds for whatever it expects there. Yet no stamp is misread: where its year is
shorter a hyphen stands among the first four characters, and where it is longer the hyphens stand
where digits of the month, the day or the hour should be.
-/

namespace FeedIntake

namespace Time

open Decimal (field readField digitChar digit? readField_field readField_of_short readField_two
  field_add digit?_digitChar_mod isDigit tenTo)

def afterYear (month day hour minute second : Nat) : List Char :=
  '-' :: field 2 month ++ '-' :: field 2 day ++ 'T' :: (field 2 hour ++ ':' :: (field 2 minute ++
    ':' :: (field 2 second ++ ['+', '0', '0', ':', '0', '0'])))

theorem DateTime.read?_of_no_year {cs : List Char} (h : readField 4 cs 0 = none) :
    DateTime.read? cs = none := by
  unfold DateTime.read?
  cases dateLength? cs with
  | none => rfl
  | some length => simp [readDate?, h]

section

variable {month day hour minute second : Nat}

theorem readTime?_of_fields (hhour : hour < 100) (hminute : minute < 100) (hsecond : second < 100) :
    readTime? (field 2 hour ++ ':' :: (field 2 minute ++ ':' :: (field 2 second ++
      ['+', '0', '0', ':', '0', '0']))) = some (⟨hour, minute, second, 0, false⟩, some .utc) := by
  have hclock : ∀ c ∈ field 2 hour ++ ':' :: (field 2 minute ++ ':' :: field 2 second),
      startsOffset c = false := by
    intro c hc
    simp only [List.mem_append, List.mem_cons] at hc
    rcases hc with h | rfl | h | rfl | h
    · exact startsOffset_of_mem_field h
    · rfl
    · exact startsOffset_of_mem_field h
    · rfl
    · exact startsOffset_of_mem_field h
  have hassoc : field 2 hour ++ ':' :: (field 2 minute ++ ':' :: (field 2 second ++
      ['+', '0', '0', ':', '0', '0'])) =
        (field 2 hour ++ ':' :: (field 2 minute ++ ':' :: field 2 second)) ++
          ['+', '0', '0', ':', '0', '0'] := by simp
  have hoffset : ClockReading.read? ['0', '0', ':', '0', '0'] endMark =
      some ⟨0, 0, 0, 0, true⟩ := by decide
  rw [hassoc, readTime?_of_offset hclock rfl (by decide),
    ClockReading.read?_of_fields hhour hminute hsecond, hoffset]
  rfl

/-- A year of four digits is read with what follows it, if that names a day and a time. -/
theorem DateTime.read?_of_year {year : Nat} (hyear : year < 10000) (hmonth : month < 100)
    (hday : day < 100) (hhour : hour < 100) (hminute : minute < 100) (hsecond : second < 100) :
    DateTime.read? (field 4 year ++ afterYear month day hour minute second) =
      (Date.of? year month day).bind fun date =>
        (TimeOfDay.of? hour minute second 0).map fun time => ⟨date, time, some .utc⟩ := by
  have hcut : field 4 year ++ afterYear month day hour minute second = field 4 year ++ '-' ::
      (field 2 month ++ '-' :: (field 2 day ++ 'T' :: (field 2 hour ++ ':' :: (field 2 minute ++
        ':' :: (field 2 second ++ ['+', '0', '0', ':', '0', '0']))))) := by
    simp [afterYear]
  rw [hcut, read?_of_date hyear hmonth hday, readTime?_of_fields hhour hminute hsecond]
  rfl

theorem readDate?_of_digits {cs rest : List Char} {year : Nat}
    (hyear : readField 4 cs 0 = some (year, rest)) (hhyphen : rest.head? ≠ some '-')
    (hweek : rest.head? ≠ some 'W') (length : Nat) : readDate? cs length =
      (readField 2 rest 0).bind fun month => (readField 2 month.2 0).bind fun day =>
        Date.of? year month.1 day.1 := by
  simp [readDate?, hyear, hhyphen, hweek]

theorem readTime?_eq_none {clock rest : List Char} {mark : Char}
    (hclock : ∀ c ∈ clock, startsOffset c = false) (hmark : startsOffset mark = true)
    (h : ClockReading.read? clock mark = none ∨
      mark ≠ 'Z' ∧ ClockReading.read? rest endMark = none) :
    readTime? (clock ++ mark :: rest) = none := by
  rw [readTime?_of_mark hclock hmark]
  rcases h with h | ⟨hzulu, h⟩
  · simp [h]
  · simp [h, hzulu]

theorem ClockReading.read?_of_no_field {cs : List Char} (h : readField 2 cs 0 = none)
    (next : Char) : read? cs next = none := by
  simp [read?, readFrom, h]

/-- A date-time is not read if neither the date nor what follows it can be. -/
theorem DateTime.read?_eq_none {cs : List Char} {length : Nat}
    (hlength : dateLength? cs = some length)
    (h : readDate? cs length = none ∨
      length < cs.length ∧ readTime? (cs.drop (length + 1)) = none) : DateTime.read? cs = none := by
  unfold DateTime.read?
  rw [hlength]
  rcases h with h | ⟨hlong, h⟩
  · simp [h]
  · simp [hlong, h]

/-- If five to seven digits stand first, a hyphen stands where the day should. -/
theorem readDate?_of_long_year {more : Nat} (hmore : more < 3) (year length : Nat)
    (rest : List Char) :
    readDate? (field (4 + (more + 1)) year ++ '-' :: rest) length = none := by
  have hdash : digit? '-' = none := by decide
  have hyear : readField 4 (field (4 + (more + 1)) year ++ '-' :: rest) 0 =
      some (year / tenTo (more + 1) % tenTo 4, field (more + 1) year ++ '-' :: rest) := by
    rw [field_add, List.append_assoc, readField_field, Nat.zero_mul, Nat.zero_add]
  have hdigit (c : Char) (hc : digit? c = none) :
      (field (more + 1) year ++ '-' :: rest).head? ≠ some c := by
    simpa [field] using digitChar_ne (Nat.mod_lt _ (by decide)) hc
  rw [readDate?_of_digits hyear (hdigit '-' hdash) (hdigit 'W' (by decide))]
  obtain rfl | rfl | rfl : more = 0 ∨ more = 1 ∨ more = 2 := by omega
  · rw [@readField_of_short 1 1 (by decide) year '-' hdash, Option.bind_none]
  · have hnone : readField 2 ('-' :: rest) 0 = none := by simp [readField, hdash]
    rw [readField_field, Option.bind_some]
    simp only [hnone, Option.bind_none]
  · have hnone := @readField_of_short 1 1 (by decide) year '-' hdash rest 0
    rw [field_add 2 1, List.append_assoc, readField_field, Option.bind_some]
    simp only [hnone, Option.bind_none]

theorem readTime?_of_short {width : Nat} (hwidth : width < 2) (n : Nat) (rest : List Char) :
    readTime? (field width n ++ '-' :: rest) = none := by
  have hnone : readField 2 (field width n) 0 = none := by
    match width, hwidth with
    | 0, _ => rfl
    | 1, _ => simp [field, readField, digit?_digitChar_mod]
  exact readTime?_eq_none (fun _ h => startsOffset_of_mem_field h) rfl
    (.inl (ClockReading.read?_of_no_field hnone '-'))

theorem readTime?_of_day (hday : day < 100) (c : Char) (rest : List Char) :
    readTime? (field 2 month ++ '-' :: (field 2 day ++ 'T' :: c :: rest)) = none := by
  have hhour : readField 2 ('T' :: c :: rest) 0 = none := by
    simp [readField, show digit? 'T' = none by decide]
  have hoffset : ClockReading.read? (field 2 day ++ 'T' :: c :: rest) endMark = none := by
    simp [ClockReading.read?, ClockReading.readFrom, readField_two hday, hhour]
  exact readTime?_eq_none (fun _ h => startsOffset_of_mem_field h) rfl
    (.inr ⟨by decide, hoffset⟩)

/-- If eight to ten digits stand first, the ninth character is taken for what parts date and time,
and no time follows. -/
theorem readTime?_of_long_year {more : Nat} (hmore : more < 3) (year : Nat) (hday : day < 100)
    (c : Char) (rest : List Char) :
    readTime? ((field (8 + more) year ++ '-' :: (field 2 month ++ '-' :: (field 2 day ++
      'T' :: c :: rest))).drop 9) = none := by
  rw [List.drop_append, Decimal.field_length]
  match more, hmore with
  | 0, _ => exact readTime?_of_day hday c rest
  | 1, _ => exact readTime?_of_short (by decide : 0 < 2) 0 _
  | 2, _ => exact readTime?_of_short (by decide : 1 < 2) year _

/-- A year of more than four digits is not read. -/
theorem DateTime.read?_of_long_year {more : Nat} (hmore : more < 6) (year : Nat)
    (hday : day < 100) :
    DateTime.read? (field (4 + (more + 1)) year ++ afterYear month day hour minute second) =
      none := by
  have hlength : dateLength? (field (4 + (more + 1)) year ++
      afterYear month day hour minute second) = some 8 := by
    have hne (c : Char) (hc : digit? c = none) : digitChar (year / tenTo more % 10) ≠ c :=
      digitChar_ne (Nat.mod_lt _ (by decide)) hc
    rw [field_add]
    simp [dateLength?, charAt, afterYear, field, hne '-' (by decide), hne 'W' (by decide)]
  refine DateTime.read?_eq_none hlength ?_
  by_cases hshort : more < 3
  · exact .inl (readDate?_of_long_year hshort year 8 _)
  · obtain ⟨extra, rfl⟩ : ∃ k, more = 3 + k := ⟨more - 3, by omega⟩
    have hextra : extra < 3 := by omega
    rw [show 4 + (3 + extra + 1) = 8 + extra by omega]
    refine .inr ⟨?_, readTime?_of_long_year hextra year hday _ _⟩
    rw [List.length_append, Decimal.field_length, afterYear]
    simp only [List.cons_append, List.length_cons]
    omega

end

theorem spellOutZulu_append (cs : List Char) :
    spellOutZulu (cs ++ ['Z']) = cs ++ ['+', '0', '0', ':', '0', '0'] := by
  simp [spellOutZulu]

namespace BrokenDown

def dayExists (t : BrokenDown) : Bool :=
  (atLeastFirst t.day).toNat ≤ daysInMonth t.year.toNat (atLeastFirst t.month).toNat

structure Ranges (t : BrokenDown) : Prop where
  year : t.year ≤ 2147483647
  month : 1 ≤ (atLeastFirst t.month).toNat ∧ (atLeastFirst t.month).toNat ≤ 12
  day : 1 ≤ (atLeastFirst t.day).toNat ∧ (atLeastFirst t.day).toNat ≤ 31
  hour : 0 ≤ t.hour ∧ t.hour ≤ 23
  minute : 0 ≤ t.minute ∧ t.minute ≤ 59
  second : 0 ≤ t.second ∧ t.second ≤ 61

theorem isRenderable_of_stamp? {t : BrokenDown} {stamp : String} (h : t.stamp? = some stamp) :
    t.isRenderable = true ∧ stamp.toList = t.stampChars := by
  unfold stamp? at h
  split at h
  · rename_i hrenderable
    cases h
    exact ⟨hrenderable, String.toList_ofList⟩
  · cases h

theorem ranges_of_isRenderable {t : BrokenDown} (h : t.isRenderable = true) : t.Ranges := by
  simp only [isRenderable, between, toList, fitsWord, List.all_cons, Bool.and_eq_true,
    decide_eq_true_eq] at h
  constructor <;> omega

def spelled (t : BrokenDown) : List Char :=
  Decimal.integer t.year ++ afterYear (atLeastFirst t.month).toNat (atLeastFirst t.day).toNat
    t.hour.toNat t.minute.toNat t.second.toNat

theorem read?_spelled {t : BrokenDown} (h : t.Ranges) : DateTime.read? t.spelled =
    if 1000 ≤ t.year ∧ t.year ≤ 9999 then
      (Date.of? t.year.toNat (atLeastFirst t.month).toNat (atLeastFirst t.day).toNat).bind
        fun date => (TimeOfDay.of? t.hour.toNat t.minute.toNat t.second.toNat 0).map fun time =>
          ⟨date, time, some .utc⟩
    else none := by
  have hmonth := h.month
  have hday := h.day
  have hhour := h.hour
  have hminute := h.minute
  have hsecond := h.second
  have hyear := h.year
  unfold spelled
  generalize (atLeastFirst t.month).toNat = month at *
  generalize (atLeastFirst t.day).toNat = day at *
  generalize t.year = y at *
  cases y with
  | negSucc n =>
      rw [if_neg (by omega)]
      have hdash : digit? '-' = none := by decide
      exact DateTime.read?_of_no_year (by simp [Decimal.integer, readField, hdash])
  | ofNat n =>
      obtain ⟨width, hle, hlt⟩ := Decimal.exists_width n
      rw [Decimal.integer, Decimal.natural_eq_field hle hlt]
      rcases Nat.lt_trichotomy width 3 with hshort | rfl | hlong
      · have hten : tenTo (width + 1) ≤ tenTo 3 := Nat.pow_le_pow_right (by decide) hshort
        have hn : n < 1000 := Nat.lt_of_lt_of_le hlt hten
        rw [if_neg (by simp; omega)]
        refine DateTime.read?_of_no_year ?_
        obtain ⟨more, hmore⟩ : ∃ more, 4 = width + 1 + (more + 1) := ⟨2 - width, by omega⟩
        rw [hmore]
        exact readField_of_short (Nat.succ_pos more) n (by decide) _ 0
      · have hn : n < 10000 := hlt
        have hn' : 1000 ≤ n := hle.resolve_left (by decide)
        rw [if_pos (by simp; omega)]
        exact DateTime.read?_of_year hn (by omega) (by omega) (by omega) (by omega) (by omega)
      · have hten : tenTo 4 ≤ tenTo width := Nat.pow_le_pow_right (by decide) hlong
        have hn : 10000 ≤ n := Nat.le_trans hten (hle.resolve_left (by omega))
        have hwidth : width < 10 := by
          by_contra hnot
          have hten : tenTo 10 ≤ tenTo width :=
            Nat.pow_le_pow_right (by decide) (Nat.le_of_not_lt hnot)
          have hn : 10000000000 ≤ n := Nat.le_trans hten (hle.resolve_left (by omega))
          simp at hyear
          omega
        rw [if_neg (by simp; omega), show width + 1 = 4 + (width - 4 + 1) by omega]
        exact DateTime.read?_of_long_year (by omega) n (by omega)

theorem trim_stampChars (t : BrokenDown) : Text.trim t.stampChars = t.stampChars := by
  obtain ⟨c, rest, hyear, hc⟩ : ∃ c rest, Decimal.integer t.year = c :: rest ∧
      Text.isBlank c = false := by
    cases t.year with
    | negSucc n => exact ⟨'-', _, rfl, by decide⟩
    | ofNat n =>
        obtain ⟨width, hle, hlt⟩ := Decimal.exists_width n
        exact ⟨_, _, Decimal.natural_eq_field hle hlt,
          isBlank_digitChar (Nat.mod_lt _ (by decide))⟩
  apply Text.trim_eq_self
  · intro d hd
    simp only [stampChars, hyear, List.cons_append, List.head?_cons, Option.some.injEq] at hd
    rwa [← hd]
  · intro d hd
    simp only [stampChars, List.getLast?_append, List.getLast?_singleton, Option.some_or,
      Option.some.injEq] at hd
    subst hd
    decide

theorem spellOutZulu_stampChars (t : BrokenDown) : spellOutZulu t.stampChars = t.spelled := by
  rw [stampChars, spellOutZulu_append]
  simp [spelled, afterYear]

end BrokenDown

structure Instant.Shows (i : Instant) (t : BrokenDown) : Prop where
  year : (i.date.year : Int) = t.year
  month : (i.date.month : Int) = BrokenDown.atLeastFirst t.month
  day : (i.date.day : Int) = BrokenDown.atLeastFirst t.day
  hour : (i.time.hour : Int) = t.hour
  minute : (i.time.minute : Int) = t.minute
  second : (i.time.second : Int) = t.second
  micro : i.time.micro = 0

namespace BrokenDown

/-- A broken-down time whose stamp can be read names a day and a time of the calendar. -/
def isReadable (t : BrokenDown) : Bool :=
  1000 ≤ t.year && t.year ≤ 9999 && t.dayExists && t.second ≤ 59

theorem isReadable_iff (t : BrokenDown) : t.isReadable = true ↔
    1000 ≤ t.year ∧ t.year ≤ 9999 ∧ t.dayExists = true ∧ t.second ≤ 59 := by
  simp [isReadable, and_assoc]

theorem read?_spelled_of_readable {t : BrokenDown} (h : t.Ranges)
    (hreadable : t.isReadable = true) :
    ∃ date time, DateTime.read? t.spelled = some ⟨date, time, some .utc⟩ ∧
      (date.year : Int) = t.year ∧ date.month = (atLeastFirst t.month).toNat ∧
      date.day = (atLeastFirst t.day).toNat ∧ (time.hour : Int) = t.hour ∧
      (time.minute : Int) = t.minute ∧ (time.second : Int) = t.second ∧ time.micro = 0 := by
  obtain ⟨hyear, hyear', hday, hsecond⟩ := (isReadable_iff t).mp hreadable
  have hdate : IsDate t.year.toNat (atLeastFirst t.month).toNat (atLeastFirst t.day).toNat :=
    ⟨by omega, h.month, h.day.1, of_decide_eq_true hday⟩
  have htime : t.hour.toNat < 24 ∧ t.minute.toNat < 60 ∧ t.second.toNat < 60 ∧ 0 < 1000000 := by
    have := h.hour
    have := h.minute
    omega
  refine ⟨⟨_, _, _, hdate⟩, ⟨_, _, _, _, htime⟩, ?_, ?_⟩
  · rw [read?_spelled h, if_pos ⟨hyear, hyear'⟩, Date.of?, dif_pos hdate, TimeOfDay.of?,
      dif_pos htime]
    rfl
  · have := h.hour
    have := h.minute
    have := h.second
    simp only [true_and, and_true]
    omega

theorem read?_spelled_of_unreadable {t : BrokenDown} (h : t.Ranges)
    (hreadable : ¬t.isReadable = true) : DateTime.read? t.spelled = none := by
  rw [read?_spelled h]
  split
  · rename_i hyear
    by_cases hday : t.dayExists = true
    · -- The day exists, and so it is a leap second that cannot be read.
      have hsecond : ¬t.second ≤ 59 := fun hsecond =>
        hreadable ((isReadable_iff t).mpr ⟨hyear.1, hyear.2, hday, hsecond⟩)
      rw [TimeOfDay.of?, dif_neg (by omega)]
      simp only [Option.map_none, Option.bind_fun_none]
    · have hdate : ¬IsDate t.year.toNat (atLeastFirst t.month).toNat (atLeastFirst t.day).toNat :=
        fun hdate => hday (decide_eq_true hdate.2.2.2)
      rw [Date.of?, dif_neg hdate, Option.bind_none]
  · rfl

end BrokenDown

section

variable {t : BrokenDown} {stamp : String}

theorem readTimestampText_of_read? (h : stamp.toList = t.stampChars) {d : DateTime} {i : Instant}
    (hread : DateTime.read? t.spelled = some d) (hinstant : d.instant? = some i) :
    readTimestampText stamp = .ok i := by
  have hne : t.stampChars.isEmpty = false := by simp [BrokenDown.stampChars]
  simp only [readTimestampText, h, t.trim_stampChars, t.spellOutZulu_stampChars, hne, hread,
    hinstant, Bool.false_eq_true, if_false]

theorem readTimestampText_of_not_read (h : stamp.toList = t.stampChars)
    (hread : DateTime.read? t.spelled = none) :
    readTimestampText stamp = .error (.unrecognized stamp) := by
  have hne : t.stampChars.isEmpty = false := by simp [BrokenDown.stampChars]
  simp only [readTimestampText, h, t.trim_stampChars, t.spellOutZulu_stampChars, hne, hread,
    Bool.false_eq_true, if_false]

theorem readTimestampText_of_readable (h : t.stamp? = some stamp)
    (hreadable : t.isReadable = true) : ∃ i, readTimestampText stamp = .ok i ∧ i.Shows t := by
  obtain ⟨hrenderable, hchars⟩ := BrokenDown.isRenderable_of_stamp? h
  have hranges := BrokenDown.ranges_of_isRenderable hrenderable
  obtain ⟨date, time, hread, hyear, hmonth, hday, hhour, hminute, hsecond, hmicro⟩ :=
    BrokenDown.read?_spelled_of_readable hranges hreadable
  obtain ⟨i, hinstant, rfl, rfl⟩ := DateTime.exists_instant date time
  have hm := hranges.month
  have hd := hranges.day
  refine ⟨i, readTimestampText_of_read? hchars hread hinstant, ?_⟩
  exact {
    year := hyear
    month := by omega
    day := by omega
    hour := hhour
    minute := hminute
    second := hsecond
    micro := hmicro }

theorem readTimestampText_of_unreadable (h : t.stamp? = some stamp)
    (hunreadable : ¬t.isReadable = true) :
    readTimestampText stamp = .error (.unrecognized stamp) := by
  obtain ⟨hrenderable, hchars⟩ := BrokenDown.isRenderable_of_stamp? h
  have hranges := BrokenDown.ranges_of_isRenderable hrenderable
  exact readTimestampText_of_not_read hchars
    (BrokenDown.read?_spelled_of_unreadable hranges hunreadable)

end

end Time

namespace Published

theorem read_of_readable {t : Time.BrokenDown} {stamp : String} (h : t.stamp? = some stamp)
    (hreadable : t.isReadable = true) :
    ∃ i, read (some (.text stamp)) = .at i ∧ i.Shows t := by
  obtain ⟨i, hread, hshows⟩ := Time.readTimestampText_of_readable h hreadable
  refine ⟨i, ?_, hshows⟩
  simp only [read, readTimestamp, hread]

theorem read_of_unreadable {t : Time.BrokenDown} {stamp : String} (h : t.stamp? = some stamp)
    (hunreadable : ¬t.isReadable = true) :
    read (some (.text stamp)) = .unreadable (.unrecognized stamp) := by
  simp only [read, readTimestamp, Time.readTimestampText_of_unreadable h hunreadable]

end Published

namespace Entry

theorem date?_of_stamp? {e : Entry} {v : Value} {t : Time.BrokenDown} {stamp : String}
    {name : String} (hfind : e.find? (name ++ "_parsed") = .ok (some v))
    (htime : v.brokenDown? = some t) (hstamp : t.stamp? = some stamp) :
    e.date? name = .ok (some stamp) := by
  have hof : stampOf (some v) = some stamp := by
    rw [stampOf, Option.bind_some, htime, Option.bind_some, hstamp]
  unfold date?
  rw [hfind]
  simp only [bind, Except.bind, hof]
  rfl

theorem published_of_toRecord {e : Entry} {source : String} {record : Record}
    (h : e.toRecord source = .ok record) : e.date? "published" = .ok record.published := by
  simp only [toRecord, bind, Except.bind, pure, Except.pure] at h
  repeat' split at h
  all_goals cases h
  assumption

/-- **Stamps are read back exactly or not at all.** The date of a record made from a broken-down
time is its stamp. An instant read from it shows the very numbers of the stamp, and one is read if
and only if the year has four digits and the day and the second exist in the calendar. -/
theorem stamped_date_exact {e : Entry} {v : Value} {t : Time.BrokenDown} {stamp : String}
    (hfind : e.find? "published_parsed" = .ok (some v)) (htime : v.brokenDown? = some t)
    (hstamp : t.stamp? = some stamp) (source : String) :
    (e.IsPlain → ∃ record, e.toRecord source = .ok record) ∧
      ∀ record, e.toRecord source = .ok record → record.published = some stamp ∧
        (∀ i, record.publishedAt = .at i → i.Shows t) ∧
        (record.publishedAt.isFallback = false ↔
          1000 ≤ t.year ∧ t.year ≤ 9999 ∧ t.dayExists = true ∧ t.second ≤ 59) := by
  refine ⟨fun hplain => hplain.exists_toRecord source, ?_⟩
  intro record hrecord
  have hpublished : record.published = some stamp := by
    have hdate := published_of_toRecord hrecord
    rw [date?_of_stamp? hfind htime hstamp] at hdate
    exact (Except.ok.inj hdate).symm
  have hread : record.publishedAt = .read (some (.text stamp)) := by
    rw [Record.publishedAt, hpublished]
    rfl
  rw [hread, ← Time.BrokenDown.isReadable_iff]
  refine ⟨hpublished, ?_⟩
  by_cases hreadable : t.isReadable = true
  · obtain ⟨i, hi, hshows⟩ := Published.read_of_readable hstamp hreadable
    rw [hi]
    constructor
    · intro j hj
      cases hj
      exact hshows
    · simp [hreadable, Published.isFallback, Published.instant?]
  · rw [Published.read_of_unreadable hstamp hreadable]
    constructor
    · intro i hi
      cases hi
    · simp [hreadable, Published.isFallback, Published.instant?]

/-- A leap day at the last second before midnight, as a struct with nine numbers. -/
def leapDay : Time.BrokenDown := ⟨2024, 2, 29, 23, 59, 59, 3, 60, 0⟩

/-- The leap day's stamp is read, as an instant that shows it. -/
theorem leapDay_date_exact : ∃ record,
    toRecord ⟨.plain, .dict [("published_parsed", .brokenDown leapDay)]⟩ "feed" = .ok record ∧
      ∃ i, record.publishedAt = .at i ∧ i.Shows leapDay := by
  have hstamp : leapDay.stamp? = some "2024-02-29T23:59:59Z" := by decide +kernel
  have hexact := @stamped_date_exact ⟨.plain, .dict [("published_parsed", .brokenDown leapDay)]⟩
    (.brokenDown leapDay) leapDay "2024-02-29T23:59:59Z" rfl rfl hstamp "feed"
  obtain ⟨record, hrecord⟩ := hexact.1 ⟨rfl, _, rfl⟩
  obtain ⟨-, hshows, hfallback⟩ := hexact.2 record hrecord
  have hread := hfallback.mpr (by decide)
  refine ⟨record, hrecord, ?_⟩
  cases hpublished : record.publishedAt with
  | «at» i => exact ⟨i, rfl, hshows i hpublished⟩
  | missing => rw [hpublished] at hread; cases hread
  | unreadable fault => rw [hpublished] at hread; cases hread

end Entry

end FeedIntake
