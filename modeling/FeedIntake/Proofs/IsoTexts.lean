import FeedIntake.Recency
import FeedIntake.Proofs.DayNumbers
import FeedIntake.Proofs.Fields
import FeedIntake.Proofs.Margins

/-! # Standard texts read back

The standard text of a date-time consists of fields of digits with a mark after each, and no mark
is a digit. So the reader cuts it where the writer joined it: at the length of the date, at the
first character that can start an offset, and at the colons. What it finds there is what was
written, down to the microsecond and, where the offset is of whole minutes, to the offset.
-/

namespace FeedIntake

namespace Time

open Decimal (field readField digitChar digit? digit?_digitChar readField_field readField_two
  isDigit tenTo valueOf valueOf_field exists_digitChar_of_mem_field)

theorem digitChar_ne {d : Nat} (h : d < 10) {c : Char} (hc : digit? c = none) :
    digitChar d ≠ c := by
  rintro rfl
  rw [digit?_digitChar h] at hc
  cases hc

theorem isDigit_of_mem_field {width n : Nat} {c : Char} (h : c ∈ field width n) :
    isDigit c = true := by
  obtain ⟨d, hd, rfl⟩ := exists_digitChar_of_mem_field h
  rw [isDigit, digit?_digitChar hd]
  rfl

theorem startsOffset_of_mem_field {width n : Nat} {c : Char} (h : c ∈ field width n) :
    startsOffset c = false := by
  obtain ⟨d, hd, rfl⟩ := exists_digitChar_of_mem_field h
  simp [startsOffset, digitChar_ne hd (show digit? '+' = none by decide),
    digitChar_ne hd (show digit? '-' = none by decide),
    digitChar_ne hd (show digit? 'Z' = none by decide)]

theorem isBlank_digitChar {d : Nat} (h : d < 10) : Text.isBlank (digitChar d) = false := by
  match d, h with
  | 0, _ | 1, _ | 2, _ | 3, _ | 4, _ | 5, _ | 6, _ | 7, _ | 8, _ | 9, _ => decide

/-! ## The time -/

namespace ClockReading

theorem readFrom_field {part : Nat} (h : part < 100) (next : Char) (count : Nat) (colons : Bool)
    (parts : List Nat) : readFrom next (count + 1) colons parts (field 2 part) =
      some (ofParts (parts ++ [part]) 0 (next == endMark)) := by
  have hread := readField_two h []
  rw [List.append_nil] at hread
  simp [readFrom, hread]

theorem readFrom_field_colon {part : Nat} (h : part < 100) (next : Char) (count : Nat)
    {colons : Bool} {parts : List Nat} (hcolons : parts = [] ∨ colons = true) {more : List Char}
    (hmore : more ≠ []) : readFrom next (count + 1) colons parts (field 2 part ++ ':' :: more) =
      readFrom next count true (parts ++ [part]) more := by
  obtain ⟨c, rest, rfl⟩ := List.exists_cons_of_ne_nil hmore
  have hsettled : (decide (parts = []) || colons) = true := by simpa using hcolons
  simp [readFrom, readField_two h, hsettled]

theorem readFrom_field_point {part : Nat} (h : part < 100) (next : Char) (count : Nat)
    (colons : Bool) (parts : List Nat) {more : List Char} (hmore : more ≠ []) :
    readFrom next (count + 1) colons parts (field 2 part ++ '.' :: more) =
      fraction? (parts ++ [part]) more next := by
  obtain ⟨c, rest, rfl⟩ := List.exists_cons_of_ne_nil hmore
  simp [readFrom, readField_two h]

theorem fraction?_field {micro : Nat} (h : micro < 1000000) (parts : List Nat) (next : Char) :
    fraction? parts (field 6 micro) next = some (ofParts parts micro (next == endMark)) := by
  have hlength : (field 6 micro).length = 6 := Decimal.field_length 6 micro
  have hdigits : (field 6 micro).all isDigit = true :=
    List.all_eq_true.mpr fun _ hc => isDigit_of_mem_field hc
  have hvalue : valueOf (field 6 micro) 0 = micro := by
    rw [valueOf_field, Nat.zero_mul, Nat.zero_add, Nat.mod_eq_of_lt (show micro < tenTo 6 from h)]
  rw [fraction?, List.take_of_length_le hlength.le, List.drop_eq_nil_of_le hlength.le,
    if_pos hdigits, hvalue, hlength]
  simp [tenTo]

/-- Hours and minutes alone are a time. -/
theorem read?_hour_minute {hour minute : Nat} (hhour : hour < 100) (hminute : minute < 100)
    (next : Char) : read? (field 2 hour ++ ':' :: field 2 minute) next =
      some ⟨hour, minute, 0, 0, next == endMark⟩ := by
  rw [read?, readFrom_field_colon hhour _ _ (.inl rfl) (by simp [field]), readFrom_field hminute]
  rfl

theorem read?_of_fields {hour minute second : Nat} (hhour : hour < 100) (hminute : minute < 100)
    (hsecond : second < 100) (next : Char) :
    read? (field 2 hour ++ ':' :: (field 2 minute ++ ':' :: field 2 second)) next =
      some ⟨hour, minute, second, 0, next == endMark⟩ := by
  rw [read?, readFrom_field_colon hhour _ _ (.inl rfl) (by simp [field]),
    readFrom_field_colon hminute _ _ (.inr rfl) (by simp [field]), readFrom_field hsecond]
  rfl

theorem read?_chars (t : TimeOfDay) (next : Char) :
    read? t.chars next = some ⟨t.hour, t.minute, t.second, t.micro, next == endMark⟩ := by
  have hhour : t.hour < 100 := by have := t.inDay; omega
  have hminute : t.minute < 100 := by have := t.inDay; omega
  have hsecond : t.second < 100 := by have := t.inDay; omega
  by_cases hzero : t.micro = 0
  · simpa [TimeOfDay.chars, hzero] using read?_of_fields hhour hminute hsecond next
  · have hchars : t.chars = field 2 t.hour ++ ':' ::
        (field 2 t.minute ++ ':' :: (field 2 t.second ++ '.' :: field 6 t.micro)) := by
      simp [TimeOfDay.chars, hzero]
    rw [hchars, read?, readFrom_field_colon hhour _ _ (.inl rfl) (by simp [field]),
      readFrom_field_colon hminute _ _ (.inr rfl) (by simp [field]),
      readFrom_field_point hsecond _ _ _ _ (by simp [field]), fraction?_field t.inDay.2.2.2]
    rfl

end ClockReading

theorem startsOffset_of_mem_chars {t : TimeOfDay} {c : Char} (h : c ∈ t.chars) :
    startsOffset c = false := by
  have hfraction : c ∈ (if t.micro = 0 then [] else '.' :: field 6 t.micro) →
      startsOffset c = false := by
    split
    · intro hnone
      cases hnone
    · intro hc
      rcases List.mem_cons.mp hc with rfl | hc
      · rfl
      · exact startsOffset_of_mem_field hc
  simp only [TimeOfDay.chars, List.mem_append, List.mem_cons] at h
  obtain ((h | rfl | h) | rfl | h) | h := h
  · exact startsOffset_of_mem_field h
  · rfl
  · exact startsOffset_of_mem_field h
  · rfl
  · exact startsOffset_of_mem_field h
  · exact hfraction h

theorem readTime?_of_no_offset {clock : List Char} (hclock : ∀ c ∈ clock, startsOffset c = false) :
    readTime? clock = (ClockReading.read? clock endMark).bind fun r =>
      if r.clean then some (r, none) else none := by
  have hclock' : ∀ c ∈ clock, (!startsOffset c) = true := by simpa using hclock
  unfold readTime?
  rw [List.takeWhile_eq_self_iff.mpr hclock', List.dropWhile_eq_nil_iff.mpr hclock']
  rfl

theorem readTime?_of_mark {clock rest : List Char} {mark : Char}
    (hclock : ∀ c ∈ clock, startsOffset c = false) (hmark : startsOffset mark = true) :
    readTime? (clock ++ mark :: rest) = (ClockReading.read? clock mark).bind fun r =>
      if mark = 'Z' then if charAt rest 0 = endMark then some (r, some .utc) else none
      else (ClockReading.read? rest endMark).bind fun o =>
        if o.clean then (signedOffset? (mark = '-') o).map fun offset => (r, some offset)
        else none := by
  have hclock' : ∀ c ∈ clock, (!startsOffset c) = true := by simpa using hclock
  unfold readTime?
  rw [List.takeWhile_append_of_pos hclock', List.dropWhile_append_of_pos hclock',
    List.takeWhile_cons_of_neg (by simp [hmark]), List.dropWhile_cons_of_neg (by simp [hmark]),
    List.append_nil]
  simp only [Option.map_eq_bind]
  rfl

theorem readTime?_of_offset {clock rest : List Char} {mark : Char}
    (hclock : ∀ c ∈ clock, startsOffset c = false) (hmark : startsOffset mark = true)
    (hzulu : mark ≠ 'Z') : readTime? (clock ++ mark :: rest) =
      (ClockReading.read? clock mark).bind fun r => (ClockReading.read? rest endMark).bind fun o =>
        if o.clean then (signedOffset? (mark = '-') o).map fun offset => (r, some offset)
        else none := by
  rw [readTime?_of_mark hclock hmark]
  simp only [if_neg hzulu]

/-! ## The offset -/

namespace Offset

def IsWholeMinutes (o : Offset) : Prop := 60000000 ∣ o.micros

instance (o : Offset) : Decidable o.IsWholeMinutes :=
  inferInstanceAs (Decidable (60000000 ∣ o.micros))

def hours (o : Offset) : Nat := o.micros.natAbs / 3600000000

def minutes (o : Offset) : Nat := o.micros.natAbs / 60000000 % 60

theorem hours_lt (o : Offset) : o.hours < 24 := by
  have := o.inDay
  simp only [dayMicros] at this
  unfold hours
  omega

theorem minutes_lt (o : Offset) : o.minutes < 60 := Nat.mod_lt _ (by decide)

theorem natAbs_micros_eq {o : Offset} (h : o.IsWholeMinutes) :
    o.micros.natAbs = (o.hours * 3600 + o.minutes * 60) * 1000000 := by
  unfold IsWholeMinutes at h
  unfold hours minutes
  omega

theorem chars_of_isWholeMinutes {o : Offset} (h : o.IsWholeMinutes) :
    o.chars = (if o.micros < 0 then '-' else '+') :: (field 2 o.hours ++ ':' ::
      field 2 o.minutes) := by
  have hhour : (TimeOfDay.ofMicros o.micros.natAbs).hour = o.hours :=
    Nat.mod_eq_of_lt o.hours_lt
  have hminute : (TimeOfDay.ofMicros o.micros.natAbs).minute = o.minutes := rfl
  unfold IsWholeMinutes at h
  have hsecond : (TimeOfDay.ofMicros o.micros.natAbs).second = 0 := by
    simp only [TimeOfDay.ofMicros]
    omega
  have hmicro : (TimeOfDay.ofMicros o.micros.natAbs).micro = 0 := by
    simp only [TimeOfDay.ofMicros]
    omega
  simp [chars, hhour, hminute, hsecond, hmicro]

/-- A reading of the size of an offset, with the sign of the offset, is that offset. -/
theorem signedOffset?_of_natAbs {o : Offset} {r : ClockReading} (hmicro : r.micro = 0)
    (hsize : o.micros.natAbs = r.seconds * 1000000) :
    signedOffset? (decide (o.micros < 0)) r = some o := by
  obtain ⟨micros, inDay⟩ := o
  unfold signedOffset?
  generalize r.seconds = seconds at *
  simp only at hsize
  rw [hmicro]
  by_cases hzero : seconds = 0
  · obtain rfl : micros = 0 := by omega
    rw [if_pos hzero]
    rfl
  · have hmicros : (if decide (micros < 0) = true then -((seconds : Int) * 1000000 + (0 : Nat))
        else (seconds : Int) * 1000000 + (0 : Nat)) = micros := by
      split <;> rename_i hsign <;> simp only [decide_eq_true_eq] at hsign <;> omega
    rw [if_neg hzero]
    simp only [hmicros, of?, dif_pos inDay]

end Offset

/-- A time with its offset is read as what it was written from. -/
theorem readTime?_chars (t : TimeOfDay) {offset : Option Offset}
    (h : ∀ o, offset = some o → o.IsWholeMinutes) :
    readTime? (t.chars ++ (offset.map Offset.chars).getD []) =
      some (⟨t.hour, t.minute, t.second, t.micro, offset.isNone⟩, offset) := by
  cases offset with
  | none =>
      rw [Option.map_none, Option.getD_none, List.append_nil,
        readTime?_of_no_offset fun _ => startsOffset_of_mem_chars, ClockReading.read?_chars]
      rfl
  | some o =>
      have ho := h o rfl
      have hmark : startsOffset (if o.micros < 0 then '-' else '+') = true := by split <;> rfl
      have hzulu : (if o.micros < 0 then '-' else '+') ≠ 'Z' := by split <;> decide
      have hclean : ((if o.micros < 0 then '-' else '+') == endMark) = false := by
        split <;> decide
      have hsign : decide ((if o.micros < 0 then '-' else '+') = '-') = decide (o.micros < 0) := by
        split <;> simp_all
      have hrest := ClockReading.read?_hour_minute (Nat.lt_trans o.hours_lt (by decide))
        (Nat.lt_trans o.minutes_lt (by decide)) endMark
      have hoffset : signedOffset? (decide (o.micros < 0)) ⟨o.hours, o.minutes, 0, 0, true⟩ =
          some o :=
        Offset.signedOffset?_of_natAbs rfl
          (by simp [ClockReading.seconds, Offset.natAbs_micros_eq ho])
      rw [Option.map_some, Option.getD_some, Offset.chars_of_isWholeMinutes ho,
        readTime?_of_offset (fun _ => startsOffset_of_mem_chars) hmark hzulu,
        ClockReading.read?_chars, hrest, hclean, hsign, BEq.rfl, Option.bind_some, Option.bind_some,
        if_pos rfl, hoffset, Option.map_some]
      rfl

/-! ## The date -/

/-- A date of a four-digit year is cut off where it ends, whatever character parts it from the
time. -/
theorem DateTime.read?_of_date {year month day : Nat} (hyear : year < 10000) (hmonth : month < 100)
    (hday : day < 100) (separator : Char) (rest : List Char) :
    DateTime.read? (field 4 year ++ '-' :: (field 2 month ++ '-' :: (field 2 day ++
      separator :: rest))) =
      (Date.of? year month day).bind fun date => (readTime? rest).bind fun clock =>
        (TimeOfDay.of? clock.1.hour clock.1.minute clock.1.second clock.1.micro).map fun time =>
          ⟨date, time, clock.2⟩ := by
  have hne (n : Nat) : digitChar (n % 10) ≠ 'W' :=
    digitChar_ne (Nat.mod_lt _ (by decide)) (by decide)
  have hread : readField 4 (field 4 year ++ '-' :: (field 2 month ++ '-' :: (field 2 day ++
      separator :: rest))) 0 =
        some (year, '-' :: (field 2 month ++ '-' :: (field 2 day ++ separator :: rest))) := by
    rw [readField_field, Nat.mod_eq_of_lt (show year < tenTo 4 from hyear), Nat.zero_mul,
      Nat.zero_add]
  have hlength : dateLength? (field 4 year ++ '-' :: (field 2 month ++ '-' :: (field 2 day ++
      separator :: rest))) = some 10 := by
    have hweek := hne (month / tenTo 1)
    simp [dateLength?, charAt, field, hweek]
  have hweek : (field 2 month ++ '-' :: (field 2 day ++ separator :: rest)).head? ≠
      some 'W' := by
    simpa [field] using hne _
  have hdate : readDate? (field 4 year ++ '-' :: (field 2 month ++ '-' :: (field 2 day ++
      separator :: rest))) 10 = Date.of? year month day := by
    unfold readDate?
    rw [hread]
    simp only [Option.bind_eq_bind, Option.bind_some, List.head?_cons, if_true, List.drop_succ_cons,
      List.drop_zero, hweek, if_false, readField_two hmonth, readField_two hday, expect]
  have hdrop : (field 4 year ++ '-' :: (field 2 month ++ '-' :: (field 2 day ++
      separator :: rest))).drop 11 = rest := by
    simp [field]
  have hlong : 10 < (field 4 year ++ '-' :: (field 2 month ++ '-' :: (field 2 day ++
      separator :: rest))).length := by
    simp [field]
  unfold DateTime.read?
  rw [hlength]
  simp only [Option.bind_eq_bind, Option.bind_some, hdate, hlong, if_true, hdrop,
    Option.map_eq_bind, Function.comp_def]

namespace DateTime

variable {d : DateTime}

/-- **Reading undoes writing**, whatever character stands between the date and the time. -/
theorem read?_charsWith (h : ∀ o, d.offset = some o → o.IsWholeMinutes) (separator : Char) :
    DateTime.read? (d.charsWith separator) = some d := by
  obtain ⟨date, time, offset⟩ := d
  obtain ⟨hyear, hmonth, -⟩ := date.isDate
  have hday := date.day_le
  have hchars : charsWith separator ⟨date, time, offset⟩ = field 4 date.year ++ '-' ::
      (field 2 date.month ++ '-' :: (field 2 date.day ++ separator :: (time.chars ++
        (offset.map Offset.chars).getD []))) := by
    simp [charsWith, Date.chars]
  have hdate : Date.of? date.year date.month date.day = some date := dif_pos date.isDate
  have htime : TimeOfDay.of? time.hour time.minute time.second time.micro = some time :=
    dif_pos time.inDay
  rw [hchars, read?_of_date (by omega) (by omega) (by omega), readTime?_chars time h, hdate]
  simp [htime]

end DateTime

/-! ## Both ends of the text -/

def EndsInDigit (cs : List Char) : Prop := ∃ init d, d < 10 ∧ cs = init ++ [digitChar d]

theorem EndsInDigit.append {cs : List Char} (h : EndsInDigit cs) (before : List Char) :
    EndsInDigit (before ++ cs) := by
  obtain ⟨init, d, hd, rfl⟩ := h
  exact ⟨before ++ init, d, hd, (List.append_assoc ..).symm⟩

theorem endsInDigit_field (width n : Nat) : EndsInDigit (field (width + 1) n) :=
  ⟨field width (n / tenTo 1), n % 10, Nat.mod_lt _ (by decide), by
    rw [Decimal.field_add, Decimal.field_one]⟩

theorem TimeOfDay.endsInDigit_chars (t : TimeOfDay) : EndsInDigit t.chars := by
  unfold chars
  by_cases hzero : t.micro = 0
  · rw [if_pos hzero, List.append_nil]
    exact ((endsInDigit_field 1 t.second).append [':']).append _
  · rw [if_neg hzero]
    exact ((endsInDigit_field 5 t.micro).append ['.']).append _

theorem Offset.endsInDigit_chars {o : Offset} (h : o.IsWholeMinutes) : EndsInDigit o.chars := by
  rw [chars_of_isWholeMinutes h]
  exact (endsInDigit_field 1 o.minutes).append (_ :: (field 2 o.hours ++ [':']))

namespace DateTime

variable {d : DateTime}

theorem endsInDigit_charsWith (h : ∀ o, d.offset = some o → o.IsWholeMinutes) (separator : Char) :
    EndsInDigit (d.charsWith separator) := by
  unfold charsWith
  cases ho : d.offset with
  | none =>
      rw [Option.map_none, Option.getD_none, List.append_nil]
      exact (d.time.endsInDigit_chars.append [separator]).append _
  | some o => exact (Offset.endsInDigit_chars (h o ho)).append _

/-- How a date-time may be spelt: by its standard text, at whose end a letter may stand for an
offset of zero. -/
inductive IsSpelt (d : DateTime) : List Char → Prop
  | standard : d.IsSpelt d.isoText.toList
  | zulu {stem : List Char} {z : Char} (htext : d.isoText.toList = stem ++ "+00:00".toList)
      (hz : z = 'Z' ∨ z = 'z') : d.IsSpelt (stem ++ [z])

theorem toList_isoText (d : DateTime) : d.isoText.toList = d.charsWith 'T' :=
  String.toList_ofList

theorem head?_isoText (d : DateTime) : ∃ c, d.isoText.toList.head? = some c ∧
    Text.isBlank c = false := by
  refine ⟨digitChar (d.date.year / tenTo 3 % 10), ?_, isBlank_digitChar (Nat.mod_lt _ (by decide))⟩
  simp [toList_isoText, charsWith, Date.chars, field]

theorem IsSpelt.spellOutZulu_eq (h : ∀ o, d.offset = some o → o.IsWholeMinutes) {cs : List Char}
    (hcs : d.IsSpelt cs) : spellOutZulu cs = d.isoText.toList := by
  cases hcs with
  | standard =>
      obtain ⟨init, n, hn, htext⟩ := endsInDigit_charsWith h 'T'
      have hz := digitChar_ne hn (show digit? 'z' = none by decide)
      have hZ := digitChar_ne hn (show digit? 'Z' = none by decide)
      rw [toList_isoText, htext, spellOutZulu, List.getLast?_concat]
      simp [hz, hZ]
  | zulu htext hz =>
      rw [htext, spellOutZulu, List.getLast?_concat]
      simp [hz.symm]

theorem IsSpelt.trim_eq (h : ∀ o, d.offset = some o → o.IsWholeMinutes) {cs : List Char}
    (hcs : d.IsSpelt cs) : Text.trim cs = cs := by
  obtain ⟨first, hfirst, hblank⟩ := d.head?_isoText
  cases hcs with
  | standard =>
      obtain ⟨init, n, hn, htext⟩ := endsInDigit_charsWith h 'T'
      apply Text.trim_eq_self
      · intro c hc
        obtain rfl : first = c := Option.some.inj (hfirst.symm.trans hc)
        exact hblank
      · intro c hc
        rw [toList_isoText, htext, List.getLast?_concat] at hc
        exact Option.some.inj hc ▸ isBlank_digitChar hn
  | @zulu stem z htext hz =>
      have hletter : Text.isBlank z = false := by rcases hz with rfl | rfl <;> decide
      apply Text.trim_eq_self
      · intro c hc
        cases stem with
        | nil => exact Option.some.inj hc ▸ hletter
        | cons s stem =>
            rw [htext] at hfirst
            obtain rfl : s = first := Option.some.inj hfirst
            exact Option.some.inj hc ▸ hblank
      · intro c hc
        rw [List.getLast?_concat] at hc
        exact Option.some.inj hc ▸ hletter

theorem IsSpelt.ne_nil {cs : List Char} (hcs : d.IsSpelt cs) : cs ≠ [] := by
  obtain ⟨first, hfirst, -⟩ := d.head?_isoText
  cases hcs with
  | standard =>
      intro hnil
      rw [hnil] at hfirst
      cases hfirst
  | zulu => simp

end DateTime

end Time

open Time

/-- **Reading undoes writing.** The standard text of a date-time without an offset or with one of
whole minutes, with any blanks around it and with a letter for an offset of zero or without, is
read as the instant that the date-time denotes. If that lies outside the calendar, the text is
refused for that. -/
theorem readTimestamp_of_isSpelt {d : DateTime}
    (hoffset : ∀ o, d.offset = some o → o.IsWholeMinutes) {cs before after : List Char}
    (hcs : d.IsSpelt cs) (hbefore : ∀ c ∈ before, Text.isBlank c = true)
    (hafter : ∀ c ∈ after, Text.isBlank c = true) :
    (readTimestamp (.text (String.ofList (before ++ cs ++ after))) =
      match d.instant? with
      | some i => .ok i
      | none => .error (.outOfRange (String.ofList (before ++ cs ++ after)))) ∧
    ∀ i : Instant, d.instant? = some i ↔ i.toDateTime.position = d.position := by
  have htrim : Text.trim (String.ofList (before ++ cs ++ after)).toList = cs := by
    rw [String.toList_ofList, Text.trim_append hbefore hafter, hcs.trim_eq hoffset]
  have hread : DateTime.read? (spellOutZulu cs) = some d := by
    rw [hcs.spellOutZulu_eq hoffset, DateTime.toList_isoText, DateTime.read?_charsWith hoffset]
  have hne : cs.isEmpty = false := by simpa using hcs.ne_nil
  refine ⟨?_, fun i => ?_⟩
  · simp only [readTimestamp, readTimestampText, htrim, hread, hne, Bool.false_eq_true, if_false]
    cases d.instant? <;> rfl
  · rw [DateTime.instant?_eq_some_iff, i.position_toDateTime]

/-- Across the end of a leap day, in UTC by a small letter, and a minute before the calendar. -/
theorem readTimestamp_at_edges :
    readTimestamp (.text " 2024-02-29T23:30:00.000001-00:45\t\n") =
      .ok ⟨63844848900000001, by decide⟩ ∧
    readTimestamp (.text "\u3000\t2024-03-01T00:15:00.000001z") =
      .ok ⟨63844848900000001, by decide⟩ ∧
    readTimestamp (.text "0001-01-01T00:00:00+00:01") =
      .error (.outOfRange "0001-01-01T00:00:00+00:01") := by
  let lateEvening : DateTime :=
    ⟨⟨2024, 2, 29, by decide⟩, ⟨23, 30, 0, 1, by decide⟩, some ⟨-2700000000, by decide⟩⟩
  let pastMidnight : DateTime := ⟨⟨2024, 3, 1, by decide⟩, ⟨0, 15, 0, 1, by decide⟩, some .utc⟩
  let beforeAll : DateTime := ⟨⟨1, 1, 1, by decide⟩, .midnight, some ⟨60000000, by decide⟩⟩
  have hevening := (@readTimestamp_of_isSpelt lateEvening (by rintro _ ⟨⟩; decide) _
    [' '] ['\t', '\n'] .standard (List.all_eq_true.mp (by decide))
    (List.all_eq_true.mp (by decide))).1
  have hmidnight := (@readTimestamp_of_isSpelt pastMidnight (by rintro _ ⟨⟩; decide) _
    ['\u3000', '\t'] [] (@DateTime.IsSpelt.zulu _ "2024-03-01T00:15:00.000001".toList _
      (by rw [DateTime.toList_isoText]; decide) (.inr rfl)) (List.all_eq_true.mp (by decide))
    (by simp)).1
  have hbefore := (@readTimestamp_of_isSpelt beforeAll (by rintro _ ⟨⟩; decide) _
    [] [] .standard (by simp) (by simp)).1
  have heveningText : String.ofList ([' '] ++ lateEvening.isoText.toList ++ ['\t', '\n']) =
      " 2024-02-29T23:30:00.000001-00:45\t\n" := by
    rw [DateTime.toList_isoText, ← String.toList_inj, String.toList_ofList]
    decide
  have hmidnightText : String.ofList (['\u3000', '\t'] ++
      ("2024-03-01T00:15:00.000001".toList ++ ['z']) ++ []) =
      "\u3000\t2024-03-01T00:15:00.000001z" := by
    rw [← String.toList_inj, String.toList_ofList]
    decide
  have hbeforeText : String.ofList ([] ++ beforeAll.isoText.toList ++ []) =
      "0001-01-01T00:00:00+00:01" := by
    rw [DateTime.toList_isoText, ← String.toList_inj, String.toList_ofList]
    decide
  have hsame : lateEvening.instant? = some ⟨63844848900000001, by decide⟩ ∧
      pastMidnight.instant? = some ⟨63844848900000001, by decide⟩ ∧ beforeAll.instant? = none := by
    decide
  rw [heveningText, hsame.1] at hevening
  rw [hmidnightText, hsame.2.1] at hmidnight
  rw [hbeforeText, hsame.2.2] at hbefore
  exact ⟨hevening, hmidnight, hbefore⟩

end FeedIntake
