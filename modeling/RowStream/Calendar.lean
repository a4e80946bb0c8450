import RowStream.Number.Padded

/-!
# Civil dates and instants

Dates of the proleptic Gregorian calendar in the years -262143 to 262142, times of day with
nanoseconds, and instants as seconds since 1970-01-01 00:00:00. Nanoseconds past 10^9 are those of a
leap second that follows the second. Who names a time or an instant puts leap seconds at the end of
a minute only; nanoseconds that are set later may be past 10^9 after any second.

* `Date.ofYmd?`, `Time.ofHms?`, `Instant.ofSeconds?`: what is there of numbers that may be out of
  range.
* `Date.dayNumber`, `Instant.dayNumber`, `Instant.micros`: days and microseconds since 1970-01-01.
* `DateTime.text`: a date and a time written out.

Out of scope: time zones, durations, and the reading of dates from text.
-/

namespace RowStream.Calendar

/-- A year with 366 days. -/
def isLeap (year : Int) : Bool :=
  year % 4 == 0 && (year % 100 != 0 || year % 400 == 0)

/-- The days of a month; 0 outside 1 to 12. -/
def monthDays (year : Int) : Nat → Nat
  | 1 | 3 | 5 | 7 | 8 | 10 | 12 => 31
  | 4 | 6 | 9 | 11 => 30
  | 2 => if isLeap year then 29 else 28
  | _ => 0

/-- The years that dates have. -/
def firstYear : Int := -262143

@[inherit_doc firstYear]
def lastYear : Int := 262142

/-- Year, month and day name a date. -/
def IsDate (year : Int) (month day : Nat) : Prop :=
  firstYear ≤ year ∧ year ≤ lastYear ∧ 1 ≤ day ∧ day ≤ monthDays year month

instance (year : Int) (month day : Nat) : Decidable (IsDate year month day) := by
  unfold IsDate; infer_instance

/-- A date. -/
structure Date where
  year : Int
  month : Nat
  day : Nat
  isDate : IsDate year month day
deriving Repr, DecidableEq

/-- The date of a year, month and day, when there is one. -/
def Date.ofYmd? (year : Int) (month day : Nat) : Option Date :=
  if h : IsDate year month day then some ⟨year, month, day, h⟩ else none

/-- The days of a year before the first of a month. -/
def daysBeforeMonth (year : Int) : Nat → Nat
  | 0 => 0
  | month + 1 => daysBeforeMonth year month + monthDays year month

/-- The days from 0001-01-01 to the first day of a year. -/
def daysBeforeYear (year : Int) : Int :=
  let y := year - 1
  365 * y + y / 4 - y / 100 + y / 400

/-- The number of the date, where 0001-01-01 has number 1. -/
def Date.eraDay (d : Date) : Int :=
  daysBeforeYear d.year + daysBeforeMonth d.year d.month + d.day

/-- The number of 1970-01-01 in the era. -/
def epochDay : Int32 := 719163

/-- The days from 1970-01-01 to the date, worked out in 32 bits. -/
def Date.dayNumber (d : Date) : Int :=
  (Int32.ofInt d.eraDay - epochDay).toInt

/-- Hour, minute, second and nanosecond are a time of day. -/
def IsTime (hour minute second nano : Nat) : Prop :=
  hour < 24 ∧ minute < 60 ∧ second < 60 ∧ nano < 2000000000

instance (hour minute second nano : Nat) : Decidable (IsTime hour minute second nano) := by
  unfold IsTime; infer_instance

/-- A time of day. -/
structure Time where
  hour : Nat
  minute : Nat
  second : Nat
  nano : Nat
  isTime : IsTime hour minute second nano
deriving Repr, DecidableEq

/-- The time of an hour, minute, second and nanosecond, when there is one. -/
def Time.ofHms? (hour minute second nano : Nat) : Option Time :=
  if h : IsTime hour minute second nano ∧ (nano < 1000000000 ∨ second = 59) then
    some ⟨hour, minute, second, nano, h.1⟩
  else none

/-- The first moment of a day. -/
def Time.midnight : Time := ⟨0, 0, 0, 0, by decide⟩

/-- A date and a time of day, in no particular place. -/
structure DateTime where
  date : Date
  time : Time
deriving Repr, DecidableEq

/-- The days from 1970-01-01 to the date. -/
def DateTime.dayNumber (t : DateTime) : Int := t.date.dayNumber

/-- The seconds that instants have: from the first to the last day of the calendar. -/
def firstSecond : Int := -8334601228800

@[inherit_doc firstSecond]
def lastSecond : Int := 8210266876799

/-- Seconds and nanoseconds are an instant. -/
def IsInstant (seconds : Int) (nano : Nat) : Prop :=
  firstSecond ≤ seconds ∧ seconds ≤ lastSecond ∧ nano < 2000000000

instance (seconds : Int) (nano : Nat) : Decidable (IsInstant seconds nano) := by
  unfold IsInstant; infer_instance

/-- An instant. -/
structure Instant where
  seconds : Int
  nano : Nat
  isInstant : IsInstant seconds nano
deriving Repr, DecidableEq

/-- The instant of seconds and nanoseconds, when there is one. -/
def Instant.ofSeconds? (seconds : Int) (nano : Nat) : Option Instant :=
  if h : IsInstant seconds nano ∧ (nano < 1000000000 ∨ seconds % 60 = 59) then
    some ⟨seconds, nano, h.1⟩
  else none

/-- The number of the day, counted from 1970-01-01, that the instant lies in. -/
def Instant.dayNumber (t : Instant) : Int := t.seconds / 86400

/-- The microseconds since 1970-01-01 00:00:00, cut off. -/
def Instant.micros (t : Instant) : Int := t.seconds * 1000000 + (t.nano / 1000 : Nat)

/-- A year in text: four digits, and a sign in front outside 0 to 9999. -/
def yearText (year : Int) : String :=
  if 0 ≤ year ∧ year ≤ 9999 then Padded.text 4 year.toNat
  else (if year < 0 then "-" else "+") ++ Padded.text 4 year.natAbs

/-- Date and time in text, to the millisecond; a leap second has the number after its second. -/
def DateTime.text (t : DateTime) : String :=
  yearText t.date.year ++ "-" ++ Padded.text 2 t.date.month ++ "-" ++ Padded.text 2 t.date.day ++
    " " ++ Padded.text 2 t.time.hour ++ ":" ++ Padded.text 2 t.time.minute ++ ":" ++
    Padded.text 2 (t.time.second + t.time.nano / 1000000000) ++ "." ++
    Padded.text 3 (t.time.nano % 1000000000 / 1000000)

end RowStream.Calendar
