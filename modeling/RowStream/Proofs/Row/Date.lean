import RowStream.Proofs.Calendar.Instant
import RowStream.Proofs.Row.Integer

/-!
# Dates in integer fields

With the conversion of dates on, whatever lies in a day becomes its number in a field of 32 bits, and an
instant its microseconds in a field of 64 bits. Neither is ever out of range, so no date is lost or
refused: the calendar ends long before the numbers do. What the numbers count is said by `Date.Counted`
and `Instant.Counted`.

* `Date.counted`, `Instant.counted`: the numbers.
* `single_of_dayNumber`, `single_of_micros`, `single_unconverted`: what becomes of them in fields.
-/

namespace RowStream.Calendar

open Integer (Range)

/-- The number of a date counts the days from 1970-01-01, one more for the date that follows. Days of the
era, their difference to the epoch and so the number have 32 bits. -/
structure Date.Counted (d : Date) : Prop where
  counts : ∀ n, d.dayNumber = n ↔ d.Away n
  next : ∀ e, d.next? = some e → e.dayNumber = d.dayNumber + 1
  era : Range.int32.has d.eraDay = true
  subtraction : d.dayNumber = d.eraDay - epochDay.toInt
  fits : Range.int32.has d.dayNumber = true

/-- One date and time is shown in UTC at the instant, and the day of the instant is that date's. The
microseconds are those of the seconds and, rounded down, of the nanoseconds, which is all of the instant
rounded down; product and sum have 64 bits. -/
structure Instant.Counted (t : Instant) : Prop where
  shown : ∃! u : DateTime, u.Shows t
  day : ∀ u : DateTime, u.Shows t → t.dayNumber = u.date.dayNumber
  fits : Range.int32.has t.dayNumber = true
  micros : t.micros = t.seconds * 1000000 + (t.nano : Int) / 1000
  down : t.micros = t.nanos / 1000
  product : Range.int64.has (t.seconds * 1000000) = true
  sum : Range.int64.has t.micros = true

theorem Date.counted (d : Date) : d.Counted where
  counts _ := dayNumber_eq_iff
  next e h := by
    rw [dayNumber_eq, dayNumber_eq, eraDay_next h]
    omega
  era := d.has_int32.1
  subtraction := d.dayNumber_eq
  fits := d.dayNumber_eq ▸ d.has_int32.2

theorem Instant.counted (t : Instant) : t.Counted where
  shown := t.existsUnique_shows
  day _ := dayNumber_of_shows
  fits := by
    obtain ⟨d, hd⟩ := t.exists_date
    exact hd ▸ d.counted.fits
  micros := by
    rw [Instant.micros, Int.natCast_ediv]
    rfl
  down := t.micros_eq
  product := t.has_int64.1
  sum := t.has_int64.2

end RowStream.Calendar

namespace RowStream.Row

open Calendar (Date Instant)
open Encoder (single)
open Integer (Range)

variable {p : Pool} {path : String} {s : Descriptor.Scalar} {v : Value} {n : Int}

/-- A day has a number of 32 bits. -/
theorem has_dayNumber (h : v.dayNumber? = some n) : Range.int32.has n = true := by
  cases v with
  | date d => exact Option.some.inj h ▸ d.counted.fits
  | datetime t => exact Option.some.inj h ▸ t.date.counted.fits
  | timestamp t => exact Option.some.inj h ▸ t.counted.fits
  | _ => exact nomatch h

/-- The microseconds of an instant have 64 bits. -/
theorem has_micros (h : v.micros? = some n) : Range.int64.has n = true := by
  cases v with
  | timestamp t => exact Option.some.inj h ▸ t.counted.sum
  | _ => exact nomatch h

/-- An instant lies in a day. -/
theorem dayNumber_of_micros (h : v.micros? = some n) : ∃ day, v.dayNumber? = some day := by
  cases v with
  | timestamp t => exact ⟨t.dayNumber, rfl⟩
  | _ => exact nomatch h

/-- What lies in a day is no integer or text: the conversion decides what it stands for. -/
theorem integer?_of_dayNumber (h : v.dayNumber? = some n) (convertDates : Bool)
    (ofDate : Value → Option Int) :
    v.integer? convertDates ofDate = if convertDates then ofDate v else none := by
  cases v with
  | date _ | datetime _ | timestamp _ => rfl
  | _ => exact nomatch h

/-- What lies in a day stands for an integer only with the conversion on. -/
theorem converts_of_integer? {day : Int} {convertDates : Bool} {ofDate : Value → Option Int}
    (h : v.dayNumber? = some day) (hn : v.integer? convertDates ofDate = some n) :
    convertDates = true := by
  cases convertDates with
  | true => rfl
  | false =>
    rw [integer?_of_dayNumber h] at hn
    exact nomatch hn

/-- Without the conversion, nothing that lies in a day fits a field for integers. -/
theorem single_unconverted (h : v.dayNumber? = some n) {i : Integers} (hs : Integers.of? s = some i) :
    single p false (.scalar s) path v = .error (.mismatch path s.name v.kindName) :=
  single_not_integer hs (integer?_of_dayNumber h false i.ofDate) path

/-- The number of a day in a field of 32 bits. -/
theorem single_of_dayNumber (h : v.dayNumber? = some n) (hs : s ∈ [.int32, .sint32, .sfixed32]) :
    single p true (.scalar s) path v = .ok (.int32 (Int32.ofInt n)) ∧ (Int32.ofInt n).toInt = n := by
  have hfits := has_dayNumber h
  refine ⟨?_, Integer.toInt_ofInt32 hfits⟩
  rw [single_integer (Integers.of?_int32 s hs) ((integer?_of_dayNumber h true _).trans h)]
  exact if_pos hfits

/-- The microseconds of an instant in a field of 64 bits. -/
theorem single_of_micros (h : v.micros? = some n) (hs : s ∈ [.int64, .sint64, .sfixed64]) :
    single p true (.scalar s) path v = .ok (.int64 (Int64.ofInt n)) ∧ (Int64.ofInt n).toInt = n := by
  have hfits := has_micros h
  obtain ⟨day, hday⟩ := dayNumber_of_micros h
  refine ⟨?_, Integer.toInt_ofInt64 hfits⟩
  rw [single_integer (Integers.of?_int64 s hs) ((integer?_of_dayNumber hday true _).trans h)]
  exact if_pos hfits

/-- **The numbers of dates and instants** are exact, before 1970 too, and the whole calendar stays in
range: with the conversion on, every date, date and time and instant becomes its day number in a field of
32 bits, and every instant its microseconds in a field of 64 bits. With it off they are mismatches, so none
is ever out of range. -/
theorem dates_exact (p : Pool) (path : String) :
    (∀ d : Date, d.Counted) ∧ (∀ t : Instant, t.Counted) ∧
      (∀ v n, Value.dayNumber? v = some n → ∀ s ∈ [.int32, .sint32, .sfixed32],
        single p true (.scalar s) path v = .ok (.int32 (Int32.ofInt n)) ∧ (Int32.ofInt n).toInt = n ∧
          single p false (.scalar s) path v = .error (.mismatch path s.name v.kindName)) ∧
      ∀ v n, Value.micros? v = some n → ∀ s ∈ [.int64, .sint64, .sfixed64],
        single p true (.scalar s) path v = .ok (.int64 (Int64.ofInt n)) ∧ (Int64.ofInt n).toInt = n ∧
          single p false (.scalar s) path v = .error (.mismatch path s.name v.kindName) := by
  refine ⟨Date.counted, Instant.counted, fun v n h s hs => ?_, fun v n h s hs => ?_⟩
  · obtain ⟨hsingle, hsame⟩ := single_of_dayNumber h hs
    exact ⟨hsingle, hsame, single_unconverted h (Integers.of?_int32 s hs)⟩
  · obtain ⟨hsingle, hsame⟩ := single_of_micros h hs
    obtain ⟨day, hday⟩ := dayNumber_of_micros h
    exact ⟨hsingle, hsame, single_unconverted hday (Integers.of?_int64 s hs)⟩

/-- The end of February 1900, which was no leap year, and the last second before 1970, as a leap
second. -/
theorem dates_exact_century :
    let d : Date := ⟨1900, 2, 28, by decide⟩
    let e : Date := ⟨1900, 3, 1, by decide⟩
    let t : Instant := ⟨-1, 1500000000, by decide⟩
    e.dayNumber = d.dayNumber + 1 ∧ e.Away (-25508) ∧
      single {} true (.scalar .sfixed32) "d" (.date e) = .ok (.int32 (Int32.ofInt (-25508))) ∧
      single {} true (.scalar .int32) "d" (.timestamp t) = .ok (.int32 (Int32.ofInt (-1))) ∧
      single {} true (.scalar .int64) "d" (.timestamp t) = .ok (.int64 (Int64.ofInt 500000)) := by
  intro d e t
  obtain ⟨hdate, -, hday, hmicros⟩ := dates_exact {} "d"
  exact ⟨(hdate d).next e (by decide), ((hdate e).counts _).mp (by decide),
    (hday (.date e) (-25508) (by decide) .sfixed32 (by decide)).1,
    (hday (.timestamp t) (-1) (by decide) .int32 (by decide)).1,
    (hmicros (.timestamp t) 500000 (by decide) .int64 (by decide)).1⟩

end RowStream.Row
