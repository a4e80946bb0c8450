import RowStream.Proofs.Calendar.DayNumber

/-!
# Instants and what clocks show

Every instant is shown by one date and time of day in UTC (`DateTime.Shows`): as many days of 86400
seconds from 1970-01-01 as the date has, and the rest of the seconds as time of day. The nanoseconds
stay as they are, so those of a leap second run on past its second and stay in its day. The day of an
instant is that date's, before 1970 too, since the quotient is rounded down; and so is the number of its
microseconds.

* `existsUnique_shows`, `dayNumber_of_shows`: the date of an instant.
* `micros_eq`, `has_int64`: its microseconds.
-/

namespace RowStream.Calendar

/-- The seconds of the day before a time. -/
def Time.secondOfDay (t : Time) : Nat := t.hour * 3600 + t.minute * 60 + t.second

/-- Clocks in UTC show the date and time at the instant. -/
structure DateTime.Shows (u : DateTime) (t : Instant) : Prop where
  seconds : t.seconds = u.date.dayNumber * 86400 + u.time.secondOfDay
  nano : t.nano = u.time.nano

theorem Time.secondOfDay_lt (t : Time) : t.secondOfDay < 86400 := by
  obtain ⟨hhour, hminute, hsecond, -⟩ := t.isTime
  unfold secondOfDay
  omega

theorem Time.ext_iff {t u : Time} :
    t = u ↔ t.hour = u.hour ∧ t.minute = u.minute ∧ t.second = u.second ∧ t.nano = u.nano := by
  cases t
  cases u
  simp

/-- The second of the day and the nanoseconds say the time. -/
theorem Time.eq_of_secondOfDay {t u : Time} (h : t.secondOfDay = u.secondOfDay)
    (hnano : t.nano = u.nano) : t = u := by
  obtain ⟨-, htminute, htsecond, -⟩ := t.isTime
  obtain ⟨-, huminute, husecond, -⟩ := u.isTime
  unfold secondOfDay at h
  exact ext_iff.mpr ⟨by omega, by omega, by omega, hnano⟩

namespace Instant

/-- The day of an instant is one of the calendar. -/
theorem exists_date (t : Instant) : ∃ d : Date, d.dayNumber = t.dayNumber := by
  obtain ⟨hfirst, hlast, -⟩ := t.isInstant
  have hfirstDay : firstDay = -95746129 := by decide
  have hlastDay : lastDay = 95745399 := by decide
  unfold firstSecond at hfirst
  unfold lastSecond at hlast
  obtain ⟨d, hd⟩ := Date.exists_eraDay (n := t.seconds / 86400 + 719163) (by omega) (by omega)
  exact ⟨d, by rw [Date.dayNumber_eq, hd, Date.epochDay_toInt, dayNumber]; omega⟩

/-- The time of the day at an instant. -/
def time (t : Instant) : Time where
  hour := (t.seconds % 86400).toNat / 3600
  minute := (t.seconds % 86400).toNat / 60 % 60
  second := (t.seconds % 86400).toNat % 60
  nano := t.nano
  isTime := by
    obtain ⟨-, -, hnano⟩ := t.isInstant
    exact ⟨by omega, by omega, by omega, hnano⟩

theorem secondOfDay_time (t : Instant) : (t.time.secondOfDay : Int) = t.seconds % 86400 := by
  simp only [Time.secondOfDay, time]
  omega

variable {t : Instant} {u : DateTime}

/-- The day of an instant is that of the date which clocks show. -/
theorem dayNumber_of_shows (h : u.Shows t) : t.dayNumber = u.date.dayNumber := by
  have hlt := u.time.secondOfDay_lt
  rw [dayNumber, h.seconds]
  omega

/-- **The date and time that clocks show** at an instant: there is one, and no other. -/
theorem existsUnique_shows (t : Instant) : ∃! u : DateTime, u.Shows t := by
  obtain ⟨d, hd⟩ := t.exists_date
  refine ⟨⟨d, t.time⟩, ⟨?_, rfl⟩, fun v hv => ?_⟩
  · rw [secondOfDay_time, hd, dayNumber]
    omega
  · have hdate : v.date = d := Date.dayNumber_injective (by rw [hd, dayNumber_of_shows hv])
    have htime : v.time = t.time := by
      refine Time.eq_of_secondOfDay ?_ hv.nano.symm
      have hseconds := hv.seconds
      have hlt := v.time.secondOfDay_lt
      have hrest := t.secondOfDay_time
      omega
    rw [← hdate, ← htime]

/-- The nanoseconds from 1970-01-01 00:00:00 to the instant. -/
def nanos (t : Instant) : Int := t.seconds * 1000000000 + t.nano

/-- The microseconds are rounded down, before 1970 too. -/
theorem micros_eq (t : Instant) : t.micros = t.nanos / 1000 := by
  unfold micros nanos
  omega

/-- **Seconds as microseconds** have 64 bits, without and with those of the nanoseconds. -/
theorem has_int64 (t : Instant) :
    Integer.Range.int64.has (t.seconds * 1000000) = true ∧
      Integer.Range.int64.has t.micros = true := by
  obtain ⟨hfirst, hlast, hnano⟩ := t.isInstant
  simp only [Integer.Range.has_iff, Integer.Range.int64, micros]
  unfold firstSecond at hfirst
  unfold lastSecond at hlast
  omega

end Instant

end RowStream.Calendar
