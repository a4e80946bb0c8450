import Mathlib.Data.Int.Order.Basic
import Mathlib.Tactic.IntervalCases
import Mathlib.Tactic.Linarith
import RowStream.Calendar
import RowStream.Proofs.Number.Integer

/-!
# The numbers of dates

The calendar says which date follows a date (`Date.next?`): the next day of the month, else the first of
the next month, else the first of the next year. The formula for the number of a date keeps to it. It is
one more for the date that follows, every number between the first and the last date is that of a date,
and no two dates share one. So it counts the dates from 1970-01-01 (`Date.Away`), forwards and backwards,
over leap years, centuries and the year zero. All of it stays within 32 bits, so the subtraction that
moves the origin to 1970 never wraps.

* `eraDay_next`, `next?_eq_none`: the date that follows.
* `eraDay_injective`, `exists_eraDay`: numbers and dates.
* `dayNumber_eq`: the subtraction in 32 bits.
* `dayNumber_eq_iff`: the number counts dates.
-/

namespace RowStream.Calendar

/-! ## Years and months -/

/-- The days of a year. -/
def yearDays (year : Int) : Nat := if isLeap year then 366 else 365

theorem daysBeforeMonth_last (year : Int) : daysBeforeMonth year 13 = yearDays year := by
  simp only [daysBeforeMonth, monthDays, yearDays]
  split <;> rfl

theorem daysBeforeMonth_mono (year : Int) : Monotone (daysBeforeMonth year) :=
  monotone_nat_of_le_succ fun _ => Nat.le_add_right _ _

theorem isLeap_iff {year : Int} :
    isLeap year = true ↔ year % 4 = 0 ∧ (year % 100 ≠ 0 ∨ year % 400 = 0) := by
  simp [isLeap]

/-- The leap years are what the quotients by 4, 100 and 400 count. -/
theorem daysBeforeYear_succ (year : Int) :
    daysBeforeYear (year + 1) = daysBeforeYear year + yearDays year := by
  unfold daysBeforeYear yearDays
  split
  · rename_i hleap
    have hleap := isLeap_iff.mp hleap
    dsimp only
    omega
  · rename_i hplain
    have hplain := mt isLeap_iff.mpr hplain
    dsimp only
    omega

theorem daysBeforeYear_mono {y z : Int} (h : y ≤ z) : daysBeforeYear y ≤ daysBeforeYear z := by
  unfold daysBeforeYear
  dsimp only
  omega

theorem month_bounds {year : Int} {month : Nat} (h : 0 < monthDays year month) :
    1 ≤ month ∧ month ≤ 12 := by
  unfold monthDays at h
  split at h <;> omega

theorem monthDays_pos {year : Int} {month : Nat} (h : 1 ≤ month) (h' : month ≤ 12) :
    0 < monthDays year month := by
  interval_cases month <;> simp only [monthDays] <;> first | decide | (split <;> decide)

namespace Date

theorem bounds (d : Date) : firstYear ≤ d.year ∧ d.year ≤ lastYear ∧ 1 ≤ d.month ∧ d.month ≤ 12 ∧
    1 ≤ d.day ∧ d.day ≤ monthDays d.year d.month := by
  obtain ⟨hfirst, hlast, hone, hday⟩ := d.isDate
  obtain ⟨hmonth, htwelve⟩ := month_bounds (Nat.lt_of_lt_of_le hone hday)
  exact ⟨hfirst, hlast, hmonth, htwelve, hone, hday⟩

theorem ext_iff {d e : Date} : d = e ↔ d.year = e.year ∧ d.month = e.month ∧ d.day = e.day := by
  cases d
  cases e
  simp

theorem ofYmd?_eq_some {year : Int} {month day : Nat} {d : Date} :
    ofYmd? year month day = some d ↔ d.year = year ∧ d.month = month ∧ d.day = day := by
  unfold ofYmd?
  split
  · rw [Option.some.injEq, ext_iff]
    simp only [eq_comm]
  · rename_i hnone
    refine iff_of_false (by simp) ?_
    rintro ⟨rfl, rfl, rfl⟩
    exact hnone d.isDate

theorem ofYmd?_eq_none {year : Int} {month day : Nat} :
    ofYmd? year month day = none ↔ ¬ IsDate year month day := by
  unfold ofYmd?
  split <;> simp_all

/-! ## The date that follows -/

/-- The date that follows a date, none after the last. -/
def next? (d : Date) : Option Date :=
  ofYmd? d.year d.month (d.day + 1) <|> ofYmd? d.year (d.month + 1) 1 <|> ofYmd? (d.year + 1) 1 1

/-- The date `e` is the next day of the month, or the first of the next month, or of the next year. -/
inductive Follows (d e : Date) : Prop
  | day (year : e.year = d.year) (month : e.month = d.month) (day : e.day = d.day + 1)
  | month (ends : d.day = monthDays d.year d.month) (year : e.year = d.year)
      (month : e.month = d.month + 1) (day : e.day = 1)
  | year (ends : d.day = monthDays d.year d.month) (december : d.month = 12)
      (year : e.year = d.year + 1) (month : e.month = 1) (day : e.day = 1)

/-- The month of a date ends with it if the month has no next day. -/
theorem day_eq_of_none {d : Date} (h : ofYmd? d.year d.month (d.day + 1) = none) :
    d.day = monthDays d.year d.month := by
  obtain ⟨hfirst, hlast, -, -, -, hday⟩ := d.bounds
  have hno := ofYmd?_eq_none.mp h
  by_contra hne
  exact hno ⟨hfirst, hlast, by omega, by omega⟩

/-- The year of a date ends with its month if it has no next month. -/
theorem month_eq_of_none {d : Date} (h : ofYmd? d.year (d.month + 1) 1 = none) : d.month = 12 := by
  obtain ⟨hfirst, hlast, -, htwelve, -, -⟩ := d.bounds
  have hno := ofYmd?_eq_none.mp h
  by_contra hne
  exact hno ⟨hfirst, hlast, le_refl 1, monthDays_pos (by omega) (by omega)⟩

theorem follows_of_next? {d e : Date} (h : d.next? = some e) : d.Follows e := by
  unfold next? at h
  cases hday : ofYmd? d.year d.month (d.day + 1) with
  | some f =>
    simp only [hday, Option.orElse_eq_orElse, Option.orElse_some, Option.some.injEq] at h
    obtain ⟨hy, hm, hd⟩ := ofYmd?_eq_some.mp (h ▸ hday)
    exact .day hy hm hd
  | none =>
    have hends := day_eq_of_none hday
    cases hmonth : ofYmd? d.year (d.month + 1) 1 with
    | some f =>
      simp only [hday, hmonth, Option.orElse_eq_orElse, Option.orElse_none, Option.orElse_some,
        Option.some.injEq] at h
      obtain ⟨hy, hm, hd⟩ := ofYmd?_eq_some.mp (h ▸ hmonth)
      exact .month hends hy hm hd
    | none =>
      simp only [hday, hmonth, Option.orElse_eq_orElse, Option.orElse_none] at h
      obtain ⟨hy, hm, hd⟩ := ofYmd?_eq_some.mp h
      exact .year hends (month_eq_of_none hmonth) hy hm hd

/-- Only the last date of the last year has none that follows. -/
theorem next?_eq_none {d : Date} (h : d.next? = none) :
    d.year = lastYear ∧ d.month = 12 ∧ d.day = monthDays d.year d.month := by
  simp only [next?, Option.orElse_eq_orElse, Option.orElse_eq_or, Option.or_eq_none_iff] at h
  obtain ⟨hday, hmonth, hyear⟩ := h
  obtain ⟨hfirst, hlast, -⟩ := d.bounds
  refine ⟨?_, month_eq_of_none hmonth, day_eq_of_none hday⟩
  by_contra hne
  exact ofYmd?_eq_none.mp hyear ⟨by omega, by omega, le_refl 1, monthDays_pos (by omega) (by omega)⟩

/-- **The date that follows** has the next number. -/
theorem eraDay_next {d e : Date} (h : d.next? = some e) : e.eraDay = d.eraDay + 1 := by
  unfold eraDay
  cases follows_of_next? h with
  | day year month day =>
    rw [year, month, day]
    omega
  | month ends year month day =>
    rw [year, month, day, ends, daysBeforeMonth]
    omega
  | year ends december year month day =>
    have hyear := daysBeforeYear_succ d.year
    have hdays := daysBeforeMonth_last d.year
    rw [daysBeforeMonth] at hdays
    rw [year, month, day, ends, december, hyear]
    simp only [daysBeforeMonth, monthDays] at hdays ⊢
    omega

/-! ## Numbers and dates -/

/-- A date lies in its month, and that in its year. -/
theorem eraDay_bounds (d : Date) :
    daysBeforeYear d.year + daysBeforeMonth d.year d.month < d.eraDay ∧
      d.eraDay ≤ daysBeforeYear d.year + daysBeforeMonth d.year (d.month + 1) ∧
        d.eraDay ≤ daysBeforeYear (d.year + 1) := by
  obtain ⟨-, -, -, htwelve, hone, hday⟩ := d.bounds
  have hmonth : daysBeforeMonth d.year (d.month + 1) ≤ yearDays d.year :=
    daysBeforeMonth_last d.year ▸ daysBeforeMonth_mono d.year (by omega)
  rw [daysBeforeYear_succ, eraDay]
  rw [daysBeforeMonth] at hmonth ⊢
  omega

theorem year_le_of_eraDay {d e : Date} (h : d.eraDay = e.eraDay) : d.year ≤ e.year := by
  by_contra hlt
  have hyears : daysBeforeYear (e.year + 1) ≤ daysBeforeYear d.year :=
    daysBeforeYear_mono (by omega)
  have hd := d.eraDay_bounds
  have he := e.eraDay_bounds
  omega

theorem month_le_of_eraDay {d e : Date} (h : d.eraDay = e.eraDay) (hyear : d.year = e.year) :
    d.month ≤ e.month := by
  by_contra hlt
  have hmonths : daysBeforeMonth e.year (e.month + 1) ≤ daysBeforeMonth d.year d.month :=
    hyear ▸ daysBeforeMonth_mono e.year (by omega)
  have hd := d.eraDay_bounds
  have he := e.eraDay_bounds
  rw [hyear] at hd hmonths
  omega

/-- **No two dates share a number.** -/
theorem eraDay_injective {d e : Date} (h : d.eraDay = e.eraDay) : d = e := by
  have hyear := le_antisymm (year_le_of_eraDay h) (year_le_of_eraDay h.symm)
  have hmonth := le_antisymm (month_le_of_eraDay h hyear) (month_le_of_eraDay h.symm hyear.symm)
  refine ext_iff.mpr ⟨hyear, hmonth, ?_⟩
  unfold eraDay at h
  rw [hyear, hmonth] at h
  omega

end Date

/-- The number of the first date. -/
def firstDay : Int := daysBeforeYear firstYear + 1

/-- The number of the last date. -/
def lastDay : Int := daysBeforeYear (lastYear + 1)

namespace Date

theorem eraDay_mem (d : Date) : firstDay ≤ d.eraDay ∧ d.eraDay ≤ lastDay := by
  obtain ⟨hfirst, hlast, -⟩ := d.bounds
  have hbefore := daysBeforeYear_mono hfirst
  have hafter : daysBeforeYear (d.year + 1) ≤ daysBeforeYear (lastYear + 1) :=
    daysBeforeYear_mono (by omega)
  have hd := d.eraDay_bounds
  unfold firstDay lastDay
  omega

/-- Only the last number has none that follows. -/
theorem exists_next {d : Date} (h : d.eraDay < lastDay) : ∃ e, d.next? = some e := by
  cases hnext : d.next? with
  | some e => exact ⟨e, rfl⟩
  | none =>
    obtain ⟨hyear, hmonth, hday⟩ := next?_eq_none hnext
    have hdays := daysBeforeMonth_last d.year
    rw [daysBeforeMonth] at hdays
    rw [eraDay, hday, hmonth, lastDay, ← hyear, daysBeforeYear_succ] at h
    omega

/-- **Every number** from the first to the last is that of a date. -/
theorem exists_eraDay {n : Int} (h : firstDay ≤ n) (h' : n ≤ lastDay) : ∃ d : Date, d.eraDay = n := by
  obtain ⟨k, rfl⟩ : ∃ k : Nat, n = firstDay + k := ⟨(n - firstDay).toNat, by omega⟩
  clear h
  induction k with
  | zero => exact ⟨⟨firstYear, 1, 1, by decide⟩, by decide⟩
  | succ k ih =>
    obtain ⟨d, hd⟩ := ih (by omega)
    obtain ⟨e, he⟩ := exists_next (d := d) (by omega)
    exact ⟨e, by rw [eraDay_next he, hd]; omega⟩

/-! ## Counting from 1970-01-01 -/

/-- The date `e` comes `n` days after `d`. -/
inductive After (d : Date) : Nat → Date → Prop
  | here : After d 0 d
  | next {n : Nat} {e f : Date} (before : After d n e) (follows : e.next? = some f) : After d (n + 1) f

theorem after_iff {d e : Date} {n : Nat} : After d n e ↔ e.eraDay = d.eraDay + n := by
  constructor
  · intro h
    induction h with
    | here => simp
    | next _ follows ih =>
      rw [eraDay_next follows, ih]
      omega
  · intro h
    induction n generalizing e with
    | zero =>
      obtain rfl : e = d := eraDay_injective (by simpa using h)
      exact .here
    | succ n ih =>
      have hfirst := d.eraDay_mem
      have hlast := e.eraDay_mem
      obtain ⟨c, hc⟩ := exists_eraDay (n := d.eraDay + n) (by omega) (by omega)
      obtain ⟨f, hf⟩ := exists_next (d := c) (by omega)
      obtain rfl : f = e := eraDay_injective (by rw [eraDay_next hf]; omega)
      exact .next (ih hc) hf

/-- The first day of 1970. -/
def origin : Date := ⟨1970, 1, 1, by decide⟩

/-- The date is `n` days from 1970-01-01: so many after it, or so many before it. -/
def Away (d : Date) (n : Int) : Prop :=
  (∃ k : Nat, n = k ∧ After origin k d) ∨ ∃ k : Nat, n = -k ∧ After d k origin

theorem eraDay_origin : origin.eraDay = epochDay.toInt := by decide

theorem away_iff {d : Date} {n : Int} : d.Away n ↔ d.eraDay = epochDay.toInt + n := by
  simp only [Away, after_iff, eraDay_origin]
  constructor
  · rintro (⟨k, rfl, h⟩ | ⟨k, rfl, h⟩) <;> omega
  · intro h
    rcases Int.le_total 0 n with hn | hn
    · exact .inl ⟨n.toNat, by omega, by omega⟩
    · exact .inr ⟨(-n).toNat, by omega, by omega⟩

theorem epochDay_toInt : epochDay.toInt = 719163 := by decide

/-- The number of a date has 32 bits, in the era and counted from 1970. -/
theorem has_int32 (d : Date) :
    Integer.Range.int32.has d.eraDay = true ∧
      Integer.Range.int32.has (d.eraDay - epochDay.toInt) = true := by
  have hd := d.eraDay_mem
  have hfirst : firstDay = -95746129 := by decide
  have hlast : lastDay = 95745399 := by decide
  simp only [Integer.Range.has_iff, Integer.Range.int32, epochDay_toInt]
  omega

/-- **The subtraction in 32 bits** does not wrap. -/
theorem dayNumber_eq (d : Date) : d.dayNumber = d.eraDay - epochDay.toInt := by
  have hepoch : epochDay = Int32.ofInt epochDay.toInt := (Int32.ofInt_toInt _).symm
  rw [dayNumber, hepoch, ← Int32.ofInt_sub, Integer.toInt_ofInt32, ← hepoch]
  exact d.has_int32.2

/-- **The number of a date** counts the dates from 1970-01-01. -/
theorem dayNumber_eq_iff {d : Date} {n : Int} : d.dayNumber = n ↔ d.Away n := by
  rw [dayNumber_eq, away_iff]
  omega

theorem dayNumber_injective {d e : Date} (h : d.dayNumber = e.dayNumber) : d = e := by
  rw [dayNumber_eq, dayNumber_eq] at h
  exact eraDay_injective (by omega)

end Date

end RowStream.Calendar
