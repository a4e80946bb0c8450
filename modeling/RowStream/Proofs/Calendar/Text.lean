import RowStream.Calendar
import RowStream.Proofs.Number.Integer

/-!
# Dates and times in text

What date and time are in text is said part by part (`DateTime.Written`): year, month and day with
hyphens, a blank, hour, minute and second with colons, and the milliseconds after a point. Each part is a
number of a least width, with no more zeros in front than it takes (`Padded.Writes`). Years of four digits
have no sign, all others do. Milliseconds are rounded down, and a leap second has the number after its
second.

* `Padded.writes_text`: numbers with a least width.
* `DateTime.written_text`: date and time.
-/

namespace RowStream.Padded

open Integer (Digits)

variable {width n : Nat}

/-- The characters write the number in decimal digits, at least `width` of them, and a zero is in front only
where the number has fewer. -/
structure Writes (width n : Nat) (cs : List Char) : Prop where
  digits : Digits cs
  value : Nat.ofDigitChars 10 cs 0 = n
  wide : width ≤ cs.length
  narrow : width < cs.length → cs.head? ≠ some '0'

/-- **A number with a least width** is written with it. -/
theorem writes_text (hw : 0 < width) (n : Nat) : Writes width n (text width n).toList := by
  unfold text
  dsimp only
  rw [String.toList_ofList]
  constructor
  case digits => exact Integer.digits_padded _ n
  case value => exact Integer.ofDigitChars_padded _ n
  case wide =>
    rw [List.length_append, List.length_replicate]
    omega
  case narrow =>
    rw [List.length_append, List.length_replicate]
    intro hlong
    have hzeros : width - (Nat.toDigits 10 n).length = 0 := by omega
    have hn : n ≠ 0 := by
      rintro rfl
      rw [Nat.toDigits_zero] at hlong
      simp only [List.length_singleton] at hlong
      omega
    rw [hzeros, List.replicate_zero, List.nil_append]
    exact Integer.head_toDigits n hn

end RowStream.Padded

namespace RowStream.Calendar

open Padded (Writes writes_text)

/-- The characters write the year: four digits at least, and a sign outside 0 to 9999. -/
inductive YearWritten (year : Int) : List Char → Prop
  | plain {cs : List Char} (first : 0 ≤ year) (last : year ≤ 9999) (writes : Writes 4 year.toNat cs) :
      YearWritten year cs
  | before {cs : List Char} (negative : year < 0) (writes : Writes 4 year.natAbs cs) :
      YearWritten year ('-' :: cs)
  | after {cs : List Char} (later : 9999 < year) (writes : Writes 4 year.natAbs cs) :
      YearWritten year ('+' :: cs)

/-- The characters write date and time. -/
inductive DateTime.Written (t : DateTime) : List Char → Prop
  | intro {y mo d h mi s ms : List Char} (year : YearWritten t.date.year y)
      (month : Writes 2 t.date.month mo) (day : Writes 2 t.date.day d) (hour : Writes 2 t.time.hour h)
      (minute : Writes 2 t.time.minute mi)
      (second : Writes 2 (t.time.second + t.time.nano / 1000000000) s)
      (milli : Writes 3 (t.time.nano % 1000000000 / 1000000) ms) :
      Written t (y ++ ['-'] ++ mo ++ ['-'] ++ d ++ [' '] ++ h ++ [':'] ++ mi ++ [':'] ++ s ++ ['.'] ++ ms)

theorem yearWritten_text (year : Int) : YearWritten year (yearText year).toList := by
  unfold yearText
  split_ifs with hplain hnegative
  · exact .plain hplain.1 hplain.2 (writes_text (by decide) _)
  · rw [String.toList_append]
    exact .before hnegative (writes_text (by decide) _)
  · rw [String.toList_append]
    exact .after (by omega) (writes_text (by decide) _)

/-- **Date and time in text.** -/
theorem DateTime.written_text (t : DateTime) : t.Written t.text.toList := by
  have htwo (n : Nat) : Writes 2 n (Padded.text 2 n).toList := writes_text (by decide) n
  unfold DateTime.text
  simp only [String.toList_append]
  exact .intro (yearWritten_text t.date.year) (htwo _) (htwo _) (htwo _) (htwo _) (htwo _)
    (writes_text (by decide) _)

end RowStream.Calendar
