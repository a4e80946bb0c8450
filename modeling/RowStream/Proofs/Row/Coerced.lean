import RowStream.Proofs.Calendar.Instant
import RowStream.Proofs.Calendar.Text
import RowStream.Proofs.Number.Shortest
import RowStream.Proofs.Row.Value
import RowStream.Proofs.Table.Field

/-!
# What values become

What a value of a row is worth in a column is said for each type of columns without the coercion
(`Becomes`). Integers stay the integers that they are or that their text denotes; dates are counted from
1970-01-01, and instants in microseconds. A double stays as it is, bit for bit. An integer or the text of a
decimal becomes the nearest double, and a double is shown as its shortest text. Texts and bytes stay as they
are, and a text becomes the bytes of its characters. Of other values there is nothing to store.

Dates count only with their conversion on.

* `becomes_of_toScalar`: the coercion of a value.
* `Becomes.typed`: the types of what comes of it.

Out of scope: the types that no column has, which are single numbers and unsigned, folded and fixed integers.
-/

namespace RowStream.Row

open Calendar (Date DateTime Instant)
open Descriptor (Scalar)
open Message (Typed)
open Table.Compile (columnScalars)

/-- The value is the integer, or a text that denotes it with blanks around. -/
inductive Value.IsInteger : Value → Int → Prop
  | int (n : Int64) : IsInteger (.int n) n.toInt
  | text {s : String} {core : List Char} {n : Int} (blanks : Text.Surrounds s.toList core)
      (denotes : Integer.Denotes core n) : IsInteger (.string s) n

/-- The value lies in the day which is so many days away from 1970-01-01, in UTC. -/
inductive Value.OnDay : Value → Int → Prop
  | date {d : Date} {n : Int} (away : d.Away n) : OnDay (.date d) n
  | datetime {t : DateTime} {n : Int} (away : t.date.Away n) : OnDay (.datetime t) n
  | instant {t : Instant} {u : DateTime} {n : Int} (shown : u.Shows t) (away : u.date.Away n) :
      OnDay (.timestamp t) n

/-- The value is an instant in the microsecond. -/
inductive Value.AtMicros : Value → Int → Prop
  | instant {t : Instant} {n : Int} (low : n * 1000 ≤ t.nanos) (high : t.nanos < (n + 1) * 1000) :
      AtMicros (.timestamp t) n

/-- The value is the double, or an integer or the text of a decimal that it is the nearest to. -/
inductive Value.IsDouble : Value → Double → Prop
  | float (x : Double) : IsDouble (.float x) x
  | int {n : Int64} {x : Double} (nearest : x.Nearest (decide (n.toInt < 0)) n.toInt.natAbs) :
      IsDouble (.int n) x
  | text {s : String} {core : List Char} {v : Decimal.Value} {x : Double}
      (blanks : Text.Surrounds s.toList core) (writes : Decimal.Writes core v) (nearest : v.Nearest x) :
      IsDouble (.string s) x

/-- The text is that of the value. -/
inductive Value.IsText : Value → String → Prop
  | string (s : String) : IsText (.string s) s
  | int (n : Int64) : IsText (.int n) (toString n.toInt)
  | float {x : Double} {s : String} (shown : Shortest.Shown x s.toList) : IsText (.float x) s

/-- The text is that of the date and time, and of a date at midnight. -/
inductive Value.IsTimeText : Value → String → Prop
  | date {d : Date} {s : String} (written : DateTime.Written ⟨d, .midnight⟩ s.toList) :
      IsTimeText (.date d) s
  | datetime {t : DateTime} {s : String} (written : t.Written s.toList) : IsTimeText (.datetime t) s

/-- The bytes are the value, or those of its characters. -/
inductive Value.IsBytes : Value → List UInt8 → Prop
  | bytes (b : List UInt8) : IsBytes (.bytes b) b
  | string (s : String) : IsBytes (.string s) s.toUTF8.data.toList

/-- **What a value becomes** in a column of the type. -/
inductive Becomes (convertDates : Bool) : Scalar → Value → Message.Value → Prop
  | bool (b : Bool) : Becomes convertDates .bool (.bool b) (.bool b)
  | int32 {v : Value} {n : Int32}
      (integer : v.IsInteger n.toInt ∨ convertDates = true ∧ v.OnDay n.toInt) :
      Becomes convertDates .int32 v (.int32 n)
  | int64 {v : Value} {n : Int64}
      (integer : v.IsInteger n.toInt ∨ convertDates = true ∧ v.AtMicros n.toInt) :
      Becomes convertDates .int64 v (.int64 n)
  | double {v : Value} {x : Double} (number : v.IsDouble x) : Becomes convertDates .double v (.double x)
  | string {v : Value} {s : String} (text : v.IsText s ∨ convertDates = true ∧ v.IsTimeText s) :
      Becomes convertDates .string v (.string s)
  | bytes {v : Value} {b : List UInt8} (bytes : v.IsBytes b) : Becomes convertDates .bytes v (.bytes b)

variable {convertDates : Bool} {s : Scalar} {v : Value} {w : Message.Value} {n : Int}

/-- What becomes of a value is of the type. -/
theorem Becomes.typed (h : Becomes convertDates s v w) : Typed (.scalar s) w := by
  cases h with
  | bool b => exact .bool b
  | @int32 _ n => exact .int32 n
  | @int64 _ n => exact .int64 n
  | @double _ x => exact .double x
  | @string _ s => exact .string s
  | @bytes _ b => exact .bytes b

/-! ## Integers -/

/-- An integer stands for itself, a text for what it denotes, and a date counts with the conversion on. -/
theorem integer?_eq_some {ofDate : Value → Option Int} (h : v.integer? convertDates ofDate = some n) :
    v.IsInteger n ∨ convertDates = true ∧ ofDate v = some n := by
  cases v with
  | int k => exact .inl (Option.some.inj h ▸ .int k)
  | string t =>
    obtain ⟨k, hk, rfl⟩ := Option.map_eq_some_iff.mp h
    exact .inl (.text (Text.surrounds_trim t) (Integer.readInt64_eq_some.mp hk))
  | _ =>
    refine .inr ?_
    simpa [Value.integer?] using h

theorem onDay_of_dayNumber? (h : v.dayNumber? = some n) : v.OnDay n := by
  cases v with
  | date d => exact .date (Date.dayNumber_eq_iff.mp (Option.some.inj h))
  | datetime t => exact .datetime (Date.dayNumber_eq_iff.mp (Option.some.inj h))
  | timestamp t =>
    obtain ⟨u, hu, -⟩ := t.existsUnique_shows
    have hday : t.dayNumber = n := Option.some.inj h
    exact .instant hu (Date.dayNumber_eq_iff.mp (Instant.dayNumber_of_shows hu ▸ hday))
  | _ => exact nomatch h

theorem atMicros_of_micros? (h : v.micros? = some n) : v.AtMicros n := by
  cases v with
  | timestamp t =>
    have hmicros := t.micros_eq
    obtain rfl : t.micros = n := Option.some.inj h
    exact .instant (by omega) (by omega)
  | _ => exact nomatch h

theorem becomes_of_toInt32 (h : toInt32 convertDates v = .value w) : Becomes convertDates .int32 v w := by
  unfold toInt32 at h
  split at h
  · rename_i n hn
    obtain ⟨hrange, rfl⟩ := inRange_eq_value h
    have hsame := Integer.toInt_ofInt32 hrange
    refine .int32 ?_
    rw [hsame]
    exact (integer?_eq_some hn).imp_right (And.imp_right onDay_of_dayNumber?)
  · exact absurd h (by simp)

theorem becomes_of_toInt64 (h : toInt64 convertDates v = .value w) : Becomes convertDates .int64 v w := by
  unfold toInt64 at h
  split at h
  · rename_i n hn
    obtain ⟨hrange, rfl⟩ := inRange_eq_value h
    have hsame := Integer.toInt_ofInt64 hrange
    refine .int64 ?_
    rw [hsame]
    exact (integer?_eq_some hn).imp_right (And.imp_right atMicros_of_micros?)
  · exact absurd h (by simp)

/-! ## Doubles, texts and bytes -/

theorem becomes_of_toDouble (h : toDouble v = .value w) : Becomes convertDates .double v w := by
  cases v with
  | float x =>
    obtain rfl := Coerced.value.inj h
    exact .double (.float x)
  | int n =>
    obtain rfl := Coerced.value.inj h
    exact .double (.int (Double.nearest_ofInt n.toInt))
  | string t =>
    cases hread : Decimal.read (Text.trim t) with
    | none => simp [toDouble, hread, Coerced.ofOption] at h
    | some x =>
      simp only [toDouble, hread, Option.map_some, Coerced.ofOption, Coerced.value.injEq] at h
      obtain ⟨u, hwrites, hnearest⟩ := Decimal.read_eq_some hread
      exact h ▸ .double (.text (Text.surrounds_trim t) hwrites hnearest)
  | _ => exact absurd h (by simp [toDouble])

/-- The decimal text of an integer is that of the library. -/
theorem integer_text (n : Int) : Integer.text n = toString n := by
  cases n with
  | ofNat m => rfl
  | negSucc m =>
    rw [Integer.text, if_pos (Int.negSucc_lt_zero m)]
    rfl

theorem becomes_of_toText (h : toText convertDates v = .value w) : Becomes convertDates .string v w := by
  cases v with
  | string t =>
    obtain rfl := Coerced.value.inj h
    exact .string (.inl (.string t))
  | int n =>
    obtain rfl := Coerced.value.inj h
    rw [integer_text]
    exact .string (.inl (.int n))
  | float x =>
    obtain rfl := Coerced.value.inj h
    exact .string (.inl (.float (Shortest.shown_text x)))
  | date d =>
    cases convertDates with
    | true =>
      obtain rfl := Coerced.value.inj h
      exact .string (.inr ⟨rfl, .date (DateTime.written_text _)⟩)
    | false => exact absurd h (by simp [toText])
  | datetime t =>
    cases convertDates with
    | true =>
      obtain rfl := Coerced.value.inj h
      exact .string (.inr ⟨rfl, .datetime t.written_text⟩)
    | false => exact absurd h (by simp [toText])
  | _ => exact absurd h (by simp [toText])

/-- The bytes of a text are those of the library. -/
theorem encode_eq (t : String) : Utf8.encode t = t.toUTF8.data.toList := by
  have hbytes : t.toUTF8 = (Utf8.encode t).toByteArray := String.utf8Encode_toList.symm
  rw [hbytes, List.data_toByteArray]

theorem becomes_of_toBytes (h : toBytes v = .value w) : Becomes convertDates .bytes v w := by
  cases v with
  | bytes b =>
    obtain rfl := Coerced.value.inj h
    exact .bytes (.bytes b)
  | string t =>
    obtain rfl := Coerced.value.inj h
    rw [encode_eq]
    exact .bytes (.string t)
  | _ => exact absurd h (by simp [toBytes])

/-- **The coercion of a value** to the type of a column. -/
theorem becomes_of_toScalar (hs : s ∈ columnScalars) (h : toScalar convertDates s v = .value w) :
    Becomes convertDates s v w := by
  simp only [columnScalars, List.mem_cons, List.not_mem_nil, or_false] at hs
  rcases hs with rfl | rfl | rfl | rfl | rfl | rfl
  · cases v with
    | bool b => exact Coerced.value.inj h ▸ .bool b
    | _ => exact absurd h (by simp [toScalar])
  · exact becomes_of_toBytes h
  · exact becomes_of_toInt32 h
  · exact becomes_of_toText h
  · exact becomes_of_toInt64 h
  · exact becomes_of_toDouble h

end RowStream.Row
