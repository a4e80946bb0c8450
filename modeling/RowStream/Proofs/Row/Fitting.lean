import RowStream.Proofs.Number.Decimal
import RowStream.Proofs.Row.Date
import RowStream.Proofs.Table.Field

/-!
# Values that fit

Which values fit a scalar type that columns have: those of its sort, and others by range, text or conversion
(`FitsScalar`). It is said without the coercions, and they give a value for exactly these.

* `toScalar_integers_isValue`: the signed integer types.
* `fitsScalar_iff`: the types of columns.
-/

namespace RowStream.Row

open Descriptor (Scalar)
open Integer (Denotes Range)
open Table.Compile (columnScalars)

variable {convertDates : Bool} {s : Scalar} {v : Value}

/-- The value fits a column of the scalar type: dates only with the conversion on, and texts only if they
write what is needed, apart from blanks around. -/
inductive FitsScalar (convertDates : Bool) : Scalar → Value → Prop
  | bool (b : Bool) : FitsScalar convertDates .bool (.bool b)
  | int32 {n : Int64} (fits : Range.int32.has n.toInt = true) : FitsScalar convertDates .int32 (.int n)
  | int32Text {text : String} {n : Int} (denotes : Denotes (Text.trim text).toList n)
      (fits : Range.int32.has n = true) : FitsScalar convertDates .int32 (.string text)
  | int32Date (on : convertDates = true) (d : Calendar.Date) :
      FitsScalar convertDates .int32 (.date d)
  | int32DateTime (on : convertDates = true) (t : Calendar.DateTime) :
      FitsScalar convertDates .int32 (.datetime t)
  | int32Instant (on : convertDates = true) (t : Calendar.Instant) :
      FitsScalar convertDates .int32 (.timestamp t)
  | int64 (n : Int64) : FitsScalar convertDates .int64 (.int n)
  | int64Text {text : String} {n : Int} (denotes : Denotes (Text.trim text).toList n)
      (fits : Range.int64.has n = true) : FitsScalar convertDates .int64 (.string text)
  | int64Instant (on : convertDates = true) (t : Calendar.Instant) :
      FitsScalar convertDates .int64 (.timestamp t)
  | double (x : Double) : FitsScalar convertDates .double (.float x)
  | doubleInt (n : Int64) : FitsScalar convertDates .double (.int n)
  | doubleText {text : String} (numeral : Decimal.Numeral (Text.trim text).toList) :
      FitsScalar convertDates .double (.string text)
  | string (text : String) : FitsScalar convertDates .string (.string text)
  | stringInt (n : Int64) : FitsScalar convertDates .string (.int n)
  | stringFloat (x : Double) : FitsScalar convertDates .string (.float x)
  | stringDate (on : convertDates = true) (d : Calendar.Date) :
      FitsScalar convertDates .string (.date d)
  | stringDateTime (on : convertDates = true) (t : Calendar.DateTime) :
      FitsScalar convertDates .string (.datetime t)
  | bytes (b : List UInt8) : FitsScalar convertDates .bytes (.bytes b)
  | bytesText (text : String) : FitsScalar convertDates .bytes (.string text)

/-- What becomes a value of a signed integer type: what stands for an integer of its range. -/
theorem toScalar_integers_isValue {i : Integers} (hs : Integers.of? s = some i) :
    (∃ w, toScalar convertDates s v = .value w) ↔
      ∃ n, v.integer? convertDates i.ofDate = some n ∧ i.range.has n = true := by
  rw [toScalar_integers hs]
  cases v.integer? convertDates i.ofDate with
  | none => simp
  | some n => cases h : i.range.has n <;> simp [inRange, h]

/-- The integer that a text stands for is the one of 64 bits that it denotes. -/
theorem integer?_text {text : String} {ofDate : Value → Option Int} {n : Int} :
    Value.integer? convertDates ofDate (.string text) = some n ↔
      Denotes (Text.trim text).toList n ∧ Range.int64.has n = true := by
  rw [Value.integer?, Option.map_eq_some_iff]
  constructor
  · rintro ⟨k, hk, rfl⟩
    exact ⟨Integer.readInt64_eq_some.mp hk, Integer.has_toInt k⟩
  · rintro ⟨hdenotes, hfits⟩
    have hsame := Integer.toInt_ofInt64 hfits
    exact ⟨Int64.ofInt n, Integer.readInt64_eq_some.mpr (hsame.symm ▸ hdenotes), hsame⟩

theorem has_int64_of_int32 {n : Int} (h : Range.int32.has n = true) : Range.int64.has n = true := by
  rw [Range.has_iff, Range.int32] at h
  rw [Range.has_iff, Range.int64]
  dsimp only at h ⊢
  omega

theorem fitsScalar_int32 : (∃ w, toScalar convertDates .int32 v = .value w) ↔
    FitsScalar convertDates .int32 v := by
  rw [toScalar_integers_isValue (s := .int32) rfl]
  constructor
  · rintro ⟨n, hn, hfits⟩
    cases v with
    | int k => exact .int32 (Option.some.inj hn ▸ hfits)
    | string text => exact .int32Text (integer?_text.mp hn).1 hfits
    | date d => exact .int32Date (converts_of_integer? (v := .date d) rfl hn) d
    | datetime t => exact .int32DateTime (converts_of_integer? (v := .datetime t) rfl hn) t
    | timestamp t => exact .int32Instant (converts_of_integer? (v := .timestamp t) rfl hn) t
    | _ => cases convertDates <;> simp [Value.integer?, Value.dayNumber?] at hn
  · intro h
    cases h with
    | int32 fits => exact ⟨_, rfl, fits⟩
    | int32Text denotes fits => exact ⟨_, integer?_text.mpr ⟨denotes, has_int64_of_int32 fits⟩, fits⟩
    | int32Date on d =>
      subst on
      exact ⟨_, rfl, d.counted.fits⟩
    | int32DateTime on t =>
      subst on
      exact ⟨_, rfl, t.date.counted.fits⟩
    | int32Instant on t =>
      subst on
      exact ⟨_, rfl, t.counted.fits⟩

theorem fitsScalar_int64 : (∃ w, toScalar convertDates .int64 v = .value w) ↔
    FitsScalar convertDates .int64 v := by
  rw [toScalar_integers_isValue (s := .int64) rfl]
  constructor
  · rintro ⟨n, hn, hfits⟩
    cases v with
    | int k => exact .int64 k
    | string text => exact .int64Text (integer?_text.mp hn).1 hfits
    | timestamp t => exact .int64Instant (converts_of_integer? (v := .timestamp t) rfl hn) t
    | _ => cases convertDates <;> simp [Value.integer?, Value.micros?] at hn
  · intro h
    cases h with
    | int64 n => exact ⟨_, rfl, Integer.has_toInt n⟩
    | int64Text denotes fits => exact ⟨_, integer?_text.mpr ⟨denotes, fits⟩, fits⟩
    | int64Instant on t =>
      subst on
      exact ⟨_, rfl, t.counted.sum⟩

theorem fitsScalar_double : (∃ w, toScalar convertDates .double v = .value w) ↔
    FitsScalar convertDates .double v := by
  constructor
  · rintro ⟨w, hw⟩
    cases v with
    | float x => exact .double x
    | int n => exact .doubleInt n
    | string text =>
      refine .doubleText (Decimal.read_isSome.mp ?_)
      cases hread : Decimal.read (Text.trim text) with
      | some x => rfl
      | none => simp [toScalar, toDouble, hread, Coerced.ofOption] at hw
    | _ => simp [toScalar, toDouble] at hw
  · intro h
    cases h with
    | double x => exact ⟨_, rfl⟩
    | doubleInt n => exact ⟨_, rfl⟩
    | doubleText numeral =>
      obtain ⟨x, hread⟩ := Option.isSome_iff_exists.mp (Decimal.read_isSome.mpr numeral)
      exact ⟨.double x, by simp only [toScalar, toDouble, hread]; rfl⟩

theorem fitsScalar_string : (∃ w, toScalar convertDates .string v = .value w) ↔
    FitsScalar convertDates .string v := by
  constructor
  · rintro ⟨w, hw⟩
    cases v with
    | string text => exact .string text
    | int n => exact .stringInt n
    | float x => exact .stringFloat x
    | date d =>
      cases convertDates with
      | true => exact .stringDate rfl d
      | false => simp [toScalar, toText] at hw
    | datetime t =>
      cases convertDates with
      | true => exact .stringDateTime rfl t
      | false => simp [toScalar, toText] at hw
    | _ => simp [toScalar, toText] at hw
  · intro h
    cases h with
    | stringDate on d | stringDateTime on t =>
      subst on
      exact ⟨_, rfl⟩
    | _ => exact ⟨_, rfl⟩

theorem fitsScalar_bool : (∃ w, toScalar convertDates .bool v = .value w) ↔
    FitsScalar convertDates .bool v := by
  constructor
  · rintro ⟨w, hw⟩
    cases v with
    | bool b => exact .bool b
    | _ => simp [toScalar] at hw
  · rintro ⟨b⟩
    exact ⟨_, rfl⟩

theorem fitsScalar_bytes : (∃ w, toScalar convertDates .bytes v = .value w) ↔
    FitsScalar convertDates .bytes v := by
  constructor
  · rintro ⟨w, hw⟩
    cases v with
    | bytes b => exact .bytes b
    | string text => exact .bytesText text
    | _ => simp [toScalar, toBytes] at hw
  · rintro (_ | _) <;> exact ⟨_, rfl⟩

/-- **Values that fit** the scalar type of a column are those that become a value of it. -/
theorem fitsScalar_iff (hs : s ∈ columnScalars) :
    (∃ w, toScalar convertDates s v = .value w) ↔ FitsScalar convertDates s v := by
  simp only [columnScalars, List.mem_cons, List.not_mem_nil, or_false] at hs
  rcases hs with rfl | rfl | rfl | rfl | rfl | rfl
  · exact fitsScalar_bool
  · exact fitsScalar_bytes
  · exact fitsScalar_int32
  · exact fitsScalar_string
  · exact fitsScalar_int64
  · exact fitsScalar_double

end RowStream.Row
