import RowStream.Message.Basic
import RowStream.Number.Decimal
import RowStream.Number.Integer
import RowStream.Number.Shortest
import RowStream.Pool.Basic
import RowStream.Row.Basic
import RowStream.Text.Blank
import RowStream.Text.Utf8

/-!
# Coercions

What a value of a row becomes in a field of a scalar or enum type. Nothing is lost: an integer must
be in range, a text must write an integer or a decimal in full, and dates become numbers or text
only when the conversion of dates is on. Days are counted from 1970-01-01; of dates and instants
only an instant becomes microseconds.

* `toScalar`: by the type of the field.
* `toEnum`: a number, or a name of the enum.
-/

namespace RowStream.Row

open Descriptor (Scalar)

/-- What a coercion gives: a value, a fault of range, or nothing when the value does not fit. -/
inductive Coerced where
  | value (v : Message.Value)
  | outOfRange (range : String)
  | misfit
deriving Repr, Inhabited

/-- The day that a date, a date and time or an instant lies in. -/
def Value.dayNumber? : Value → Option Int
  | .date d => some d.dayNumber
  | .datetime t => some t.dayNumber
  | .timestamp t => some t.dayNumber
  | _ => none

/-- The microseconds of an instant. -/
def Value.micros? : Value → Option Int
  | .timestamp t => some t.micros
  | _ => none

/-- The integer that a value stands for in an integer field; `ofDate` says which dates have one. -/
def Value.integer? (convertDates : Bool) (ofDate : Value → Option Int) (v : Value) : Option Int :=
  match v with
  | .int n => some n.toInt
  | .string s => (Integer.readInt64 (Text.trim s)).map Int64.toInt
  | v => if convertDates then ofDate v else none

/-- The integer as a value of a range. -/
def inRange (range : Integer.Range) (name : String) (wrap : Int → Message.Value) (n : Int) :
    Coerced :=
  if range.has n then .value (wrap n) else .outOfRange name

/-- A value, or a misfit where there is none. -/
def Coerced.ofOption : Option Message.Value → Coerced
  | some v => .value v
  | none => .misfit

/-- In a signed field of 32 bits: an integer, a text that writes one, or a day number. -/
def toInt32 (convertDates : Bool) (v : Value) : Coerced :=
  match v.integer? convertDates Value.dayNumber? with
  | some n => inRange .int32 "int32" (fun n => .int32 (Int32.ofInt n)) n
  | none => .misfit

/-- In a signed field of 64 bits: an integer, a text that writes one, or microseconds. -/
def toInt64 (convertDates : Bool) (v : Value) : Coerced :=
  match v.integer? convertDates Value.micros? with
  | some n => inRange .int64 "int64" (fun n => .int64 (Int64.ofInt n)) n
  | none => .misfit

/-- In an unsigned field of 32 bits: an integer, and no text. -/
def toUInt32 : Value → Coerced
  | .int n => inRange .nat32 "uint32" (fun n => .uint32 (UInt32.ofInt n)) n.toInt
  | _ => .misfit

/-- In an unsigned field of 64 bits: an integer, and no text. -/
def toUInt64 : Value → Coerced
  | .int n => inRange .nat64 "uint64" (fun n => .uint64 (UInt64.ofInt n)) n.toInt
  | _ => .misfit

/-- In a field of doubles: a double as it is, the double nearest to an integer, or the one nearest
to the decimal that a text writes. -/
def toDouble : Value → Coerced
  | .float x => .value (.double x)
  | .int n => .value (.double (Double.ofInt n.toInt))
  | .string s => .ofOption ((Decimal.read (Text.trim s)).map .double)
  | _ => .misfit

/-- In a field of the shorter format: the nearest to a double or an integer. A text is no value
here, unlike in a field of doubles. -/
def toSingle : Value → Coerced
  | .float x => .value (.float (Single.ofDouble x))
  | .int n => .value (.float (Single.ofInt n.toInt))
  | _ => .misfit

/-- In a field of text: the text, the digits of a number, or a date and time written out. A date
alone is written as its midnight; an instant has no text. -/
def toText (convertDates : Bool) : Value → Coerced
  | .string s => .value (.string s)
  | .int n => .value (.string (Integer.text n.toInt))
  | .float x => .value (.string (Shortest.text x))
  | .date d =>
    if convertDates then .value (.string (Calendar.DateTime.text ⟨d, Calendar.Time.midnight⟩))
    else .misfit
  | .datetime t => if convertDates then .value (.string t.text) else .misfit
  | _ => .misfit

/-- In a field of bytes: the bytes, or those of a text. -/
def toBytes : Value → Coerced
  | .bytes b => .value (.bytes b)
  | .string s => .value (.bytes (Utf8.encode s))
  | _ => .misfit

/-- What a value becomes in a field of a scalar type. -/
def toScalar (convertDates : Bool) (s : Scalar) (v : Value) : Coerced :=
  match s with
  | .bool =>
    match v with
    | .bool b => .value (.bool b)
    | _ => .misfit
  | .int32 | .sint32 | .sfixed32 => toInt32 convertDates v
  | .int64 | .sint64 | .sfixed64 => toInt64 convertDates v
  | .uint32 | .fixed32 => toUInt32 v
  | .uint64 | .fixed64 => toUInt64 v
  | .double => toDouble v
  | .float => toSingle v
  | .string => toText convertDates v
  | .bytes => toBytes v

/-- What a value becomes in a field of an enum: any number of 32 bits, or the number of a name. -/
def toEnum (e : Pool.Enum) : Value → Coerced
  | .int n => inRange .int32 e.fullName (fun n => .enum (Int32.ofInt n)) n.toInt
  | .string s => .ofOption ((e.number? s).map .enum)
  | _ => .misfit

end RowStream.Row
