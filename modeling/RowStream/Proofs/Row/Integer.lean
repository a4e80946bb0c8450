import RowStream.Proofs.Number.Integer
import RowStream.Row.Encoder

/-!
# Integers in fields

The signed integer types have 32 or 64 bits and three forms each on the wire. A field of any of the three
takes the same values: those that stand for an integer of the range. What stands for one outside the range
is a fault of range, and what stands for none is a mismatch.

* `single_scalar`: values of all sorts in a field of a scalar type.
* `single_integer`, `single_not_integer`: values in a field of a signed integer type.
-/

namespace RowStream.Row

open Descriptor (Scalar)
open Encoder (finish single)
open Integer (Denotes Spells)

variable {p : Pool} {convertDates : Bool} {s : Scalar} {path : String} {v : Value} {n : Int}

/-- A row of its own fits no field of a scalar type either. -/
theorem single_scalar (s : Scalar) (path : String) (v : Value) :
    single p convertDates (.scalar s) path v =
      finish path (.scalar s) v (toScalar convertDates s v) := by
  cases v with
  | struct columns =>
    rw [single]
    cases convertDates <;> cases s <;> rfl
  | _ => simp only [single, Encoder.plain]

/-- The integers that a type holds: their range with its name, the values that they become, and the
integers that dates stand for. -/
structure Integers where
  range : Integer.Range
  name : String
  wrap : Int → Message.Value
  ofDate : Value → Option Int

/-- The integers of the signed integer types, of 32 bits and of 64 bits. -/
def Integers.of? : Scalar → Option Integers
  | .int32 | .sint32 | .sfixed32 =>
    some ⟨.int32, "int32", fun n => .int32 (Int32.ofInt n), Value.dayNumber?⟩
  | .int64 | .sint64 | .sfixed64 =>
    some ⟨.int64, "int64", fun n => .int64 (Int64.ofInt n), Value.micros?⟩
  | _ => none

theorem Integers.of?_int32 :
    ∀ s ∈ [.int32, .sint32, .sfixed32], Integers.of? s = Integers.of? .int32 := by
  simp [Integers.of?]

theorem Integers.of?_int64 :
    ∀ s ∈ [.int64, .sint64, .sfixed64], Integers.of? s = Integers.of? .int64 := by
  simp [Integers.of?]

variable {i : Integers}

theorem toScalar_integers (hs : Integers.of? s = some i) :
    toScalar convertDates s v =
      match v.integer? convertDates i.ofDate with
      | some n => inRange i.range i.name i.wrap n
      | none => .misfit := by
  cases s with
  | int32 | sint32 | sfixed32 | int64 | sint64 | sfixed64 =>
    obtain rfl := Option.some.inj hs
    rfl
  | _ => exact nomatch hs

/-- **A value that stands for an integer** becomes it, or is out of range. -/
theorem single_integer (hs : Integers.of? s = some i) (hn : v.integer? convertDates i.ofDate = some n)
    (path : String) : single p convertDates (.scalar s) path v =
      if i.range.has n then .ok (i.wrap n) else .error (.outOfRange path i.name) := by
  rw [single_scalar, toScalar_integers hs, hn]
  dsimp only [inRange]
  split <;> rfl

/-- **A value that stands for no integer** is a mismatch. -/
theorem single_not_integer (hs : Integers.of? s = some i)
    (hn : v.integer? convertDates i.ofDate = none) (path : String) :
    single p convertDates (.scalar s) path v = .error (.mismatch path s.name v.kindName) := by
  rw [single_scalar, toScalar_integers hs, hn]
  rfl

/-- However an integer is spelled, the text stands for it, as the integer itself does. -/
theorem integer?_of_spells {n : Int64} {text : String} (h : Spells n.toInt text)
    (ofDate : Value → Option Int) :
    Value.integer? convertDates ofDate (.string text) =
      Value.integer? convertDates ofDate (.int n) := by
  simp only [Value.integer?, h.readInt64, Option.map_some]

/-- A text that denotes an integer of more than 64 bits stands for none. -/
theorem integer?_of_wide {text : String} (h : Denotes (Text.trim text).toList n)
    (hn : Integer.Range.int64.has n = false) (ofDate : Value → Option Int) :
    Value.integer? convertDates ofDate (.string text) = none := by
  rw [Value.integer?, Integer.readInt64_of_wide h hn]
  rfl

end RowStream.Row
