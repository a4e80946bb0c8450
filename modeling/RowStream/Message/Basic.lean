import RowStream.Number.Binary

/-!
# Messages in memory

A message holds values under the numbers of its fields, in order of number, each number once. A
value is that of a scalar or an enum, a message, or a list.

* `Value`, `Fields`: values, and the fields of a message.
* `get?`, `has`, `set`, `erase`: one field.
* `Value.sameScalar`: the comparison with a default.

Out of scope: unknown fields, which are dropped, and extensions.
-/

namespace RowStream.Message

/-- The value of a field. -/
inductive Value where
  | bool (b : Bool)
  | int32 (n : Int32)
  | int64 (n : Int64)
  | uint32 (n : UInt32)
  | uint64 (n : UInt64)
  | float (x : Single)
  | double (x : Double)
  | string (s : String)
  | bytes (b : List UInt8)
  | enum (n : Int32)
  | message (fields : List (Nat × Value))
  | list (items : List Value)
deriving Repr, Inhabited

/-- The values of a message, by field number. -/
abbrev Fields := List (Nat × Value)

namespace Fields

/-- The value of a field. -/
def get? (m : Fields) (number : Nat) : Option Value :=
  (m.find? fun f => f.1 == number).map (·.2)

/-- The field is set. -/
def has (m : Fields) (number : Nat) : Bool :=
  m.any fun f => f.1 == number

/-- The message without the field. -/
def erase (m : Fields) (number : Nat) : Fields :=
  m.filter fun f => f.1 != number

/-- Puts a value under a number that is not there, in order of number. -/
def insert (number : Nat) (v : Value) : Fields → Fields
  | [] => [(number, v)]
  | (n, w) :: m => if number < n then (number, v) :: (n, w) :: m else (n, w) :: insert number v m

/-- The message with the value under the number. -/
def set (m : Fields) (number : Nat) (v : Value) : Fields :=
  insert number v (m.erase number)

end Fields

/-- The two values are equal scalars or enums; no number equals what is none, and the two zeros of
a binary format are equal. Lists count as equal when both are empty, messages never. -/
def Value.sameScalar : Value → Value → Bool
  | .bool a, .bool b => a == b
  | .int32 a, .int32 b => a == b
  | .int64 a, .int64 b => a == b
  | .uint32 a, .uint32 b => a == b
  | .uint64 a, .uint64 b => a == b
  | .float a, .float b => a.sameValue b
  | .double a, .double b => a.sameValue b
  | .string a, .string b => a == b
  | .bytes a, .bytes b => a == b
  | .enum a, .enum b => a == b
  | .list a, .list b => a.isEmpty && b.isEmpty
  | _, _ => false

end RowStream.Message
