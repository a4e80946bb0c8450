import RowStream.Number.Binary

/-!
# JSON values

A JSON value as it was written: the members of an object keep their order, and a key may occur
more than once. What a repeated key means is for the reader of the value to say.

* `Json`: the values.
* `text?`, `int?`, `bool?`, `get?`: looking at a value.
* `present`, `orNull`: building one.
-/

namespace RowStream

/-- A JSON number: an integer of at most 64 bits, or a double. -/
inductive Json.Number where
  | int (n : Int)
  | real (x : Double)
deriving Repr, DecidableEq

/-- A JSON value. -/
inductive Json where
  | null
  | bool (b : Bool)
  | number (n : Json.Number)
  | string (s : String)
  | array (items : List Json)
  | object (members : List (String × Json))
deriving Repr, Inhabited

namespace Json

/-! ## Looking at values -/

/-- The text of a string. -/
def text? : Json → Option String
  | .string s => some s
  | _ => none

/-- The integer of a number without a fraction or an exponent. -/
def int? : Json → Option Int
  | .number (.int n) => some n
  | _ => none

/-- The truth value. -/
def bool? : Json → Option Bool
  | .bool b => some b
  | _ => none

/-- The items of an array; any other value has none. -/
def items : Json → List Json
  | .array items => items
  | _ => []

/-- The members of an object; any other value has none. -/
def members : Json → List (String × Json)
  | .object members => members
  | _ => []

/-- The value under a key; of several the last. -/
def get? (j : Json) (key : String) : Option Json :=
  (j.members.reverse.find? fun m => m.1 == key).map (·.2)

/-! ## Building values -/

/-- An integer as a number. -/
def ofInt (n : Int) : Json := .number (.int n)

/-- The value of an option, null when there is none. -/
def orNull {α : Type} (f : α → Json) : Option α → Json
  | some a => f a
  | none => .null

/-- An array, unless it would be empty. -/
def nonempty? : List Json → Option Json
  | [] => none
  | items => some (.array items)

/-- The object of the members that have a value. -/
def present (members : List (String × Option Json)) : Json :=
  .object (members.filterMap fun (k, v) => v.map fun v => (k, v))

end Json

end RowStream
