import RowStream.Json.Basic
import RowStream.Number.Integer
import RowStream.Row.Basic

/-!
# Rows from JSON

A JSON object is a row. Integers of 64 bits with sign stay integers, all other numbers become
doubles; of two members with one key the later counts.

* `Value.ofJson`: the value that a JSON value is.
* `ofJson?`: the row that an object is.

Out of scope: dates and bytes, which JSON has no values for.
-/

namespace RowStream.Row

mutual

/-- The value that a JSON value is. -/
def Value.ofJson : Json → Value
  | .null => .null
  | .bool b => .bool b
  | .number (.int n) =>
    if Integer.Range.int64.has n then .int (Int64.ofInt n) else .float (Double.ofInt n)
  | .number (.real x) => .float x
  | .string s => .string s
  | .array items => .list (itemsOfJson items)
  | .object members => .struct (Keyed.ofList (columnsOfJson members))

/-- The items of an array, one by one. -/
def itemsOfJson : List Json → List Value
  | [] => []
  | v :: vs => Value.ofJson v :: itemsOfJson vs

/-- The members of an object, in the order in which they stand. -/
def columnsOfJson : List (String × Json) → List (String × Value)
  | [] => []
  | (k, v) :: ms => (k, Value.ofJson v) :: columnsOfJson ms

end

/-- The row that a JSON object is; no other value is one. -/
def ofJson? (j : Json) : Option Row :=
  match Value.ofJson j with
  | .struct columns => some columns
  | _ => none

end RowStream.Row
