import RowStream.Calendar
import RowStream.Keyed
import RowStream.Number.Binary

/-!
# Rows

A row gives values to columns, in order of the columns' names, each name once. A value is plain, a
list, or a row of its own.

* `Value`: the values.
* `Row`: values by column.
-/

namespace RowStream

namespace Row

/-- The value of a column. -/
inductive Value where
  | null
  | bool (b : Bool)
  | int (n : Int64)
  | float (x : Double)
  | string (s : String)
  | bytes (b : List UInt8)
  | date (d : Calendar.Date)
  | datetime (t : Calendar.DateTime)
  | timestamp (t : Calendar.Instant)
  | list (items : List Value)
  | struct (columns : List (String × Value))
deriving Repr, Inhabited

/-- The name of the sort of value, as a mismatch tells it. -/
def Value.kindName : Value → String
  | .null => "null"
  | .bool _ => "bool"
  | .int _ => "int"
  | .float _ => "float"
  | .string _ => "string"
  | .bytes _ => "bytes"
  | .date _ => "date"
  | .datetime _ => "datetime"
  | .timestamp _ => "timestamp"
  | .list _ => "list"
  | .struct _ => "struct"

end Row

/-- A row: values by column, in order of the columns' names. -/
abbrev Row := Keyed Row.Value

end RowStream
