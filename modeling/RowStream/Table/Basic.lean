/-!
# Table schemas

A table has columns, each with a type and a mode; a STRUCT column has columns of its own. Types and
modes are numbers, and a number outside the known ones is kept as it is.

* `ColumnType`, `Mode`: the choices behind the numbers.
* `Column`, `Schema`: the schema of a table.
-/

namespace RowStream.Table

/-- The types of columns. -/
inductive ColumnType where
  | unspecified
  | string
  | int64
  | double
  | struct
  | bytes
  | bool
  | timestamp
  | date
  | time
  | datetime
  | geography
  | numeric
  | bignumeric
  | interval
  | json
  | range
deriving Repr, DecidableEq, Inhabited

namespace ColumnType

/-- All types, in the order of their numbers. -/
def all : List ColumnType :=
  [.unspecified, .string, .int64, .double, .struct, .bytes, .bool, .timestamp, .date, .time,
    .datetime, .geography, .numeric, .bignumeric, .interval, .json, .range]

/-- The number of the type in a schema. -/
def number : ColumnType → Int32
  | .unspecified => 0
  | .string => 1
  | .int64 => 2
  | .double => 3
  | .struct => 4
  | .bytes => 5
  | .bool => 6
  | .timestamp => 7
  | .date => 8
  | .time => 9
  | .datetime => 10
  | .geography => 11
  | .numeric => 12
  | .bignumeric => 13
  | .interval => 14
  | .json => 15
  | .range => 16

/-- The type with the number, if any. -/
def ofNumber? (n : Int32) : Option ColumnType :=
  all.find? fun t => t.number == n

/-- The name of the type in a schema. -/
def name : ColumnType → String
  | .unspecified => "TYPE_UNSPECIFIED"
  | .string => "STRING"
  | .int64 => "INT64"
  | .double => "DOUBLE"
  | .struct => "STRUCT"
  | .bytes => "BYTES"
  | .bool => "BOOL"
  | .timestamp => "TIMESTAMP"
  | .date => "DATE"
  | .time => "TIME"
  | .datetime => "DATETIME"
  | .geography => "GEOGRAPHY"
  | .numeric => "NUMERIC"
  | .bignumeric => "BIGNUMERIC"
  | .interval => "INTERVAL"
  | .json => "JSON"
  | .range => "RANGE"

/-- The type with exactly this name, if any. -/
def ofName? (s : String) : Option ColumnType :=
  all.find? fun t => t.name == s

end ColumnType

/-- The modes of columns. -/
inductive Mode where
  | unspecified
  | nullable
  | required
  | repeated
deriving Repr, DecidableEq, Inhabited

namespace Mode

/-- All modes, in the order of their numbers. -/
def all : List Mode := [.unspecified, .nullable, .required, .repeated]

/-- The number of the mode in a schema. -/
def number : Mode → Int32
  | .unspecified => 0
  | .nullable => 1
  | .required => 2
  | .repeated => 3

/-- The mode with the number, if any. -/
def ofNumber? (n : Int32) : Option Mode :=
  all.find? fun m => m.number == n

/-- The name of the mode in a schema. -/
def name : Mode → String
  | .unspecified => "MODE_UNSPECIFIED"
  | .nullable => "NULLABLE"
  | .required => "REQUIRED"
  | .repeated => "REPEATED"

/-- The mode with exactly this name, if any. -/
def ofName? (s : String) : Option Mode :=
  all.find? fun m => m.name == s

end Mode

/-- A column. -/
structure Column where
  name : String := ""
  type : Int32 := 0
  mode : Int32 := 0
  columns : List Column := []
  description : String := ""
  maxLength : Int64 := 0
  precision : Int64 := 0
  scale : Int64 := 0
  defaultValueExpression : String := ""
  timestampPrecision : Option Int64 := none
deriving Repr, Inhabited

/-- The schema of a table. -/
structure Schema where
  columns : List Column := []
deriving Repr, Inhabited

end RowStream.Table
