import RowStream.Json.Basic
import RowStream.Table.Basic

/-!
# Table schemas as JSON

Schemas as they are held: every member of a column, types and modes as numbers.

* `Schema.toJson`: all that a schema holds.
-/

namespace RowStream.Table

mutual

/-- A column with all its members, those at their defaults too. -/
def Column.toJson : Column → Json
  | ⟨name, type, mode, columns, description, maxLength, precision, scale, expression, digits⟩ =>
    .object [("name", .string name), ("type", Json.ofInt type.toInt),
      ("mode", Json.ofInt mode.toInt), ("fields", .array (columnsToJson columns)),
      ("description", .string description), ("max_length", Json.ofInt maxLength.toInt),
      ("precision", Json.ofInt precision.toInt), ("scale", Json.ofInt scale.toInt),
      ("default_value_expression", .string expression),
      ("timestamp_precision", Json.orNull (fun n : Int64 => Json.ofInt n.toInt) digits)]

/-- The columns of a list, one by one. -/
def columnsToJson : List Column → List Json
  | [] => []
  | c :: cs => c.toJson :: columnsToJson cs

end

/-- The columns of a schema. -/
def Schema.toJson (s : Schema) : Json := .object [("fields", .array (columnsToJson s.columns))]

end RowStream.Table
