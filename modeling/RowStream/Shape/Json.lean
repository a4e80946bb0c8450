import RowStream.Json.Basic
import RowStream.Shape.Basic

/-!
# Shapes as JSON

What a shape knows of its fields, as a JSON object: of each field its number and kind, whether it
holds a list or a map, how it is written and whether it can be unset.

* `toJson`: what is told of a shape.
-/

namespace RowStream.Shape

/-- What is told of a field. -/
def fieldToJson (s : Shape) (f : Pool.Field) : Json :=
  .object [("name", .string f.name), ("number", Json.ofInt f.number),
    ("kind", .string f.kind.text), ("cardinality", .string f.label.name),
    ("list", .bool (s.pool.isList f)), ("map", .bool (s.pool.isMap f)), ("packed", .bool f.packed),
    ("presence", .bool f.presence), ("oneof", Json.orNull .string (s.message.oneofName? f))]

/-- The names of the message and what is told of its fields. -/
def toJson (s : Shape) : Json :=
  .object [("name", .string s.message.name), ("full_name", .string s.message.fullName),
    ("fields", .array (s.message.fields.map s.fieldToJson))]

end RowStream.Shape
