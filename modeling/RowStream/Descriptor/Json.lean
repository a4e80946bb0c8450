import RowStream.Descriptor.Basic
import RowStream.Json.Basic

/-!
# Descriptors as JSON

Messages, enums and files as JSON objects. Members that are not set and empty lists are left out.

* `Message.toJson`, `Enum.toJson`, `File.toJson`: what is told of each.

Out of scope: options other than packing and the mark of a map entry, and what a message reserves.
-/

namespace RowStream.Descriptor

open Json (present nonempty?)

/-- A text that may be absent. -/
def textMember (s : Option String) : Option Json := s.map .string

/-- A number that may be absent. -/
def intMember (n : Option Int32) : Option Json := n.map fun n => Json.ofInt n.toInt

/-- A flag that may be absent. -/
def flagMember (b : Option Bool) : Option Json := b.map .bool

/-- The members of a field that are set; of its options only the packing is told. -/
def Field.toJson (f : Field) : Json :=
  present [("name", textMember f.name), ("number", intMember f.number),
    ("label", intMember f.label), ("type", intMember f.type),
    ("type_name", textMember f.typeName), ("default_value", textMember f.defaultValue),
    ("oneof_index", intMember f.oneofIndex), ("json_name", textMember f.jsonName),
    ("proto3_optional", flagMember f.proto3Optional),
    ("packed", flagMember (f.options.bind (·.packed)))]

/-- The members of a value that are set. -/
def EnumValue.toJson (v : EnumValue) : Json :=
  present [("name", textMember v.name), ("number", intMember v.number)]

/-- The name and the values of an enum. -/
def Enum.toJson (e : Enum) : Json :=
  present [("name", textMember e.name), ("value", nonempty? (e.values.map EnumValue.toJson))]

/-- The name of a choice. -/
def Oneof.toJson (o : Oneof) : Json := Json.orNull .string o.name

mutual

/-- The members of a message that are set; of its options only the mark of a map entry is told. -/
def Message.toJson : Message → Json
  | ⟨name, fields, nested, enums, options, oneofs, _⟩ =>
    present [("name", textMember name), ("field", nonempty? (fields.map Field.toJson)),
      ("nested_type", nonempty? (messagesToJson nested)),
      ("enum_type", nonempty? (enums.map Enum.toJson)),
      ("oneof_decl", nonempty? (oneofs.map Oneof.toJson)),
      ("map_entry", flagMember (options.bind (·.mapEntry)))]

/-- The messages of a list, one by one. -/
def messagesToJson : List Message → List Json
  | [] => []
  | m :: ms => m.toJson :: messagesToJson ms

end

/-- The members of a file that are set. -/
def File.toJson (f : File) : Json :=
  present [("name", textMember f.name), ("package", textMember f.package),
    ("dependency", nonempty? (f.dependencies.map .string)), ("syntax", textMember f.dialect),
    ("message_type", nonempty? (messagesToJson f.messages)),
    ("enum_type", nonempty? (f.enums.map Enum.toJson))]

end RowStream.Descriptor
