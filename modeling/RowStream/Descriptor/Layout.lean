import RowStream.Descriptor.Basic
import RowStream.Json.Basic
import RowStream.Keyed
import RowStream.Text.Search

/-!
# Layouts

The layout of a set of files: for every message, by full name, the number, type and rule of its
fields, by name. Messages and fields stand in order of name, each name once; of two with one name
the later counts, and a message is later than those nested in it.

* `ofFiles`: the layout of a set of files.
* `toJson`: the layout as an object.

Out of scope: enums, choices and options; a layout tells messages and fields only.
-/

namespace RowStream.Descriptor

namespace Layout

/-- A field: its number, the name of its type, and how often it occurs. -/
structure Field where
  number : Int32
  type : String
  rule : Label
deriving Repr, DecidableEq

end Layout

/-- Fields by name. -/
abbrev FieldLayouts := Keyed Layout.Field

/-- Messages by full name. -/
abbrev Layout := Keyed FieldLayouts

namespace Layout

/-- What the layout tells of a field. A message or enum is named by its full name without the dots
in front. -/
def ofField (f : Descriptor.Field) : Field where
  number := f.number.getD 0
  type :=
    match f.typeValue with
    | .scalar s => s.name
    | .group | .message | .enum => Text.dropDots f.typeNameText
  rule := f.labelValue

/-- The fields of a message by name; of two with one name the later counts. -/
def ofFields (fs : List Descriptor.Field) : FieldLayouts :=
  Keyed.ofList (fs.map fun f => (f.nameText, ofField f))

mutual

/-- Adds a message and those nested in it. -/
def addMessage (scope : String) : Descriptor.Message → Layout → Layout
  | ⟨name, fields, nested, _, _, _, _⟩, l =>
    let full := Text.qualify scope (name.getD "")
    Keyed.put full (ofFields fields) (addMessages full nested l)

/-- Adds messages one after the other, each with those nested in it. -/
def addMessages (scope : String) : List Descriptor.Message → Layout → Layout
  | [], l => l
  | m :: ms, l => addMessages scope ms (addMessage scope m l)

end

/-- The layout of a set of files. -/
def ofFiles (files : List Descriptor.File) : Layout :=
  files.foldl (fun l f => addMessages f.packageText f.messages l) []

/-- A field as an object. -/
def Field.toJson (f : Field) : Json :=
  .object [("id", Json.ofInt f.number.toInt), ("type", .string f.type),
    ("rule", .string f.rule.name)]

/-- The fields of a message as an object, in order of name. -/
def fieldsToJson (fs : FieldLayouts) : Json :=
  .object [("fields", .object (fs.map fun (name, f) => (name, f.toJson)))]

/-- The layout as an object, its messages in order of full name. -/
def toJson (l : Layout) : Json :=
  .object [("messages", .object (l.map fun (name, fs) => (name, fieldsToJson fs)))]

end Layout

end RowStream.Descriptor
