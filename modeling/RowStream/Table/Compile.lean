import RowStream.Table.Basic
import RowStream.Table.Error
import RowStream.Descriptor.Basic
import RowStream.Number.Integer

/-!
# Compiling table schemas

A schema becomes one message for the table and one for every STRUCT column, each in a file of its
own. The message of the table is named by the scope, that of a STRUCT column by the name of the
message around it, an underscore and the column. Files stand after those they depend on, so the
last one is the table's.

A name that is already taken keeps its first message: a second column with the same joined name
refers to that one.

* `wireType`, `label`, `isPacked`: what a type and a mode become.
* `field`, `fields`, `scope`: a column, the columns of a message, and a message.
* `files`: the files of a schema.

Out of scope: names that are no identifiers; they are taken as they are.
-/

namespace RowStream.Table.Compile

open Descriptor (Dialect Label Scalar FieldType)

/-- The timestamp precision past which the value is text. -/
def microseconds : Int64 := 6

/-- The type that a column's values have in a message. -/
def wireType (c : Column) : Except Unsupported FieldType :=
  match ColumnType.ofNumber? c.type with
  | none => .error (.type c.name (Integer.text c.type.toInt))
  | some t =>
    match t with
    | .bool => .ok (.scalar .bool)
    | .bytes | .numeric | .bignumeric => .ok (.scalar .bytes)
    | .date => .ok (.scalar .int32)
    | .timestamp =>
      match c.timestampPrecision with
      | some n => if microseconds < n then .ok (.scalar .string) else .ok (.scalar .int64)
      | none => .ok (.scalar .int64)
    | .datetime | .time => .ok (.scalar .int64)
    | .double => .ok (.scalar .double)
    | .geography | .string | .json => .ok (.scalar .string)
    | .int64 => .ok (.scalar .int64)
    | .struct => .ok .message
    | .unspecified | .interval | .range => .error (.type c.name t.name)

/-- The label of a column. Only the older dialect can require a field. -/
def label (dialect : Dialect) (c : Column) : Except Unsupported Label :=
  match Mode.ofNumber? c.mode with
  | some .repeated => .ok .repeated
  | some .required =>
    match dialect with
    | .proto2 => .ok .required
    | .proto3 => .ok .optional
  | some .nullable | some .unspecified => .ok .optional
  | none => .error (.mode c.name (Integer.text c.mode.toInt))

/-- The types whose repeated values are packed. -/
def isPacked : FieldType → Bool
  | .scalar .int32 | .scalar .int64 | .scalar .double | .scalar .bool => true
  | _ => false

/-- The file of a message. -/
def fileName (message : String) : String := message ++ ".proto"

/-- A file with the name is among the files. -/
def isTaken (files : List Descriptor.File) (name : String) : Bool :=
  files.any fun f => f.name == some name

/-- A message while its columns are compiled: its fields and choices, and the files it needs. -/
structure Draft where
  fields : List Descriptor.Field := []
  oneofs : List Descriptor.Oneof := []
  dependencies : List String := []
deriving Repr

/-- Adds a file that the message needs, once. -/
def Draft.require (d : Draft) (file : String) : Draft :=
  if d.dependencies.contains file then d else { d with dependencies := d.dependencies ++ [file] }

/-- Adds a field. In the newer dialect an optional field that is no message gets a choice of its
own, which marks whether it is set. -/
def Draft.add (d : Draft) (dialect : Dialect) (column : String) (label : Label)
    (type : FieldType) (f : Descriptor.Field) : Draft :=
  if dialect = .proto3 ∧ label = .optional ∧ type ≠ .message then
    { d with
      fields := d.fields ++ [{ f with
        proto3Optional := some true, oneofIndex := some (Int32.ofNat d.oneofs.length) }]
      oneofs := d.oneofs ++ [{ name := some ("_" ++ column) }] }
  else { d with fields := d.fields ++ [f] }

/-- The message of a finished draft. -/
def Draft.message (d : Draft) (scope : String) : Descriptor.Message :=
  { name := some scope, fields := d.fields, oneofs := d.oneofs }

/-- Adds the file of a message, unless its name is taken. -/
def addFile (dialect : Dialect) (scope : String) (d : Draft) (files : List Descriptor.File) :
    List Descriptor.File :=
  if isTaken files (fileName scope) then files
  else
    files ++ [{
      name := some (fileName scope)
      dependencies := d.dependencies
      messages := [d.message scope]
      dialect := some dialect.name }]

/-- The field of a column, as far as its type and label say. -/
def baseField (dialect : Dialect) (name : String) (number : Nat) (label : Label)
    (type : FieldType) : Descriptor.Field :=
  { name := some name
    number := some (Int32.ofNat number)
    label := some label.number
    type := some type.number
    options :=
      if dialect = .proto2 ∧ label = .repeated ∧ isPacked type then some { packed := some true }
      else none }

/-- The message of a STRUCT column. -/
def nestedName (scope column : String) : String := scope ++ "_" ++ column

mutual

/-- Adds the message of a scope and of every STRUCT column below it. -/
def scope (dialect : Dialect) (name : String) (columns : List Column)
    (files : List Descriptor.File) : Except Unsupported (List Descriptor.File) := do
  let (draft, files) ← fields dialect name 1 columns {} files
  return addFile dialect name draft files

/-- Adds the columns from number `number` on to the draft of the message `name`. -/
def fields (dialect : Dialect) (name : String) (number : Nat) :
    List Column → Draft → List Descriptor.File →
      Except Unsupported (Draft × List Descriptor.File)
  | [], draft, files => .ok (draft, files)
  | c :: cs, draft, files => do
    let (draft, files) ← field dialect name number c draft files
    fields dialect name (number + 1) cs draft files

/-- Adds one column to the draft of the message `name`. -/
def field (dialect : Dialect) (name : String) (number : Nat) :
    Column → Draft → List Descriptor.File → Except Unsupported (Draft × List Descriptor.File)
  | ⟨column, type, mode, columns, description, maxLength, precision, scale, expression, digits⟩,
      draft, files => do
    let c : Column :=
      ⟨column, type, mode, columns, description, maxLength, precision, scale, expression, digits⟩
    let t ← wireType c
    let l ← label dialect c
    let base := baseField dialect column number l t
    if t = .message then
      let nested := nestedName name column
      let files ← if isTaken files (fileName nested) then .ok files
        else do
          let (inner, files) ← fields dialect nested 1 columns {} files
          .ok (addFile dialect nested inner files)
      let f := { base with typeName := some ("." ++ nested) }
      return ((draft.require (fileName nested)).add dialect column l t f, files)
    else return (draft.add dialect column l t base, files)

end

/-- The files of a schema. -/
def files (s : Schema) (name : String) (dialect : Dialect) :
    Except Unsupported (List Descriptor.File) :=
  scope dialect name s.columns []

end RowStream.Table.Compile
