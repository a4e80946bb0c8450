import RowStream.Descriptor.Options

/-!
# Message descriptors

A descriptor set as it is written down: files of messages and enums. A message has numbered
fields, groups of fields of which one at most is set, and definitions nested in it. Every member of
a descriptor may be left out; labels and types are numbers, and a number outside the known ones is
kept as it is.

* `Field`, `Enum`, `Oneof`, `Message`, `File`: descriptors with every member that may be set.
* `Label`, `Scalar`, `FieldType`, `Dialect`: the choices behind the numbers and names.

Out of scope: services, public and weak imports, extensions and options of files, and source
locations.
-/

namespace RowStream.Descriptor

/-- A field of a message. -/
structure Field where
  name : Option String := none
  extendee : Option String := none
  number : Option Int32 := none
  label : Option Int32 := none
  type : Option Int32 := none
  typeName : Option String := none
  defaultValue : Option String := none
  options : Option FieldOptions := none
  oneofIndex : Option Int32 := none
  jsonName : Option String := none
  proto3Optional : Option Bool := none
deriving Repr, DecidableEq, Inhabited

/-- A value of an enum. -/
structure EnumValue where
  name : Option String := none
  number : Option Int32 := none
  options : Option EnumValueOptions := none
deriving Repr, DecidableEq, Inhabited

/-- An enum. -/
structure Enum where
  name : Option String := none
  values : List EnumValue := []
  options : Option EnumOptions := none
  reservedRanges : List NumberRange := []
  reservedNames : List String := []
deriving Repr, DecidableEq, Inhabited

/-- A choice among fields. -/
structure Oneof where
  name : Option String := none
  options : Option PlainOptions := none
deriving Repr, DecidableEq, Inhabited

/-- What a message sets aside: ranges of numbers for extensions, and ranges and names that no field
may take; and the extensions of messages that are declared in it. -/
structure Reserve where
  extensionRanges : List ExtensionRange := []
  extensions : List Field := []
  ranges : List NumberRange := []
  names : List String := []
deriving Repr, DecidableEq, Inhabited

/-- A message. -/
structure Message where
  name : Option String := none
  fields : List Field := []
  nested : List Message := []
  enums : List Enum := []
  options : Option MessageOptions := none
  oneofs : List Oneof := []
  reserve : Reserve := {}
deriving Repr, Inhabited

/-- A file. -/
structure File where
  name : Option String := none
  package : Option String := none
  dependencies : List String := []
  messages : List Message := []
  enums : List Enum := []
  dialect : Option String := none
deriving Repr, Inhabited

/-! ## Equality -/

mutual

/-- Equality of messages is decidable. -/
def decEqMessage : (a b : Message) → Decidable (a = b)
  | ⟨n₁, f₁, m₁, e₁, o₁, c₁, r₁⟩, ⟨n₂, f₂, m₂, e₂, o₂, c₂, r₂⟩ =>
    match decEqMessages m₁ m₂ with
    | isFalse h => isFalse fun e => h (by injection e)
    | isTrue hm =>
      if h : n₁ = n₂ ∧ f₁ = f₂ ∧ e₁ = e₂ ∧ o₁ = o₂ ∧ c₁ = c₂ ∧ r₁ = r₂ then
        isTrue (by obtain ⟨rfl, rfl, rfl, rfl, rfl, rfl⟩ := h; rw [hm])
      else
        isFalse fun e => h (by injection e; exact ⟨‹_›, ‹_›, ‹_›, ‹_›, ‹_›, ‹_›⟩)

/-- Equality of lists of messages is decidable. -/
def decEqMessages : (a b : List Message) → Decidable (a = b)
  | [], [] => isTrue rfl
  | [], _ :: _ => isFalse (by simp)
  | _ :: _, [] => isFalse (by simp)
  | a :: as, b :: bs =>
    match decEqMessage a b with
    | isFalse h => isFalse fun e => h (by injection e)
    | isTrue hab =>
      match decEqMessages as bs with
      | isFalse h => isFalse fun e => h (by injection e)
      | isTrue has => isTrue (by rw [hab, has])

end

instance : DecidableEq Message := decEqMessage

deriving instance DecidableEq for File

/-! ## Members with their defaults -/

/-- The name, empty where none is set. -/
def Field.nameText (f : Field) : String := f.name.getD ""

/-- The name of the type, empty where none is set. -/
def Field.typeNameText (f : Field) : String := f.typeName.getD ""

/-- The name, empty where none is set. -/
def EnumValue.nameText (v : EnumValue) : String := v.name.getD ""

/-- The number, zero where none is set. -/
def EnumValue.numberValue (v : EnumValue) : Int32 := v.number.getD 0

/-- Values of the enum may share a number. -/
def Enum.allowsAlias (e : Enum) : Bool :=
  match e.options with
  | some o => o.allowsAlias.getD false
  | none => false

/-- The name, empty where none is set. -/
def Enum.nameText (e : Enum) : String := e.name.getD ""

/-- The name, empty where none is set. -/
def Oneof.nameText (o : Oneof) : String := o.name.getD ""

/-- The name, empty where none is set. -/
def Message.nameText (m : Message) : String := m.name.getD ""

/-- The message is the entry of a map. -/
def Message.isMapEntry (m : Message) : Bool :=
  match m.options with
  | some o => o.mapEntry.getD false
  | none => false

/-- The name, empty where none is set. -/
def File.nameText (f : File) : String := f.name.getD ""

/-- The package, empty where none is set. -/
def File.packageText (f : File) : String := f.package.getD ""

/-! ## Labels and types -/

/-- How often a field occurs. -/
inductive Label where
  | optional
  | required
  | repeated
deriving Repr, DecidableEq, Inhabited

/-- The number of the label. -/
def Label.number : Label → Int32
  | .optional => 1
  | .required => 2
  | .repeated => 3

/-- The word for the label. -/
def Label.name : Label → String
  | .optional => "optional"
  | .required => "required"
  | .repeated => "repeated"

/-- The label of a number; an unknown one reads as optional. -/
def Label.ofNumber (n : Int32) : Label :=
  if n = 2 then .required else if n = 3 then .repeated else .optional

/-- The label, optional where none is set. -/
def Field.labelValue (f : Field) : Label := Label.ofNumber (f.label.getD 1)

/-- The types of values that are no messages and no enums. -/
inductive Scalar where
  | double
  | float
  | int64
  | uint64
  | int32
  | fixed64
  | fixed32
  | bool
  | string
  | bytes
  | uint32
  | sfixed32
  | sfixed64
  | sint32
  | sint64
deriving Repr, DecidableEq, Inhabited

/-- The word for the type. -/
def Scalar.name : Scalar → String
  | .double => "double"
  | .float => "float"
  | .int64 => "int64"
  | .uint64 => "uint64"
  | .int32 => "int32"
  | .fixed64 => "fixed64"
  | .fixed32 => "fixed32"
  | .bool => "bool"
  | .string => "string"
  | .bytes => "bytes"
  | .uint32 => "uint32"
  | .sfixed32 => "sfixed32"
  | .sfixed64 => "sfixed64"
  | .sint32 => "sint32"
  | .sint64 => "sint64"

/-- The number of the type. Those of groups, messages and enums lie between them. -/
def Scalar.number : Scalar → Int32
  | .double => 1
  | .float => 2
  | .int64 => 3
  | .uint64 => 4
  | .int32 => 5
  | .fixed64 => 6
  | .fixed32 => 7
  | .bool => 8
  | .string => 9
  | .bytes => 12
  | .uint32 => 13
  | .sfixed32 => 15
  | .sfixed64 => 16
  | .sint32 => 17
  | .sint64 => 18

/-- Repeated values may be written in one run of bytes. -/
def Scalar.isPackable : Scalar → Bool
  | .string | .bytes => false
  | _ => true

/-- The type a field is declared with. -/
inductive FieldType where
  | scalar (s : Scalar)
  | group
  | message
  | enum
deriving Repr, DecidableEq, Inhabited

/-- The number of the type. -/
def FieldType.number : FieldType → Int32
  | .scalar s => s.number
  | .group => 10
  | .message => 11
  | .enum => 14

/-- The type of a number; an unknown one reads as double. -/
def FieldType.ofNumber (n : Int32) : FieldType :=
  if n = 2 then .scalar .float
  else if n = 3 then .scalar .int64
  else if n = 4 then .scalar .uint64
  else if n = 5 then .scalar .int32
  else if n = 6 then .scalar .fixed64
  else if n = 7 then .scalar .fixed32
  else if n = 8 then .scalar .bool
  else if n = 9 then .scalar .string
  else if n = 10 then .group
  else if n = 11 then .message
  else if n = 12 then .scalar .bytes
  else if n = 13 then .scalar .uint32
  else if n = 14 then .enum
  else if n = 15 then .scalar .sfixed32
  else if n = 16 then .scalar .sfixed64
  else if n = 17 then .scalar .sint32
  else if n = 18 then .scalar .sint64
  else .scalar .double

/-- The type, double where none is set. -/
def Field.typeValue (f : Field) : FieldType := FieldType.ofNumber (f.type.getD 1)

/-! ## Dialects -/

/-- The two dialects of the language, which differ in presence and packing. -/
inductive Dialect where
  | proto2
  | proto3
deriving Repr, DecidableEq, Inhabited

/-- The name of the dialect, as a file declares it. -/
def Dialect.name : Dialect → String
  | .proto2 => "proto2"
  | .proto3 => "proto3"

/-- The dialect with a name. -/
def Dialect.ofName? (s : String) : Option Dialect :=
  if s = "proto2" then some .proto2 else if s = "proto3" then some .proto3 else none

/-- What is said of a name that no dialect has. -/
def Dialect.unknownMessage (s : String) : String :=
  "unknown syntax: " ++ s ++ " (expected proto2 or proto3)"

end RowStream.Descriptor
