import RowStream.Descriptor.Basic
import RowStream.Message.Basic
import RowStream.Text.Search

/-!
# Resolved descriptors

A pool holds the messages and enums of a set of files under their full names. The type of every
field is resolved, and each field knows whether it can tell an unset value from its default and how
its repeated values are written. The fields of a message stand in order of number.

* `Kind`, `Field`, `Message`, `Enum`: definitions with their references resolved.
* `message?`, `find`, `enum?`: definitions by full name.
* `isMap`, `isList`, `default`: how a field holds its values.

Out of scope: files, services and extensions as definitions of a pool.
-/

namespace RowStream

open Descriptor (Scalar Label)

namespace Pool

/-- What the values of a field are. -/
inductive Kind where
  | scalar (s : Scalar)
  | message (name : String)
  | group (name : String)
  | enum (name : String)
deriving Repr, DecidableEq, Inhabited

/-- The name of a scalar, or the full name of a message or enum. -/
def Kind.name : Kind → String
  | .scalar s => s.name
  | .message name | .group name | .enum name => name

/-- The name of a kind that says also whether it is a message or an enum. -/
def Kind.text : Kind → String
  | .scalar s => s.name
  | .message name | .group name => "message " ++ name
  | .enum name => "enum " ++ name

/-- Repeated values of the kind may be written in one run of bytes. -/
def Kind.isPackable : Kind → Bool
  | .scalar s => s.isPackable
  | .enum _ => true
  | .message _ | .group _ => false

/-- The full name of the message that the values are. -/
def Kind.message? : Kind → Option String
  | .message name | .group name => some name
  | .scalar _ | .enum _ => none

/-- A field. `presence` says that an unset value differs from the default, `packed` that repeated
values are written in one run of bytes. -/
structure Field where
  name : String
  number : Nat
  kind : Kind
  label : Label
  packed : Bool
  presence : Bool
  oneof : Option Nat
  default? : Option Message.Value
  descriptor : Descriptor.Field
deriving Repr, Inhabited

/-- The field holds a list of values, or the entries of a map. -/
def Field.isRepeated (f : Field) : Bool := f.label == .repeated

/-- A message. -/
structure Message where
  fullName : String
  fields : List Field
  descriptor : Descriptor.Message
deriving Repr, Inhabited

namespace Message

/-- The name that the message was declared with. -/
def name (m : Message) : String := m.descriptor.nameText

/-- The message is the entry of a map. -/
def isMapEntry (m : Message) : Bool := m.descriptor.isMapEntry

/-- The field with a name. -/
def field? (m : Message) (name : String) : Option Field :=
  m.fields.find? fun f => f.name == name

/-- The field with a number. -/
def fieldWithNumber? (m : Message) (number : Nat) : Option Field :=
  m.fields.find? fun f => f.number == number

/-- The numbers of the fields that belong to the same choice as a field. -/
def siblings (m : Message) (f : Field) : List Nat :=
  match f.oneof with
  | some i => (m.fields.filter fun g => g.oneof == some i).map Field.number
  | none => []

/-- The name of the choice that a field belongs to. -/
def oneofName? (m : Message) (f : Field) : Option String :=
  match f.oneof with
  | some i => m.descriptor.oneofs[i]?.map (·.nameText)
  | none => none

end Message

/-- An enum. -/
structure Enum where
  fullName : String
  descriptor : Descriptor.Enum
deriving Repr, Inhabited

/-- The number of the value with a name. -/
def Enum.number? (e : Enum) (name : String) : Option Int32 :=
  (e.descriptor.values.find? fun v => v.nameText == name).map (·.numberValue)

/-- The number of the first value. -/
def Enum.default (e : Enum) : Int32 :=
  match e.descriptor.values with
  | v :: _ => v.numberValue
  | [] => 0

end Pool

/-- The messages and enums of a set of files. -/
structure Pool where
  messages : List Pool.Message := []
  enums : List Pool.Enum := []
deriving Repr, Inhabited

namespace Pool

/-- The message with a full name, written with or without a dot in front. -/
def message? (p : Pool) (name : String) : Option Message :=
  let name := Text.dropDot name
  p.messages.find? fun m => m.fullName == name

/-- The message with exactly this full name. -/
def find (p : Pool) (fullName : String) : Option Message :=
  p.messages.find? fun m => m.fullName == fullName

/-- The enum with exactly this full name. -/
def enum? (p : Pool) (fullName : String) : Option Enum :=
  p.enums.find? fun e => e.fullName == fullName

/-- The values of the field are the entries of a map. -/
def isMap (p : Pool) (f : Field) : Bool :=
  f.isRepeated &&
    match f.kind.message? with
    | some name =>
      match p.find name with
      | some m => m.isMapEntry
      | none => false
    | none => false

/-- The field holds a list. -/
def isList (p : Pool) (f : Field) : Bool :=
  f.isRepeated && !p.isMap f

/-- The value that an unset scalar field has. -/
def scalarDefault : Scalar → Message.Value
  | .double => .double ⟨0⟩
  | .float => .float ⟨0⟩
  | .int32 | .sint32 | .sfixed32 => .int32 0
  | .int64 | .sint64 | .sfixed64 => .int64 0
  | .uint32 | .fixed32 => .uint32 0
  | .uint64 | .fixed64 => .uint64 0
  | .bool => .bool false
  | .string => .string ""
  | .bytes => .bytes []

/-- The value that an unset field has. -/
def default (p : Pool) (f : Field) : Message.Value :=
  if f.isRepeated then .list []
  else
    match f.default? with
    | some v => v
    | none =>
      match f.kind with
      | .scalar s => scalarDefault s
      | .message _ | .group _ => .message []
      | .enum name =>
        match p.enum? name with
        | some e => .enum e.default
        | none => .enum 0

end Pool

end RowStream
