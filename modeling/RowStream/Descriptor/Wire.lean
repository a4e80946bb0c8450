import RowStream.Descriptor.Basic
import RowStream.Descriptor.Options.Wire

/-!
# Descriptors on the wire

The records of descriptors. Members that are set are written even when they hold their default.

* one pair of `records` and `absorb` for each sort of descriptor;
* `encodeFiles`: the bytes of a descriptor set.

Out of scope: the members of a file that `File` leaves out; their records are passed over.
-/

namespace RowStream.Descriptor

open Wire

/-- The members of a field that are set, in order of their numbers. -/
def Field.records (f : Field) : List Record :=
  optional 1 textPayload f.name ++
  optional 2 textPayload f.extendee ++
  optional 3 int32Payload f.number ++
  optional 4 int32Payload f.label ++
  optional 5 int32Payload f.type ++
  optional 6 textPayload f.typeName ++
  optional 7 textPayload f.defaultValue ++
  optional 8 messagePayload f.options ++
  optional 9 int32Payload f.oneofIndex ++
  optional 10 textPayload f.jsonName ++
  optional 17 boolPayload f.proto3Optional

/-- Takes one record into a field; further options are merged into those there. -/
def Field.absorb (depth : Nat) (f : Field) : Record → Option Field
  | (1, p) => p.text?.map fun s => { f with name := some s }
  | (2, p) => p.text?.map fun s => { f with extendee := some s }
  | (3, p) => p.int32?.map fun n => { f with number := some n }
  | (4, p) => p.int32?.map fun n => { f with label := some n }
  | (5, p) => p.int32?.map fun n => { f with type := some n }
  | (6, p) => p.text?.map fun s => { f with typeName := some s }
  | (7, p) => p.text?.map fun s => { f with defaultValue := some s }
  | (8, p) => (nested depth (f.options.getD {}) p).map fun o => { f with options := some o }
  | (9, p) => p.int32?.map fun n => { f with oneofIndex := some n }
  | (10, p) => p.text?.map fun s => { f with jsonName := some s }
  | (17, p) => p.bool?.map fun b => { f with proto3Optional := some b }
  | _ => unknown depth f

instance : Wire.Message Field where
  empty := {}
  records := Field.records
  absorb := Field.absorb

/-- The members of a value of an enum that are set. -/
def EnumValue.records (v : EnumValue) : List Record :=
  optional 1 textPayload v.name ++
  optional 2 int32Payload v.number ++
  optional 3 messagePayload v.options

/-- Takes one record into a value of an enum. -/
def EnumValue.absorb (depth : Nat) (v : EnumValue) : Record → Option EnumValue
  | (1, p) => p.text?.map fun s => { v with name := some s }
  | (2, p) => p.int32?.map fun n => { v with number := some n }
  | (3, p) => (nested depth (v.options.getD {}) p).map fun o => { v with options := some o }
  | _ => unknown depth v

instance : Wire.Message EnumValue where
  empty := {}
  records := EnumValue.records
  absorb := EnumValue.absorb

/-- The members of an enum that are set, its values one by one. -/
def Enum.records (e : Enum) : List Record :=
  optional 1 textPayload e.name ++
  repeated 2 messagePayload e.values ++
  optional 3 messagePayload e.options ++
  repeated 4 messagePayload e.reservedRanges ++
  repeated 5 textPayload e.reservedNames

/-- Takes one record into an enum; a further value or reserved name is appended. -/
def Enum.absorb (depth : Nat) (e : Enum) : Record → Option Enum
  | (1, p) => p.text?.map fun s => { e with name := some s }
  | (2, p) => (nested depth ({} : EnumValue) p).map fun v => { e with values := e.values ++ [v] }
  | (3, p) => (nested depth (e.options.getD {}) p).map fun o => { e with options := some o }
  | (4, p) =>
    (nested depth ({} : NumberRange) p).map fun r =>
      { e with reservedRanges := e.reservedRanges ++ [r] }
  | (5, p) => p.text?.map fun s => { e with reservedNames := e.reservedNames ++ [s] }
  | _ => unknown depth e

instance : Wire.Message Enum where
  empty := {}
  records := Enum.records
  absorb := Enum.absorb

/-- The members of a choice that are set. -/
def Oneof.records (o : Oneof) : List Record :=
  optional 1 textPayload o.name ++ optional 2 messagePayload o.options

/-- Takes one record into a choice. -/
def Oneof.absorb (depth : Nat) (o : Oneof) : Record → Option Oneof
  | (1, p) => p.text?.map fun s => { o with name := some s }
  | (2, p) => (nested depth (o.options.getD {}) p).map fun os => { o with options := some os }
  | _ => unknown depth o

instance : Wire.Message Oneof where
  empty := {}
  records := Oneof.records
  absorb := Oneof.absorb

mutual

/-- The members of a message that are set, those of nested messages inside its own. -/
def Message.records : Message → List Record
  | ⟨name, fields, nested, enums, options, oneofs, reserve⟩ =>
    optional 1 textPayload name ++
    repeated 2 messagePayload fields ++
    nestedRecords nested ++
    repeated 4 messagePayload enums ++
    repeated 5 messagePayload reserve.extensionRanges ++
    repeated 6 messagePayload reserve.extensions ++
    optional 7 messagePayload options ++
    repeated 8 messagePayload oneofs ++
    repeated 9 messagePayload reserve.ranges ++
    repeated 10 textPayload reserve.names

/-- The records of the messages nested in a message. -/
def nestedRecords : List Message → List Record
  | [] => []
  | m :: ms => (3, .bytes (encodeRecords m.records)) :: nestedRecords ms

end

/-- Takes a record of what a message sets aside. -/
def Reserve.absorb (depth : Nat) (r : Reserve) : Record → Option Reserve
  | (5, p) =>
    (nested depth ({} : ExtensionRange) p).map fun x =>
      { r with extensionRanges := r.extensionRanges ++ [x] }
  | (6, p) =>
    (nested depth ({} : Field) p).map fun f => { r with extensions := r.extensions ++ [f] }
  | (9, p) => (nested depth ({} : NumberRange) p).map fun x => { r with ranges := r.ranges ++ [x] }
  | (10, p) => p.text?.map fun s => { r with names := r.names ++ [s] }
  | _ => unknown depth r

/-- Takes one record into a message. A nested message is read with one level less to go, so the
recursion ends with the levels. -/
def Message.absorb (depth : Nat) (m : Message) : Record → Option Message
  | (1, p) => p.text?.map fun s => { m with name := some s }
  | (2, p) => (Wire.nested depth ({} : Field) p).map fun f => { m with fields := m.fields ++ [f] }
  | (3, .bytes b) =>
    match depth with
    | 0 => none
    | depth + 1 =>
      (absorbAll (Message.absorb depth) depth {} b).map fun n =>
        { m with nested := m.nested ++ [n] }
  | (3, _) => none
  | (4, p) => (Wire.nested depth ({} : Enum) p).map fun e => { m with enums := m.enums ++ [e] }
  | (7, p) => (Wire.nested depth (m.options.getD {}) p).map fun o => { m with options := some o }
  | (8, p) => (Wire.nested depth ({} : Oneof) p).map fun o => { m with oneofs := m.oneofs ++ [o] }
  | r => (m.reserve.absorb depth r).map fun x => { m with reserve := x }

instance : Wire.Message Message where
  empty := {}
  records := Message.records
  absorb := Message.absorb

/-- The members of a file that are set, in order of their numbers. -/
def File.records (f : File) : List Record :=
  optional 1 textPayload f.name ++
  optional 2 textPayload f.package ++
  repeated 3 textPayload f.dependencies ++
  repeated 4 messagePayload f.messages ++
  repeated 5 messagePayload f.enums ++
  optional 12 textPayload f.dialect

/-- Takes one record into a file; a further message, enum or import is appended. -/
def File.absorb (depth : Nat) (f : File) : Record → Option File
  | (1, p) => p.text?.map fun s => { f with name := some s }
  | (2, p) => p.text?.map fun s => { f with package := some s }
  | (3, p) => p.text?.map fun s => { f with dependencies := f.dependencies ++ [s] }
  | (4, p) => (nested depth ({} : Message) p).map fun m => { f with messages := f.messages ++ [m] }
  | (5, p) => (nested depth ({} : Enum) p).map fun e => { f with enums := f.enums ++ [e] }
  | (12, p) => p.text?.map fun s => { f with dialect := some s }
  | _ => unknown depth f

instance : Wire.Message File where
  empty := {}
  records := File.records
  absorb := File.absorb

/-- The bytes of a descriptor set. -/
def encodeFiles (files : List File) : List UInt8 :=
  encodeRecords (repeated 1 messagePayload files)

end RowStream.Descriptor
