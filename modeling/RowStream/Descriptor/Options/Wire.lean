import RowStream.Descriptor.Options
import RowStream.Wire.Message

/-!
# Options of descriptors on the wire

The records of options and of ranges. Members that are set are written even when they hold their
default.

* one pair of `records` and `absorb` for each sort of options and of ranges;
* `absorbOther`: the options that stay as they were written.
-/

namespace RowStream.Descriptor

open Wire

/-- Both members of a part of a name, which are required. -/
def NamePart.records (n : NamePart) : List Record :=
  [(1, textPayload n.text), (2, boolPayload n.isExtension)]

/-- Takes one record into a part of a name. -/
def NamePart.absorb (depth : Nat) (n : NamePart) : Record → Option NamePart
  | (1, p) => p.text?.map fun s => { n with text := s }
  | (2, p) => p.bool?.map fun b => { n with isExtension := b }
  | _ => unknown depth n

instance : Wire.Message NamePart where
  empty := {}
  records := NamePart.records
  absorb := NamePart.absorb

/-- The parts of the name, and the value in the one member that it is set in. -/
def UninterpretedOption.records (o : UninterpretedOption) : List Record :=
  repeated 2 messagePayload o.name ++
  optional 3 textPayload o.identifier ++
  optional 4 Payload.varint o.positive ++
  optional 5 (fun n : Int64 => .varint n.toUInt64) o.negative ++
  optional 6 (fun x : Double => .fixed64 x.bits) o.double ++
  optional 7 Payload.bytes o.string ++
  optional 8 textPayload o.aggregate

/-- Takes one record into an option that is not interpreted; a further part of the name is
appended. -/
def UninterpretedOption.absorb (depth : Nat) (o : UninterpretedOption) :
    Record → Option UninterpretedOption
  | (2, p) => (nested depth ({} : NamePart) p).map fun n => { o with name := o.name ++ [n] }
  | (3, p) => p.text?.map fun s => { o with identifier := some s }
  | (4, p) => p.nat64?.map fun n => { o with positive := some n }
  | (5, p) => p.int64?.map fun n => { o with negative := some n }
  | (6, p) => p.double?.map fun x => { o with double := some x }
  | (7, p) => p.bytes?.map fun b => { o with string := some b }
  | (8, p) => p.text?.map fun s => { o with aggregate := some s }
  | _ => unknown depth o

instance : Wire.Message UninterpretedOption where
  empty := {}
  records := UninterpretedOption.records
  absorb := UninterpretedOption.absorb

/-- The number of the options that stay as they were written. -/
def othersNumber : Nat := 999

/-- The options that stay as they were written. -/
def othersRecords (os : List UninterpretedOption) : List Record :=
  repeated othersNumber messagePayload os

/-- Takes a record of an option that stays as it was written, or of an unknown number. -/
def absorbOther {α : Type} (depth : Nat) (a : α) (add : UninterpretedOption → α) :
    Record → Option α
  | (number, p) =>
    if number = othersNumber then (nested depth ({} : UninterpretedOption) p).map add
    else unknown depth a

/-- The options of a field that are set. -/
def FieldOptions.records (o : FieldOptions) : List Record :=
  optional 1 int32Payload o.stringForm ++
  optional 2 boolPayload o.packed ++
  optional 3 boolPayload o.isDeprecated ++
  optional 5 boolPayload o.isLazy ++
  optional 6 int32Payload o.integerForm ++
  optional 10 boolPayload o.isWeak ++
  othersRecords o.others

/-- Takes one record into the options of a field. -/
def FieldOptions.absorb (depth : Nat) (o : FieldOptions) : Record → Option FieldOptions
  | (1, p) => p.int32?.map fun n => { o with stringForm := some n }
  | (2, p) => p.bool?.map fun b => { o with packed := some b }
  | (3, p) => p.bool?.map fun b => { o with isDeprecated := some b }
  | (5, p) => p.bool?.map fun b => { o with isLazy := some b }
  | (6, p) => p.int32?.map fun n => { o with integerForm := some n }
  | (10, p) => p.bool?.map fun b => { o with isWeak := some b }
  | r => absorbOther depth o (fun x => { o with others := o.others ++ [x] }) r

instance : Wire.Message FieldOptions where
  empty := {}
  records := FieldOptions.records
  absorb := FieldOptions.absorb

/-- The options of a message that are set. -/
def MessageOptions.records (o : MessageOptions) : List Record :=
  optional 1 boolPayload o.isMessageSet ++
  optional 2 boolPayload o.hidesAccessor ++
  optional 3 boolPayload o.isDeprecated ++
  optional 7 boolPayload o.mapEntry ++
  othersRecords o.others

/-- Takes one record into the options of a message. -/
def MessageOptions.absorb (depth : Nat) (o : MessageOptions) : Record → Option MessageOptions
  | (1, p) => p.bool?.map fun b => { o with isMessageSet := some b }
  | (2, p) => p.bool?.map fun b => { o with hidesAccessor := some b }
  | (3, p) => p.bool?.map fun b => { o with isDeprecated := some b }
  | (7, p) => p.bool?.map fun b => { o with mapEntry := some b }
  | r => absorbOther depth o (fun x => { o with others := o.others ++ [x] }) r

instance : Wire.Message MessageOptions where
  empty := {}
  records := MessageOptions.records
  absorb := MessageOptions.absorb

/-- The options of an enum that are set. -/
def EnumOptions.records (o : EnumOptions) : List Record :=
  optional 2 boolPayload o.allowsAlias ++
  optional 3 boolPayload o.isDeprecated ++
  othersRecords o.others

/-- Takes one record into the options of an enum. -/
def EnumOptions.absorb (depth : Nat) (o : EnumOptions) : Record → Option EnumOptions
  | (2, p) => p.bool?.map fun b => { o with allowsAlias := some b }
  | (3, p) => p.bool?.map fun b => { o with isDeprecated := some b }
  | r => absorbOther depth o (fun x => { o with others := o.others ++ [x] }) r

instance : Wire.Message EnumOptions where
  empty := {}
  records := EnumOptions.records
  absorb := EnumOptions.absorb

/-- The options of a value of an enum that are set. -/
def EnumValueOptions.records (o : EnumValueOptions) : List Record :=
  optional 1 boolPayload o.isDeprecated ++ othersRecords o.others

/-- Takes one record into the options of a value of an enum. -/
def EnumValueOptions.absorb (depth : Nat) (o : EnumValueOptions) :
    Record → Option EnumValueOptions
  | (1, p) => p.bool?.map fun b => { o with isDeprecated := some b }
  | r => absorbOther depth o (fun x => { o with others := o.others ++ [x] }) r

instance : Wire.Message EnumValueOptions where
  empty := {}
  records := EnumValueOptions.records
  absorb := EnumValueOptions.absorb

/-- Options of which none has a member of its own. -/
def PlainOptions.records (o : PlainOptions) : List Record := othersRecords o.others

/-- Takes one record into options of which none has a member of its own. -/
def PlainOptions.absorb (depth : Nat) (o : PlainOptions) : Record → Option PlainOptions :=
  absorbOther depth o fun x => { o with others := o.others ++ [x] }

instance : Wire.Message PlainOptions where
  empty := {}
  records := PlainOptions.records
  absorb := PlainOptions.absorb

/-- The ends of a range that are set. -/
def NumberRange.records (r : NumberRange) : List Record :=
  optional 1 int32Payload r.start ++ optional 2 int32Payload r.stop

/-- Takes one record into a range. -/
def NumberRange.absorb (depth : Nat) (r : NumberRange) : Record → Option NumberRange
  | (1, p) => p.int32?.map fun n => { r with start := some n }
  | (2, p) => p.int32?.map fun n => { r with stop := some n }
  | _ => unknown depth r

instance : Wire.Message NumberRange where
  empty := {}
  records := NumberRange.records
  absorb := NumberRange.absorb

/-- The ends of a range of extensions that are set, and its options. -/
def ExtensionRange.records (r : ExtensionRange) : List Record :=
  optional 1 int32Payload r.start ++
  optional 2 int32Payload r.stop ++
  optional 3 messagePayload r.options

/-- Takes one record into a range of extensions; further options are merged into those there. -/
def ExtensionRange.absorb (depth : Nat) (r : ExtensionRange) : Record → Option ExtensionRange
  | (1, p) => p.int32?.map fun n => { r with start := some n }
  | (2, p) => p.int32?.map fun n => { r with stop := some n }
  | (3, p) => (nested depth (r.options.getD {}) p).map fun o => { r with options := some o }
  | _ => unknown depth r

instance : Wire.Message ExtensionRange where
  empty := {}
  records := ExtensionRange.records
  absorb := ExtensionRange.absorb

end RowStream.Descriptor
