import RowStream.Message.Basic
import RowStream.Shape.Basic
import RowStream.Wire.Message

/-!
# Messages of a shape on the wire

The records of a message: those of its fields, in order of number. How a value is written depends
on the kind of its field: integers in a varint, zigzag or not, or in a fixed number of bytes, and
nested messages as counted bytes or as a group. A packed field is one record.

Reading takes the records in order. A single value replaces an earlier one, a nested message is
merged into what is there, and a field of a choice unsets the others. A repeated field takes a
packed run as well as one record for each value. Records of no field are passed over.

* `records`, `encode`: the bytes of a message.
* `absorb`, `decode`: the message of bytes.
* `put`: a field of a choice in place of its siblings.

Out of scope: unknown fields, and maps as maps: their entries stay messages.
-/

namespace RowStream.Message

open Pool (Kind Field)
open Wire (Payload Record)

/-! ## Writing -/

/-- A signed integer folded so that small absolute values give small numbers. -/
def zigzag (n : Int) : Nat :=
  if 0 ≤ n then 2 * n.toNat else 2 * (-n).toNat - 1

/-- What a scalar or enum value is written as in a field of a kind. -/
def scalarPayload (kind : Kind) : Value → Payload
  | .bool b => Wire.boolPayload b
  | .int32 n =>
    match kind with
    | .scalar .sint32 => .varint (UInt64.ofNat (zigzag n.toInt))
    | .scalar .sfixed32 => .fixed32 n.toUInt32
    | _ => Wire.int32Payload n
  | .int64 n =>
    match kind with
    | .scalar .sint64 => .varint (UInt64.ofNat (zigzag n.toInt))
    | .scalar .sfixed64 => .fixed64 n.toUInt64
    | _ => .varint n.toUInt64
  | .uint32 n =>
    match kind with
    | .scalar .fixed32 => .fixed32 n
    | _ => .varint n.toUInt64
  | .uint64 n =>
    match kind with
    | .scalar .fixed64 => .fixed64 n
    | _ => .varint n
  | .float x => .fixed32 x.bits
  | .double x => .fixed64 x.bits
  | .string s => Wire.textPayload s
  | .bytes b => .bytes b
  | .enum n => Wire.int32Payload n
  | .message _ | .list _ => .bytes []

/-- The bytes of a value inside a packed run. -/
def packedBytes (kind : Kind) (v : Value) : List UInt8 :=
  match scalarPayload kind v with
  | .varint n => Wire.encodeVarint n.toNat
  | .fixed64 n => Wire.littleEndian 8 n.toNat
  | .fixed32 n => Wire.littleEndian 4 n.toNat
  | .bytes _ | .group _ => []

mutual

/-- What one value is written as in a field of a kind. -/
def payload (p : Pool) (kind : Kind) : Value → Payload
  | .message fields =>
    match kind with
    | .group name =>
      match p.find name with
      | some m => .group (records p m fields)
      | none => .group []
    | .message name =>
      match p.find name with
      | some m => .bytes (Wire.encodeRecords (records p m fields))
      | none => .bytes []
    | .scalar _ | .enum _ => .bytes []
  | v => scalarPayload kind v

/-- The records of the items of a list, one each. -/
def itemRecords (p : Pool) (f : Field) : List Value → List Record
  | [] => []
  | v :: vs => (f.number, payload p f.kind v) :: itemRecords p f vs

/-- The records of a field. -/
def fieldRecords (p : Pool) (f : Field) : Value → List Record
  | .list items =>
    if f.packed then [(f.number, .bytes (items.flatMap (packedBytes f.kind)))]
    else itemRecords p f items
  | v => [(f.number, payload p f.kind v)]

/-- The records of a message. -/
def records (p : Pool) (m : Pool.Message) : List (Nat × Value) → List Record
  | [] => []
  | (n, v) :: fields =>
    (match m.fieldWithNumber? n with
      | some f => fieldRecords p f v
      | none => []) ++ records p m fields

end

/-- The bytes of a message of a shape. -/
def encode (s : Shape) (fields : Fields) : List UInt8 :=
  Wire.encodeRecords (records s.pool s.message fields)

/-! ## Reading -/

/-- The signed integer that was folded into a number. -/
def unzigzag (n : Nat) : Int :=
  if n % 2 = 0 then (n / 2 : Nat) else -((n / 2 + 1 : Nat) : Int)

/-- The value that a varint is in a field of a kind; a 32-bit type keeps the low bits only. -/
def ofVarint (kind : Kind) (n : UInt64) : Option Value :=
  match kind with
  | .scalar .bool => some (.bool (n != 0))
  | .scalar .int32 => some (.int32 n.toUInt32.toInt32)
  | .scalar .int64 => some (.int64 n.toInt64)
  | .scalar .uint32 => some (.uint32 n.toUInt32)
  | .scalar .uint64 => some (.uint64 n)
  | .scalar .sint32 => some (.int32 (Int32.ofInt (unzigzag n.toUInt32.toNat)))
  | .scalar .sint64 => some (.int64 (Int64.ofInt (unzigzag n.toNat)))
  | .enum _ => some (.enum n.toUInt32.toInt32)
  | _ => none

/-- The value that four bytes are in a field of a kind. -/
def ofFixed32 (kind : Kind) (n : UInt32) : Option Value :=
  match kind with
  | .scalar .fixed32 => some (.uint32 n)
  | .scalar .sfixed32 => some (.int32 n.toInt32)
  | .scalar .float => some (.float ⟨n⟩)
  | _ => none

/-- The value that eight bytes are in a field of a kind. -/
def ofFixed64 (kind : Kind) (n : UInt64) : Option Value :=
  match kind with
  | .scalar .fixed64 => some (.uint64 n)
  | .scalar .sfixed64 => some (.int64 n.toInt64)
  | .scalar .double => some (.double ⟨n⟩)
  | _ => none

/-- The value that a run of bytes is in a field of a kind; a text must be UTF-8. -/
def ofBytes (kind : Kind) (b : List UInt8) : Option Value :=
  match kind with
  | .scalar .string => (Utf8.decode b).map .string
  | .scalar .bytes => some (.bytes b)
  | _ => none

/-- The value of a scalar or enum that a payload writes in a field of a kind. -/
def ofPayload (kind : Kind) : Payload → Option Value
  | .varint n => ofVarint kind n
  | .fixed32 n => ofFixed32 kind n
  | .fixed64 n => ofFixed64 kind n
  | .bytes b => ofBytes kind b
  | .group _ => none

/-- The shape of payload that the values of a kind have. -/
def payloadShape (kind : Kind) : Nat :=
  match kind with
  | .scalar .fixed64 | .scalar .sfixed64 | .scalar .double => 1
  | .scalar .fixed32 | .scalar .sfixed32 | .scalar .float => 5
  | .scalar .string | .scalar .bytes | .message _ => 2
  | .group _ => 3
  | .scalar _ | .enum _ => 0

/-- The values of a packed run, of which there are not more than bytes. -/
def readPacked (kind : Kind) : Nat → List UInt8 → Option (List Value)
  | _, [] => some []
  | 0, _ :: _ => none
  | count + 1, b :: bytes => do
    let (p, rest) ← Wire.decodePlain (payloadShape kind) (b :: bytes)
    let v ← ofPayload kind p
    return v :: (← readPacked kind count rest)

/-- The values that one record adds to a repeated field of a scalar or enum type. -/
def itemsOf (kind : Kind) (payload : Payload) : Option (List Value) :=
  match ofPayload kind payload, payload with
  | some v, _ => some [v]
  | none, .bytes b => if kind.isPackable then readPacked kind b.length b else none
  | none, _ => none

/-- The records of a nested message of a kind. -/
def innerRecords (kind : Kind) (depth : Nat) : Payload → Option (List Record)
  | .bytes b =>
    match kind with
    | .message _ => Wire.decodeRecords depth b
    | _ => none
  | .group rs =>
    match kind with
    | .group _ => some rs
    | _ => none
  | _ => none

/-- The list that a repeated field holds. -/
def listAt (fields : Fields) (f : Field) : List Value :=
  match fields.get? f.number with
  | some (.list items) => items
  | _ => []

/-- The message that a field holds. -/
def messageAt (fields : Fields) (f : Field) : Fields :=
  match fields.get? f.number with
  | some (.message inner) => inner
  | _ => []

/-- Sets a field; setting one field of a choice unsets the others. -/
def put (m : Pool.Message) (f : Field) (v : Value) (fields : Fields) : Fields :=
  ((m.siblings f).foldl Fields.erase fields).set f.number v

/-- Takes one record. -/
def absorb (p : Pool) (depth : Nat) (m : Pool.Message) (fields : Fields) (r : Record) :
    Option Fields :=
  match m.fieldWithNumber? r.1 with
  | none => some fields
  | some f =>
    match f.kind.message? with
    | none =>
      if f.isRepeated then
        (itemsOf f.kind r.2).map fun vs => put m f (.list (listAt fields f ++ vs)) fields
      else (ofPayload f.kind r.2).map fun v => put m f v fields
    | some name =>
      match depth, p.find name with
      | depth + 1, some inner => do
        let rs ← innerRecords f.kind depth r.2
        if f.isRepeated then
          let v ← rs.foldlM (absorb p depth inner) []
          return put m f (.list (listAt fields f ++ [.message v])) fields
        else
          let v ← rs.foldlM (absorb p depth inner) (messageAt fields f)
          return put m f (.message v) fields
      | _, _ => none

/-- The message of a shape that bytes write. -/
def decode (s : Shape) (bytes : List UInt8) : Option Fields := do
  let rs ← Wire.decodeRecords Wire.maxDepth bytes
  rs.foldlM (absorb s.pool Wire.maxDepth s.message) []

end RowStream.Message
