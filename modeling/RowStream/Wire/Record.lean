import RowStream.Wire.Varint

/-!
# Records

The bytes of a message are a sequence of records: a field number and a payload. A payload is a
number of variable length, of four or of eight bytes, a counted run of bytes, or a group: the
records up to an end mark with the same number.

* `encodeRecords`, `decodeRecords`: the bytes of records, and back.
-/

namespace RowStream.Wire

/-- What a record carries. -/
inductive Payload where
  | varint (n : UInt64)
  | fixed64 (n : UInt64)
  | bytes (b : List UInt8)
  | group (records : List (Nat × Payload))
  | fixed32 (n : UInt32)
deriving Repr, Inhabited

/-- A field number and its payload. -/
abbrev Record := Nat × Payload

/-- The `count` bytes of a number, lowest first. -/
def littleEndian : Nat → Nat → List UInt8
  | 0, _ => []
  | count + 1, n => UInt8.ofNat (n % 256) :: littleEndian count (n / 256)

/-- The number that bytes write, lowest first. -/
def ofLittleEndian : List UInt8 → Nat
  | [] => 0
  | b :: r => b.toNat + 256 * ofLittleEndian r

/-- The key of a record: its number and the shape of its payload. -/
def encodeKey (number shape : Nat) : List UInt8 :=
  encodeVarint (number * 8 + shape)

mutual

/-- The bytes of a record. -/
def encodeRecord (number : Nat) : Payload → List UInt8
  | .varint n => encodeKey number 0 ++ encodeVarint n.toNat
  | .fixed64 n => encodeKey number 1 ++ littleEndian 8 n.toNat
  | .bytes b => encodeKey number 2 ++ (encodeVarint b.length ++ b)
  | .group rs => encodeKey number 3 ++ (encodeRecords rs ++ encodeKey number 4)
  | .fixed32 n => encodeKey number 5 ++ littleEndian 4 n.toNat

/-- The bytes of a sequence of records. -/
def encodeRecords : List (Nat × Payload) → List UInt8
  | [] => []
  | (number, p) :: rs => encodeRecord number p ++ encodeRecords rs

end

/-- The first `count` bytes and the rest, when there are so many. -/
def splitBytes (count : Nat) (bytes : List UInt8) : Option (List UInt8 × List UInt8) :=
  if count ≤ bytes.length then some (bytes.take count, bytes.drop count) else none

/-- Number and shape of the key at the start of the bytes, and the bytes after it. Keys have at
most 32 bits and no number is zero. -/
def decodeKey (bytes : List UInt8) : Option (Nat × Nat × List UInt8) :=
  match decodeVarint bytes with
  | some (key, rest) =>
    if key < twoTo 32 ∧ 8 ≤ key then some (key / 8, key % 8, rest) else none
  | none => none

/-- The payload of a shape that is no group. -/
def decodePlain (shape : Nat) (bytes : List UInt8) : Option (Payload × List UInt8) :=
  match shape with
  | 0 => (decodeVarint bytes).map fun (n, r) => (.varint (UInt64.ofNat n), r)
  | 1 => (splitBytes 8 bytes).map fun (b, r) => (.fixed64 (UInt64.ofNat (ofLittleEndian b)), r)
  | 2 =>
    match decodeVarint bytes with
    | some (count, r) => (splitBytes count r).map fun (b, r) => (.bytes b, r)
    | none => none
  | 5 => (splitBytes 4 bytes).map fun (b, r) => (.fixed32 (UInt32.ofNat (ofLittleEndian b)), r)
  | _ => none

/-- The shape that the payload of a record is read in: outside of groups, the payloads of the
`counted` numbers are runs of bytes, whatever their keys say. -/
def shapeOf (counted : Nat → Bool) (close : Option Nat) (number shape : Nat) : Nat :=
  if close.isNone && counted number && shape ≤ 5 then 2 else shape

/-- Records up to the end of the bytes or, inside a group, to the end mark with the number
`close`; and the bytes after them. Groups nest at most `depth` deep, and the last of them holds no
records. The second argument bounds the number of records, of which no sequence has more than
bytes. -/
def readRecords (counted : Nat → Bool) :
    Nat → Nat → Option Nat → List UInt8 → Option (List Record × List UInt8)
  | _, _, none, [] => some ([], [])
  | _, _, some _, [] => none
  | 0, _, _, _ :: _ => none
  | count + 1, depth, close, b :: bytes =>
    match decodeKey (b :: bytes) with
    | none => none
    | some (number, keyed, rest) =>
      let shape := shapeOf counted close number keyed
      if shape = 4 then if close = some number then some ([], rest) else none
      else if close.isSome ∧ depth = 0 then none
      else
        let payload :=
          if shape = 3 then
            match depth with
            | 0 => none
            | depth + 1 =>
              (readRecords counted count depth (some number) rest).map fun (rs, r) => (.group rs, r)
          else decodePlain shape rest
        match payload with
        | none => none
        | some (p, rest) =>
          (readRecords counted count depth close rest).map fun (rs, r) => ((number, p) :: rs, r)

/-- The records of a byte sequence; groups nest at most `depth` deep, and the payloads of the
`counted` numbers are runs of bytes. -/
def decodeRecords (depth : Nat) (bytes : List UInt8) (counted : Nat → Bool := fun _ => false) :
    Option (List Record) :=
  (readRecords counted bytes.length depth none bytes).map (·.1)

end RowStream.Wire
