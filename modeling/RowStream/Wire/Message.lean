import RowStream.Number.Binary
import RowStream.Wire.Record
import RowStream.Text.Utf8

/-!
# Messages on the wire

A message type says which records a value is written as, and how a record changes a value. Members
that hold their default are not written. Reading starts from the empty message and takes the
records in order, so a later record of a single member replaces an earlier one, a nested message is
merged into what is there, and a record with a number the type does not know is passed over.
Messages nest at most 100 deep.

* `Message`: what a message type is.
* `encode`, `decode`: the bytes of a message, and back.
* `nested`: a message inside another.

Out of scope: unknown records as parts of a value; they are dropped.
-/

namespace RowStream.Wire

/-! ## Writing members -/

/-- A 64-bit integer, left out at zero. -/
def int64 (number : Nat) (n : Int64) : List Record :=
  if n = 0 then [] else [(number, .varint n.toUInt64)]

/-- A 32-bit integer, widened with its sign. -/
def int32Payload (n : Int32) : Payload := .varint n.toInt64.toUInt64

/-- A 32-bit integer, left out at zero. -/
def int32 (number : Nat) (n : Int32) : List Record :=
  if n = 0 then [] else [(number, int32Payload n)]

/-- A text, left out when empty. -/
def text (number : Nat) (s : String) : List Record :=
  if s = "" then [] else [(number, .bytes (Utf8.encode s))]

/-- Bytes, left out when there are none. -/
def bytes (number : Nat) (b : List UInt8) : List Record :=
  if b = [] then [] else [(number, .bytes b)]

/-- A truth value, as one or zero. -/
def boolPayload (b : Bool) : Payload := .varint (if b then 1 else 0)

/-- A member that is written whenever it is set. -/
def optional {α : Type} (number : Nat) (payload : α → Payload) : Option α → List Record
  | none => []
  | some a => [(number, payload a)]

/-- The members of a list, each in a record of its own. -/
def repeated {α : Type} (number : Nat) (payload : α → Payload) (as : List α) : List Record :=
  as.map fun a => (number, payload a)

/-- A text as the payload of a record. -/
def textPayload (s : String) : Payload := .bytes (Utf8.encode s)

/-! ## Reading members -/

namespace Payload

/-- The 64 bits of a varint, with a sign. -/
def int64? : Payload → Option Int64
  | .varint n => some n.toInt64
  | _ => none

/-- The 64 bits of a varint. -/
def nat64? : Payload → Option UInt64
  | .varint n => some n
  | _ => none

/-- The low 32 bits. -/
def int32? : Payload → Option Int32
  | .varint n => some n.toUInt32.toInt32
  | _ => none

/-- Any varint but zero is true. -/
def bool? : Payload → Option Bool
  | .varint n => some (n != 0)
  | _ => none

/-- The double whose bits the eight bytes are. -/
def double? : Payload → Option Double
  | .fixed64 n => some ⟨n⟩
  | _ => none

/-- A run of bytes. -/
def bytes? : Payload → Option (List UInt8)
  | .bytes b => some b
  | _ => none

/-- A run of bytes as a text, which must be UTF-8. -/
def text? : Payload → Option String
  | .bytes b => Utf8.decode b
  | _ => none

end Payload

/-! ## Message types -/

/-- How deep messages nest. -/
def maxDepth : Nat := 100

/-- A message type. `absorb` takes one record into a value; its first argument is how many levels
of messages may lie inside. The payloads of the `counted` numbers, those of maps, are read as runs
of bytes whatever their keys say. -/
class Message (α : Type) where
  empty : α
  records : α → List Record
  absorb : Nat → α → Record → Option α
  counted : Nat → Bool := fun _ => false

/-- What a record with an unknown number does: nothing, but below the last level even that is too
deep. -/
def unknown {α : Type} (depth : Nat) (a : α) : Option α :=
  if depth = 0 then none else some a

/-- Takes the records of a byte sequence in order. -/
def absorbAll {α : Type} (absorb : α → Record → Option α) (depth : Nat) (a : α)
    (bytes : List UInt8) (counted : Nat → Bool := fun _ => false) : Option α :=
  match decodeRecords depth bytes counted with
  | some rs => rs.foldlM absorb a
  | none => none

/-- Takes a nested message into what is already there. -/
def nested {α : Type} [Message α] (depth : Nat) (a : α) : Payload → Option α
  | .bytes b =>
    match depth with
    | 0 => none
    | depth + 1 => absorbAll (Message.absorb depth) depth a b (Message.counted α)
  | _ => none

/-- The bytes of a message. -/
def encode {α : Type} [Message α] (a : α) : List UInt8 :=
  encodeRecords (Message.records a)

/-- A message as the payload of a record. -/
def messagePayload {α : Type} [Message α] (a : α) : Payload := .bytes (encode a)

/-- The message that a byte sequence writes. -/
def decode {α : Type} [Message α] (bytes : List UInt8) : Option α :=
  absorbAll (Message.absorb maxDepth) maxDepth Message.empty bytes (Message.counted α)

end RowStream.Wire
