import RowStream.Number.Power

/-!
# Variable-length integers

A number in groups of seven bits, lowest first, one group a byte; every byte but the last has its
high bit set. Reading takes at most ten bytes and a value of at most 64 bits.

* `encodeVarint`, `decodeVarint`: the bytes of a number, and back.
-/

namespace RowStream.Wire

/-- The bytes of a number. -/
def encodeVarint (n : Nat) : List UInt8 :=
  if n < 128 then [UInt8.ofNat n] else UInt8.ofNat (n % 128 + 128) :: encodeVarint (n / 128)
termination_by n
decreasing_by omega

/-- The number at the start of the bytes, in at most `count` bytes, and the bytes after it. -/
def readVarint : Nat → List UInt8 → Option (Nat × List UInt8)
  | 0, _ => none
  | _ + 1, [] => none
  | count + 1, b :: r =>
    if b < 128 then some (b.toNat, r)
    else
      match readVarint count r with
      | some (n, r) => some (b.toNat - 128 + 128 * n, r)
      | none => none

/-- The number of at most 64 bits at the start of the bytes, and the bytes after it. -/
def decodeVarint (bytes : List UInt8) : Option (Nat × List UInt8) :=
  match readVarint 10 bytes with
  | some (n, r) => if n < twoTo 64 then some (n, r) else none
  | none => none

end RowStream.Wire
