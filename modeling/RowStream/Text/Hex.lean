/-!
# Hexadecimal text

The digits to base 16, and bytes as text with two digits each. Writing uses small letters; reading
takes letters of either case.

* `encode`, `decode`: the text of bytes, and back.
-/

namespace RowStream.Hex

/-- The value of a digit. -/
def digit? (c : Char) : Option Nat :=
  if '0' ≤ c ∧ c ≤ '9' then some (c.toNat - 48)
  else if 'a' ≤ c ∧ c ≤ 'f' then some (c.toNat - 87)
  else if 'A' ≤ c ∧ c ≤ 'F' then some (c.toNat - 55)
  else none

/-- The digit of a number below 16. -/
def digit (n : Nat) : Char :=
  if n < 10 then Char.ofNat (48 + n) else Char.ofNat (87 + n)

/-- The two digits of a byte. -/
def pair (b : UInt8) : List Char := [digit (b.toNat / 16), digit (b.toNat % 16)]

/-- The text of bytes, two digits each. -/
def encode (bytes : List UInt8) : String := String.ofList (bytes.flatMap pair)

/-- The bytes that pairs of digits write. -/
def decodeChars : List Char → Option (List UInt8)
  | [] => some []
  | [_] => none
  | a :: b :: cs =>
    match digit? a, digit? b with
    | some a, some b => (decodeChars cs).map (UInt8.ofNat (a * 16 + b) :: ·)
    | _, _ => none

/-- The bytes of a text, none where a digit is missing or is no digit. -/
def decode (s : String) : Option (List UInt8) := decodeChars s.toList

end RowStream.Hex
