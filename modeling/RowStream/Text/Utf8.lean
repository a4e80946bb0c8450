/-!
# Text as bytes

A text is written as UTF-8: one to four bytes a character. Reading is strict: over-long forms,
surrogates, numbers past U+10FFFF and cut-off sequences are refused, so every byte sequence that
reads has exactly one text.

* `encode`, `decode`: the bytes of a text, and back.
-/

namespace RowStream.Utf8

/-- The bytes of a text. -/
def encode (s : String) : List UInt8 :=
  s.toList.flatMap String.utf8EncodeChar

/-- How many bytes the character starting with `b` takes; 0 when none starts so. -/
def width (b : UInt8) : Nat :=
  if b < 0x80 then 1
  else if b < 0xC2 then 0
  else if b < 0xE0 then 2
  else if b < 0xF0 then 3
  else if b < 0xF5 then 4
  else 0

/-- The six bits of a continuation byte. -/
def tail (b : UInt8) : Option Nat :=
  if 0x80 ≤ b ∧ b < 0xC0 then some (b.toNat - 0x80) else none

/-- The character with number `n`, when it takes at least the number `least` and exists. -/
def scalar (least n : Nat) : Option Char :=
  if h : least ≤ n ∧ n.isValidChar then some (Char.ofNatAux n h.2) else none

/-- The character of two bytes. -/
def two (a b : UInt8) : Option Char := do
  scalar 0x80 ((a.toNat - 0xC0) * 64 + (← tail b))

/-- The character of three bytes. -/
def three (a b c : UInt8) : Option Char := do
  scalar 0x800 (((a.toNat - 0xE0) * 64 + (← tail b)) * 64 + (← tail c))

/-- The character of four bytes. -/
def four (a b c d : UInt8) : Option Char := do
  scalar 0x10000 ((((a.toNat - 0xF0) * 64 + (← tail b)) * 64 + (← tail c)) * 64 + (← tail d))

/-- The characters of a byte sequence, `none` unless all of it reads. -/
def decodeChars : List UInt8 → Option (List Char)
  | [] => some []
  | a :: r =>
    match width a with
    | 1 => (decodeChars r).map (Char.ofNat a.toNat :: ·)
    | 2 =>
      match r with
      | b :: r => do return (← two a b) :: (← decodeChars r)
      | _ => none
    | 3 =>
      match r with
      | b :: c :: r => do return (← three a b c) :: (← decodeChars r)
      | _ => none
    | 4 =>
      match r with
      | b :: c :: d :: r => do return (← four a b c d) :: (← decodeChars r)
      | _ => none
    | _ => none

/-- The text of a byte sequence, `none` unless all of it reads. -/
def decode (bytes : List UInt8) : Option String :=
  (decodeChars bytes).map String.ofList

end RowStream.Utf8
