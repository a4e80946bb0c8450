/-!
# Base 64

Bytes as text in groups of four characters of the standard alphabet, the last group filled up
with `=`; and the reading of exactly these texts.

* `encode`, `decode`: the text of bytes, and back.

Out of scope: other alphabets, and texts without the filling.
-/

namespace RowStream.Base64

/-- The character of a six-bit number. -/
def digit (n : Nat) : Char :=
  if n < 26 then Char.ofNat (65 + n)
  else if n < 52 then Char.ofNat (97 + (n - 26))
  else if n < 62 then Char.ofNat (48 + (n - 52))
  else if n = 62 then '+'
  else '/'

/-- The characters of a byte sequence. -/
def encodeChars : List UInt8 → List Char
  | [] => []
  | [a] =>
    let n := a.toNat * 16
    [digit (n / 64), digit (n % 64), '=', '=']
  | [a, b] =>
    let n := (a.toNat * 256 + b.toNat) * 4
    [digit (n / 4096), digit (n / 64 % 64), digit (n % 64), '=']
  | a :: b :: c :: r =>
    let n := (a.toNat * 256 + b.toNat) * 256 + c.toNat
    digit (n / 262144) :: digit (n / 4096 % 64) :: digit (n / 64 % 64) :: digit (n % 64) ::
      encodeChars r

/-- The text of a byte sequence. -/
def encode (bytes : List UInt8) : String :=
  String.ofList (encodeChars bytes)

/-- The six-bit number of a character. -/
def digit? (c : Char) : Option Nat :=
  if 'A' ≤ c ∧ c ≤ 'Z' then some (c.toNat - 65)
  else if 'a' ≤ c ∧ c ≤ 'z' then some (c.toNat - 97 + 26)
  else if '0' ≤ c ∧ c ≤ '9' then some (c.toNat - 48 + 52)
  else if c = '+' then some 62
  else if c = '/' then some 63
  else none

/-- The byte that a last group of two characters writes; the bits left over are zero. -/
def lastOne (a b : Char) : Option (List UInt8) := do
  let n := (← digit? a) * 64 + (← digit? b)
  if n % 16 = 0 then some [UInt8.ofNat (n / 16)] else none

/-- The bytes that a last group of three characters writes; the bits left over are zero. -/
def lastTwo (a b c : Char) : Option (List UInt8) := do
  let n := ((← digit? a) * 64 + (← digit? b)) * 64 + (← digit? c)
  if n % 4 = 0 then some [UInt8.ofNat (n / 1024), UInt8.ofNat (n / 4 % 256)] else none

/-- The bytes that a full group writes. -/
def full (a b c d : Char) : Option (List UInt8) := do
  let n := (((← digit? a) * 64 + (← digit? b)) * 64 + (← digit? c)) * 64 + (← digit? d)
  some [UInt8.ofNat (n / 65536), UInt8.ofNat (n / 256 % 256), UInt8.ofNat (n % 256)]

/-- The bytes that characters write. -/
def decodeChars : List Char → Option (List UInt8)
  | [] => some []
  | [a, b, '=', '='] => lastOne a b
  | [a, b, c, '='] => lastTwo a b c
  | a :: b :: c :: d :: cs => do
    let bytes ← full a b c d
    return bytes ++ (← decodeChars cs)
  | _ => none

/-- The bytes that a text writes. -/
def decode (s : String) : Option (List UInt8) :=
  decodeChars s.toList

end RowStream.Base64
