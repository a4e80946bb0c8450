import RowStream.Text.Hex

/-!
# Escaped bytes

Bytes written as text: a backslash starts an escape, which is one of the letters for a control
character, a backslash, a quote or a question mark, one to three octal digits, or `x` and two
hexadecimal digits. Every other character stands for its UTF-8 bytes.

* `read`: the bytes that a text writes.
* `step`: one character.
-/

namespace RowStream.Escape

/-- The byte of a letter escape. -/
def letter? (c : Char) : Option UInt8 :=
  match c with
  | 'a' => some 0x07
  | 'b' => some 0x08
  | 'f' => some 0x0C
  | 'n' => some 0x0A
  | 'r' => some 0x0D
  | 't' => some 0x09
  | 'v' => some 0x0B
  | '\\' => some 0x5C
  | '?' => some 0x3F
  | '\'' => some 0x27
  | '"' => some 0x22
  | _ => none

/-- The value of an octal digit. -/
def octal? (c : Char) : Option Nat :=
  if '0' ≤ c ∧ c ≤ '7' then some (c.toNat - '0'.toNat) else none

/-- Where the reader stands: outside an escape, after a backslash, after some octal digits, or
after `x` and perhaps one digit. -/
inductive State where
  | plain
  | slash
  | octal (count n : Nat)
  | hex
  | hexDigit (n : Nat)
deriving Repr, DecidableEq

/-- Takes one character outside an escape or after a backslash: the bytes it gives and the next
state. -/
def start (slash : Bool) (c : Char) : Option (List UInt8 × State) :=
  if slash then
    match octal? c with
    | some d => some ([], .octal 1 d)
    | none =>
      if c = 'x' ∨ c = 'X' then some ([], .hex)
      else (letter? c).map fun b => ([b], .plain)
  else if c = '\\' then some ([], .slash)
  else some (String.utf8EncodeChar c, .plain)

/-- Takes one character. -/
def step (state : State) (c : Char) : Option (List UInt8 × State) :=
  match state with
  | .plain => start false c
  | .slash => start true c
  | .octal count n =>
    match octal? c with
    | some d =>
      if count = 1 then some ([], .octal 2 (n * 8 + d))
      else some ([UInt8.ofNat (n * 8 + d)], .plain)
    | none => (start false c).map fun (b, s) => (UInt8.ofNat n :: b, s)
  | .hex => (Hex.digit? c).map fun d => ([], .hexDigit d)
  | .hexDigit n => (Hex.digit? c).map fun d => ([UInt8.ofNat (n * 16 + d)], .plain)

/-- The bytes of the characters that follow a state. -/
def readFrom : State → List Char → Option (List UInt8)
  | .plain, [] => some []
  | .octal _ n, [] => some [UInt8.ofNat n]
  | .slash, [] | .hex, [] | .hexDigit _, [] => none
  | state, c :: cs =>
    match step state c with
    | some (bytes, state) => (readFrom state cs).map (bytes ++ ·)
    | none => none

/-- The bytes that a text writes. -/
def read (s : String) : Option (List UInt8) :=
  readFrom .plain s.toList

end RowStream.Escape
