import RowStream.Json.Basic
import RowStream.Json.Error
import RowStream.Number.Decimal

/-!
# JSON numbers

A number without fraction and exponent that fits 64 bits is an integer; `-0` and everything else is
a double. The double is worked out from the leading digits that fit 64 bits: they are rounded to a
double, and that is multiplied or divided by the double of a power of ten.

* `readNumber`: a number at the start of a text.
* `Digits.toDouble`: the double of digits and an exponent.

Out of scope: numbers of any precision; the double is what the fast conversion gives, which need not
be the nearest.
-/

namespace RowStream.Json

open Integer (digit?)

/-- Why reading stops: the reason, and the characters from the fault on, of which the first
`bytes` bytes belong to the faulty part. -/
structure Fault where
  reason : Reason
  rest : List Char
  bytes : Nat
deriving Repr, DecidableEq

/-- The character is a decimal digit. -/
def isDigit (c : Char) : Bool := (digit? c).isSome

/-- The characters after the digits at the start. -/
def dropDigits (cs : List Char) : List Char := cs.dropWhile isDigit

/-- A zero stands in front of a further digit. -/
def leadsWithZero : List Char → Bool
  | '0' :: c :: _ => isDigit c
  | _ => false

/-- A fault just before `rest`. -/
def failBefore {α : Type} (reason : Reason) (rest : List Char) : Except Fault α :=
  .error ⟨reason, rest, 0⟩

/-- A fault in the first byte of `rest`. -/
def failAt {α : Type} (reason : Reason) (rest : List Char) : Except Fault α :=
  .error ⟨reason, rest, 1⟩

/-- The largest integer of 64 bits. -/
def maxNat64 : Nat := 18446744073709551615

/-- The leading digits of a number so far: as many as fit 64 bits, and the power of ten that the
rest and the point amount to. -/
structure Digits where
  significand : Nat
  exponent : Int
deriving Repr, DecidableEq

/-- The double of a power of ten. -/
def powerOfTen (n : Nat) : Double := Double.ofQuotient false (tenTo n) 1

/-- `x * 10 ^ e`, in steps of at most `10 ^ 308`. -/
def scaleSteps : Nat → Double → Int → Option Double
  | 0, x, _ => some x
  | n + 1, x, e =>
    if e.natAbs ≤ 308 then
      if 0 ≤ e then
        let y := x.mul (powerOfTen e.natAbs)
        if y.isInfinite then none else some y
      else some (x.div (powerOfTen e.natAbs))
    else if x.isZero then some x
    else if 0 ≤ e then none
    else scaleSteps n (x.div (powerOfTen 308)) (e + 308)

/-- The double of the digits, `none` past the largest one. -/
def Digits.toDouble (negative : Bool) (d : Digits) : Option Double :=
  (scaleSteps (d.exponent.natAbs / 308 + 1) (Double.ofInt d.significand) d.exponent).map fun x =>
    Double.ofMagnitude negative x.magnitude

/-- The number of the digits, once all of them are read. -/
def finish (negative : Bool) (d : Digits) (rest : List Char) : Except Fault (Number × List Char) :=
  match d.toDouble negative with
  | some x => .ok (.real x, rest)
  | none => failBefore .numberOutOfRange rest

/-- The largest exponent that is read. -/
def maxExponent : Nat := 2147483647

/-- The digits of an exponent, and what follows them; or what follows the digit with which it grows
past the largest that is read. -/
def exponentDigits : Nat → List Char → Except (List Char) (Nat × List Char)
  | n, [] => .ok (n, [])
  | n, c :: cs =>
    match digit? c with
    | none => .ok (n, c :: cs)
    | some d =>
      if n * 10 + d ≤ maxExponent then exponentDigits (n * 10 + d) cs else .error cs

/-- An exponent, after its letter. One that is too large is out of range as soon as that is seen,
unless it makes the number zero. -/
def readExponent (negative : Bool) (d : Digits) (cs : List Char) :
    Except Fault (Number × List Char) :=
  let (down, cs) :=
    match cs with
    | '+' :: cs => (false, cs)
    | '-' :: cs => (true, cs)
    | cs => (false, cs)
  match cs with
  | [] => failBefore .endInValue []
  | c :: rest =>
    match digit? c with
    | none => failAt .badNumber (c :: rest)
    | some n =>
      match exponentDigits n rest with
      | .ok (e, rest) =>
        finish negative { d with exponent := if down then d.exponent - e else d.exponent + e } rest
      | .error rest =>
        if d.significand ≠ 0 ∧ !down then failBefore .numberOutOfRange rest
        else .ok (.real (Double.ofMagnitude negative 0), dropDigits rest)

/-- Digits after the point. -/
def fractionDigits : Digits → Bool → List Char → Digits × List Char
  | d, _, [] => (d, [])
  | d, full, c :: cs =>
    match digit? c with
    | none => (d, c :: cs)
    | some n =>
      if full || maxNat64 < d.significand * 10 + n then fractionDigits d true cs
      else fractionDigits ⟨d.significand * 10 + n, d.exponent - 1⟩ false cs

/-- A fraction, after its point. -/
def readFraction (negative : Bool) (d : Digits) (cs : List Char) :
    Except Fault (Number × List Char) :=
  match cs with
  | [] => failAt .endInValue []
  | c :: _ =>
    match digit? c with
    | none => failAt .badNumber cs
    | some _ =>
      match fractionDigits d false cs with
      | (d, c :: rest) =>
        if c = 'e' ∨ c = 'E' then readExponent negative d rest else finish negative d (c :: rest)
      | (d, []) => finish negative d []

/-- Digits before the point: once they exceed 64 bits the further ones only count. -/
def wholeDigits : Digits → Bool → List Char → (Digits × Bool) × List Char
  | d, full, [] => ((d, full), [])
  | d, full, c :: cs =>
    match digit? c with
    | none => ((d, full), c :: cs)
    | some n =>
      if full || maxNat64 < d.significand * 10 + n then
        wholeDigits { d with exponent := d.exponent + 1 } true cs
      else wholeDigits { d with significand := d.significand * 10 + n } false cs

/-- The number without fraction and exponent. -/
def readWhole (negative : Bool) (d : Digits) (full : Bool) (rest : List Char) :
    Except Fault (Number × List Char) :=
  if full then finish negative d rest
  else if !negative then .ok (.int d.significand, rest)
  else if d.significand = 0 ∨ 9223372036854775808 < d.significand then
    .ok (.real (Double.ofMagnitude true (Double.ofInt d.significand).magnitude), rest)
  else .ok (.int (-(d.significand : Int)), rest)

/-- A number, after its minus sign. -/
def readNumber (negative : Bool) (cs : List Char) : Except Fault (Number × List Char) :=
  match cs with
  | [] => failBefore .endInValue []
  | c :: rest =>
    match digit? c with
    | none => failAt .badNumber (c :: rest)
    | some n =>
      if leadsWithZero cs then failAt .badNumber rest
      else
        let ((d, full), rest) := wholeDigits ⟨n, 0⟩ false rest
        match rest with
        | '.' :: rest => readFraction negative d rest
        | c :: rest' =>
          if c = 'e' ∨ c = 'E' then readExponent negative d rest'
          else readWhole negative d full rest
        | [] => readWhole negative d full []

end RowStream.Json
