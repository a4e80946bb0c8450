/-!
# Integers as decimal text

A text reads as an integer of a range when it is one optional sign and at least one of the digits
0 to 9, and nothing else; the minus sign belongs to ranges that reach below zero. The digits are
taken from the left, so of two faults the one further left is reported.

* `read`: the integer of a range that a text writes.
* `readInt64`: the one of 64 bits.
* `text`: the digits of an integer.

Out of scope: other bases.
-/

namespace RowStream.Integer

/-- A range of integers. -/
structure Range where
  least : Int
  greatest : Int
deriving Repr, DecidableEq

/-- The integers of 32 bits. -/
def Range.int32 : Range := ⟨-2147483648, 2147483647⟩

/-- The integers of 64 bits. -/
def Range.int64 : Range := ⟨-9223372036854775808, 9223372036854775807⟩

/-- The counts of 32 bits. -/
def Range.nat32 : Range := ⟨0, 4294967295⟩

/-- The counts of 64 bits. -/
def Range.nat64 : Range := ⟨0, 18446744073709551615⟩

/-- The integer lies in the range. -/
def Range.has (r : Range) (n : Int) : Bool :=
  decide (r.least ≤ n) && decide (n ≤ r.greatest)

/-- Why a text is no integer of the range. -/
inductive Fault where
  | empty
  | badDigit
  | tooLarge
  | tooSmall
deriving Repr, DecidableEq

/-- What is said of the text. -/
def Fault.message : Fault → String
  | .empty => "cannot parse integer from empty string"
  | .badDigit => "invalid digit found in string"
  | .tooLarge => "number too large to fit in target type"
  | .tooSmall => "number too small to fit in target type"

/-- The value of a decimal digit. -/
def digit? (c : Char) : Option Nat :=
  if '0' ≤ c ∧ c ≤ '9' then some (c.toNat - 48) else none

/-- Adds digits to the right of the positive number `n`. -/
def readUp (r : Range) (n : Int) : List Char → Except Fault Int
  | [] => .ok n
  | c :: cs =>
    match digit? c with
    | none => .error .badDigit
    | some d => if n * 10 + d ≤ r.greatest then readUp r (n * 10 + d) cs else .error .tooLarge

/-- Adds digits to the right of the negative number `n`. -/
def readDown (r : Range) (n : Int) : List Char → Except Fault Int
  | [] => .ok n
  | c :: cs =>
    match digit? c with
    | none => .error .badDigit
    | some d => if r.least ≤ n * 10 - d then readDown r (n * 10 - d) cs else .error .tooSmall

/-- The integer of the range that the characters write. -/
def readChars (r : Range) : List Char → Except Fault Int
  | [] => .error .empty
  | ['+'] => .error .badDigit
  | ['-'] => .error .badDigit
  | '+' :: cs => readUp r 0 cs
  | '-' :: cs => if r.least < 0 then readDown r 0 cs else .error .badDigit
  | cs => readUp r 0 cs

/-- The integer of the range that the text writes. -/
def read (r : Range) (s : String) : Except Fault Int :=
  readChars r s.toList

/-- The 64-bit integer that the text writes. -/
def readInt64 (s : String) : Option Int64 :=
  match read .int64 s with
  | .ok n => some (Int64.ofInt n)
  | .error _ => none

/-- The decimal digits of a count. -/
def natText (n : Nat) : String :=
  String.ofList (Nat.toDigits 10 n)

/-- The decimal text of an integer. -/
def text (n : Int) : String :=
  if n < 0 then "-" ++ natText n.natAbs else natText n.natAbs

end RowStream.Integer
