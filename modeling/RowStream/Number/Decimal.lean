import RowStream.Number.Binary
import RowStream.Number.Integer
import RowStream.Text.Letter

/-!
# Decimal numbers as text

A decimal number is an optional sign and digits, at least one of them, with an optional point
anywhere and an optional exponent; or one of the words `inf`, `infinity` and `nan` in any letter
case. It reads as the nearest double.

* `parse`: the value that a text writes.
* `read`: the double nearest to it.
* `Value.toSingle`: the number of the shorter format nearest to it.
-/

namespace RowStream.Decimal

open Integer (digit?)

/-- The leading digits of a text, and what follows them. -/
def spanDigits : List Char → List Nat × List Char
  | [] => ([], [])
  | c :: cs =>
    match digit? c with
    | none => ([], c :: cs)
    | some d => let (ds, rest) := spanDigits cs; (d :: ds, rest)

/-- The number that a list of digits writes. -/
def ofDigits (ds : List Nat) : Nat :=
  ds.foldl (fun n d => n * 10 + d) 0

/-- The exponent at the end of a number; none at all is exponent 0. -/
def readExponent : List Char → Option Int
  | [] => some 0
  | c :: cs =>
    if c = 'e' ∨ c = 'E' then
      let (negative, cs) :=
        match cs with
        | '-' :: cs => (true, cs)
        | '+' :: cs => (false, cs)
        | cs => (false, cs)
      match spanDigits cs with
      | ([], _) => none
      | (ds, []) => some (if negative then -(ofDigits ds : Int) else ofDigits ds)
      | _ => none
    else none

/-- What a text writes: a decimal `m * 10 ^ e`, an infinity, or no number. -/
inductive Value where
  | finite (negative : Bool) (m : Nat) (e : Int)
  | infinity (negative : Bool)
  | nan (negative : Bool)
deriving Repr, DecidableEq

/-- The quotient of two integers that `m * 10 ^ e` is. Far outside the range of the formats the
power is not worked out: the quotient is one that rounds alike, to infinity or to zero. -/
def quotient (m : Nat) (e : Int) : Nat × Nat :=
  let size : Int := (Nat.toDigits 10 m).length
  if m = 0 then (0, 1)
  else if 400 < size + e then (tenTo 400, 1)
  else if size + e < -400 then (1, tenTo 400)
  else if 0 ≤ e then (m * tenTo e.toNat, 1)
  else (m, tenTo (-e).toNat)

/-- The double nearest to the value. -/
def Value.toDouble : Value → Double
  | .finite negative m e => let (n, d) := quotient m e; Double.ofQuotient negative n d
  | .infinity negative => Double.infinity negative
  | .nan negative => Double.nan negative

/-- The number of the shorter format nearest to the value. -/
def Value.toSingle : Value → Single
  | .finite negative m e => let (n, d) := quotient m e; Single.ofQuotient negative n d
  | .infinity negative => Single.ofDouble (Double.infinity negative)
  | .nan negative => Single.ofDouble (Double.nan negative)

/-- A number without its sign. -/
def parseUnsigned (negative : Bool) (cs : List Char) : Option Value :=
  let word := String.ofList (cs.map Text.lowerChar)
  if word = "inf" ∨ word = "infinity" then some (.infinity negative)
  else if word = "nan" then some (.nan negative)
  else
    let (whole, rest) := spanDigits cs
    let (part, rest) :=
      match rest with
      | '.' :: rest => spanDigits rest
      | rest => ([], rest)
    if whole.isEmpty && part.isEmpty then none
    else
      (readExponent rest).map fun e =>
        .finite negative (ofDigits (whole ++ part)) (e - part.length)

/-- The value that a text writes. -/
def parse (s : String) : Option Value :=
  match s.toList with
  | '-' :: cs => parseUnsigned true cs
  | '+' :: cs => parseUnsigned false cs
  | cs => parseUnsigned false cs

/-- The double that a text writes. -/
def read (s : String) : Option Double :=
  (parse s).map Value.toDouble

end RowStream.Decimal
