import RowStream.Number.Power

/-!
# Binary floating-point numbers

Numbers of the 64-bit and 32-bit interchange formats, as their bits. A finite number is
`m * 2 ^ e` with a bounded `m`; every operation here takes the exact value first and rounds once,
to the nearest number of the format and to the even one of two equally near.

* `Format.round`: the number nearest to a quotient.
* `Double.ofInt`, `Double.mul`, `Double.div`: the operations in use.
* `Single.ofInt`, `Single.ofDouble`: the shorter format.

Out of scope: addition, roots, rounding in other directions and the flags of exceptions.
-/

namespace RowStream

/-- A number of the 64-bit format. -/
structure Double where
  bits : UInt64
deriving Repr, DecidableEq, Inhabited

/-- A number of the 32-bit format. -/
structure Single where
  bits : UInt32
deriving Repr, DecidableEq, Inhabited

namespace Binary

/-- A format: how many bits the fraction has, the exponent of its last place for the smallest
numbers, and the bits of infinity. -/
structure Format where
  fraction : Nat
  least : Int
  infinity : Nat
deriving Repr, DecidableEq

/-- The format of 64 bits. -/
def double : Format := ⟨52, -1074, 0x7FF0000000000000⟩

/-- The format of 32 bits. -/
def single : Format := ⟨23, -149, 0x7F800000⟩

/-- `n / d` rounded to the nearest integer, a half to the even neighbour. -/
def roundQuotient (n d : Nat) : Nat :=
  let q := n / d
  let r := n % d
  if 2 * r < d then q
  else if d < 2 * r then q + 1
  else if q % 2 = 0 then q else q + 1

/-- `n / d * 2 ^ (-e)` rounded to the nearest integer. -/
def roundScaled (n d : Nat) (e : Int) : Nat :=
  if 0 ≤ e then roundQuotient n (d * twoTo e.toNat) else roundQuotient (n * twoTo (-e).toNat) d

/-- The exponent of the leading bit of `n / d`. -/
def leading (n d : Nat) : Int :=
  let k : Int := (n.log2 : Int) - (d.log2 : Int)
  let below := if 0 ≤ k then decide (n < d * twoTo k.toNat) else decide (n * twoTo (-k).toNat < d)
  if below then k - 1 else k

/-- The bits of the number nearest to `n / d`; past the largest number, those of infinity. -/
def Format.round (f : Format) (n d : Nat) : Nat :=
  if n = 0 then 0
  else
    let e := max (leading n d - f.fraction) f.least
    min ((e - f.least).toNat * twoTo f.fraction + roundScaled n d e) f.infinity

/-- The value `m * 2 ^ e` of the bits of a finite number without its sign. -/
def Format.value (f : Format) (bits : Nat) : Nat × Int :=
  let exponent := bits / twoTo f.fraction
  let fraction := bits % twoTo f.fraction
  if exponent = 0 then (fraction, f.least)
  else (fraction + twoTo f.fraction, (exponent - 1 : Nat) + f.least)

/-- The quotient of two integers that `m * 2 ^ e` is. -/
def quotient (m : Nat) (e : Int) : Nat × Nat :=
  if 0 ≤ e then (m * twoTo e.toNat, 1) else (m, twoTo (-e).toNat)

end Binary

namespace Double

open Binary

/-- The bits without the sign. -/
def magnitude (x : Double) : Nat := x.bits.toNat % twoTo 63

/-- The sign bit is set, for a zero and for what is no number as well. -/
def isNegative (x : Double) : Bool := decide (twoTo 63 ≤ x.bits.toNat)

/-- The bits stand for no number: they lie past those of infinity. -/
def isNan (x : Double) : Bool := decide (double.infinity < x.magnitude)

/-- The value is infinite, with either sign. -/
def isInfinite (x : Double) : Bool := decide (x.magnitude = double.infinity)

/-- The value is one of the two zeros. -/
def isZero (x : Double) : Bool := decide (x.magnitude = 0)

/-- The double with a sign and the other bits. -/
def ofMagnitude (negative : Bool) (m : Nat) : Double :=
  ⟨UInt64.ofNat (if negative then m + twoTo 63 else m)⟩

/-- The quiet value that is no number, with an empty payload. -/
def nan (negative : Bool) : Double := ofMagnitude negative 0x7FF8000000000000

/-- The infinite value with a sign. -/
def infinity (negative : Bool) : Double := ofMagnitude negative double.infinity

/-- The number nearest to the quotient `n / d`, with a sign. -/
def ofQuotient (negative : Bool) (n d : Nat) : Double :=
  ofMagnitude negative (double.round n d)

/-- The number nearest to an integer. -/
def ofInt (n : Int) : Double :=
  ofQuotient (decide (n < 0)) n.natAbs 1

/-- The value of a finite number without its sign, as `m * 2 ^ e`. -/
def value (x : Double) : Nat × Int :=
  double.value x.magnitude

/-- The number nearest to the product of two finite numbers. -/
def mul (x y : Double) : Double :=
  let (m, e) := x.value
  let (n, f) := y.value
  let (a, b) := quotient (m * n) (e + f)
  ofQuotient (x.isNegative != y.isNegative) a b

/-- The number nearest to the quotient of two finite numbers, the second not zero. -/
def div (x y : Double) : Double :=
  let (m, e) := x.value
  let (n, f) := y.value
  let (a, b) := quotient 1 (e - f)
  ofQuotient (x.isNegative != y.isNegative) (m * a) (n * b)

/-- Equality of the values: the two zeros are equal, and nothing equals a number that is none. -/
def sameValue (x y : Double) : Bool :=
  !x.isNan && !y.isNan && (x == y || (x.isZero && y.isZero))

end Double

namespace Single

open Binary

/-- The bits without the sign. -/
def magnitude (x : Single) : Nat := x.bits.toNat % twoTo 31

/-- The bits stand for no number: they lie past those of infinity. -/
def isNan (x : Single) : Bool := decide (single.infinity < x.magnitude)

/-- The value is one of the two zeros. -/
def isZero (x : Single) : Bool := decide (x.magnitude = 0)

/-- The single with a sign and the other bits. -/
def ofMagnitude (negative : Bool) (m : Nat) : Single :=
  ⟨UInt32.ofNat (if negative then m + twoTo 31 else m)⟩

/-- The number nearest to the quotient `n / d`, with a sign. -/
def ofQuotient (negative : Bool) (n d : Nat) : Single :=
  ofMagnitude negative (single.round n d)

/-- The number nearest to an integer. -/
def ofInt (n : Int) : Single :=
  ofQuotient (decide (n < 0)) n.natAbs 1

/-- The number of the shorter format nearest to `x`. What is no number stays none and keeps the
leading bits of its payload. -/
def ofDouble (x : Double) : Single :=
  if x.isNan then
    ofMagnitude x.isNegative (0x7FC00000 + x.magnitude / twoTo 29 % twoTo 22)
  else if x.isInfinite then ofMagnitude x.isNegative single.infinity
  else
    let (m, e) := x.value
    let (n, d) := quotient m e
    ofQuotient x.isNegative n d

/-- Equality of the values: the two zeros are equal, and nothing equals a number that is none. -/
def sameValue (x y : Single) : Bool :=
  !x.isNan && !y.isNan && (x == y || (x.isZero && y.isZero))

end Single

end RowStream
