import RowStream.Number.Binary
import RowStream.Number.Integer

/-!
# Shortest decimal text of a double

The digits are the fewest that read back as the same double; among those the nearest to its value,
and of two equally near the greater. They are written out in full: never with an exponent, and a
whole number without a point.

* `interval`: the numbers that read back as a double.
* `digits`: the digits and the exponent.
* `text`: the text.

Out of scope: the form with an exponent.
-/

namespace RowStream.Shortest

open Binary

/-- The reals that round to a finite positive double, doubled twice so that the halfway points are
integers: `4 m - below` to `4 m + 2` in units of `2 ^ (e - 2)`, ends included when `m` is even. -/
structure Interval where
  low : Nat
  value : Nat
  high : Nat
  ends : Bool
deriving Repr, DecidableEq

/-- The interval of the double `m * 2 ^ e`. Below a power of two the next double is half as far
away, unless the numbers are the smallest of all. -/
def interval (m : Nat) (e : Int) : Interval :=
  let below := if m = twoTo 52 ∧ e ≠ double.least then 1 else 2
  ⟨4 * m - below, 4 * m, 4 * m + 2, m % 2 = 0⟩

/-- The point `d` of a grid lies in the interval, where a unit of the interval is `u` and a step
of the grid is `g`. -/
def Interval.has (i : Interval) (u g d : Nat) : Bool :=
  if i.ends then decide (i.low * u ≤ d * g) && decide (d * g ≤ i.high * u)
  else decide (i.low * u < d * g) && decide (d * g < i.high * u)

/-- The point of the grid nearest to the value, if one of its two neighbours on the grid lies in
the interval. -/
def Interval.nearest? (i : Interval) (u g : Nat) : Option Nat :=
  let d := i.value * u / g
  match i.has u g d, i.has u g (d + 1) with
  | false, false => none
  | true, false => some d
  | false, true => some (d + 1)
  | true, true => if 2 * (i.value * u) < (2 * d + 1) * g then some d else some (d + 1)

/-- The units of the interval and of the grid `10 ^ k`, over a common denominator. -/
def units (e k : Int) : Nat × Nat :=
  (twoTo (e - 2).toNat * tenTo (-k).toNat, tenTo k.toNat * twoTo (2 - e).toNat)

/-- The grids `10 ^ k` from `k` downwards, the first with a point in the interval. -/
def search (i : Interval) (e : Int) : Nat → Int → Nat × Int
  | 0, k => (0, k)
  | n + 1, k =>
    let (u, g) := units e k
    match i.nearest? u g with
    | some d => (d, k)
    | none => search i e n (k - 1)

/-- The exponent of ten just above the double `m * 2 ^ e`. -/
def above (m : Nat) (e : Int) : Int :=
  let (n, d) := quotient m e
  ((Nat.toDigits 10 (n / d)).length : Int) - (if n < d then (Nat.toDigits 10 (d / n)).length else 0)

/-- The shortest decimal `d * 10 ^ k` of a finite double that is not zero. -/
def digits (x : Double) : Nat × Int :=
  let (m, e) := x.value
  search (interval m e) e 400 (above m e)

/-- `d * 10 ^ k` written out in full. -/
def positional (d : Nat) (k : Int) : List Char :=
  let ds := Nat.toDigits 10 d
  if 0 ≤ k then ds ++ List.replicate k.toNat '0'
  else
    let places := (-k).toNat
    if places < ds.length then
      ds.take (ds.length - places) ++ '.' :: ds.drop (ds.length - places)
    else '0' :: '.' :: (List.replicate (places - ds.length) '0' ++ ds)

/-- The decimal without zeros at its end. -/
def strip : Nat → Nat → Int → Nat × Int
  | 0, d, k => (d, k)
  | n + 1, d, k => if d % 10 = 0 then strip n (d / 10) (k + 1) else (d, k)

/-- The text of a double. -/
def text (x : Double) : String :=
  if x.isNan then "NaN"
  else
    let sign := if x.isNegative then "-" else ""
    if x.isInfinite then sign ++ "inf"
    else if x.isZero then sign ++ "0"
    else
      let (d, k) := digits x
      let (d, k) := strip 20 d k
      sign ++ String.ofList (positional d k)

end RowStream.Shortest
