/-!
# Numbers with a least width

* `text`: the digits, with zeros in front up to the width.
-/

namespace RowStream.Padded

/-- The decimal digits of `n` with zeros in front up to `width` digits. -/
def text (width n : Nat) : String :=
  let ds := Nat.toDigits 10 n
  String.ofList (List.replicate (width - ds.length) '0' ++ ds)

end RowStream.Padded
