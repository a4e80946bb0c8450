/-!
# Powers of two and of ten

* `twoTo`, `tenTo`: powers by shifts and by products.
-/

namespace RowStream

/-- `2 ^ n`. -/
def twoTo (n : Nat) : Nat := Nat.pow 2 n

/-- `10 ^ n`. -/
def tenTo (n : Nat) : Nat := Nat.pow 10 n

end RowStream
