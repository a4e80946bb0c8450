/-!
# Blank characters

The characters with the Unicode property White_Space, and trimming by them.

* `isBlank`: the characters.
* `trim`: a text without those around it.
-/

namespace RowStream.Text

/-- White_Space: the controls U+0009 to U+000D and U+0085, the spaces and the two separators. -/
def isBlank (c : Char) : Bool :=
  let n := c.toNat
  (9 ≤ n && n ≤ 13) || n == 0x20 || n == 0x85 || n == 0xA0 || n == 0x1680 ||
    (0x2000 ≤ n && n ≤ 0x200A) || n == 0x2028 || n == 0x2029 || n == 0x202F || n == 0x205F ||
    n == 0x3000

/-- A list of characters without the blanks at either end. -/
def trimList (cs : List Char) : List Char :=
  ((cs.dropWhile isBlank).reverse.dropWhile isBlank).reverse

/-- A text without the blanks at either end. -/
def trim (s : String) : String :=
  String.ofList (trimList s.toList)

end RowStream.Text
