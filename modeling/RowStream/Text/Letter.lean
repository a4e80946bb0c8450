/-!
# Letter case

Case changes of the 26 Latin letters; every other character stays as it is.

* `lower`, `upper`: a text in one case.

Out of scope: letters of other scripts, which keep their case.
-/

namespace RowStream.Text

/-- A letter A to Z in lower case; any other character as it is. -/
def lowerChar (c : Char) : Char :=
  if 'A' ≤ c ∧ c ≤ 'Z' then Char.ofNat (c.toNat + 32) else c

/-- A letter a to z in upper case; any other character as it is. -/
def upperChar (c : Char) : Char :=
  if 'a' ≤ c ∧ c ≤ 'z' then Char.ofNat (c.toNat - 32) else c

/-- The text with the letters A to Z in lower case. -/
def lower (s : String) : String :=
  String.ofList (s.toList.map lowerChar)

/-- The text with the letters a to z in upper case. -/
def upper (s : String) : String :=
  String.ofList (s.toList.map upperChar)

end RowStream.Text
