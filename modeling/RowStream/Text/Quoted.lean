import RowStream.Text.Printable

/-!
# Quoted text

A text between double quotes. A quote, a backslash and the common controls are written with a
backslash and a letter or sign, other characters that are not printable by their number.

* `encode`: the quoted form.

Out of scope: reading a quoted text.
-/

namespace RowStream.Text.Quoted

/-- The digits of a number to base 16. -/
def hex (n : Nat) : List Char := Nat.toDigits 16 n

/-- A character by its number. -/
def numbered (c : Char) : List Char :=
  '\\' :: 'u' :: '\x7b' :: (hex c.toNat ++ ['\x7d'])

/-- A character between the quotes. -/
def encodeChar (c : Char) : List Char :=
  if c = '"' then ['\\', '"']
  else if c = '\\' then ['\\', '\\']
  else if c = '\n' then ['\\', 'n']
  else if c = '\r' then ['\\', 'r']
  else if c = '\t' then ['\\', 't']
  else if c.toNat = 0 then ['\\', '0']
  else if isPrintable c then [c]
  else numbered c

/-- The quoted form of a text. -/
def encode (s : String) : String :=
  String.ofList ('"' :: (s.toList.flatMap encodeChar ++ ['"']))

end RowStream.Text.Quoted
