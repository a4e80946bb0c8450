import RowStream.Json.Basic
import RowStream.Number.Shortest
import RowStream.Text.Hex

/-!
# Writing JSON text

Two layouts: without any blanks, and with one member or item a line, indented by two spaces a
level. Quotes, backslashes and control characters are escaped, nothing else.

* `compact`, `indented`: the two layouts.
* `quote`: a text in quotes.
-/

namespace RowStream.Json

/-- A character inside quotes. A control without a letter of its own is written by its number. -/
def escapeChar (c : Char) : List Char :=
  if c = '"' then ['\\', '"']
  else if c = '\\' then ['\\', '\\']
  else if c = '\n' then ['\\', 'n']
  else if c = '\r' then ['\\', 'r']
  else if c = '\t' then ['\\', 't']
  else if c.toNat = 8 then ['\\', 'b']
  else if c.toNat = 12 then ['\\', 'f']
  else if c.toNat < 0x20 then
    ['\\', 'u', '0', '0', Hex.digit (c.toNat / 16), Hex.digit (c.toNat % 16)]
  else [c]

/-- A text in quotes. -/
def quote (s : String) : String :=
  String.ofList ('"' :: (s.toList.flatMap escapeChar ++ ['"']))

/-- A number in the fewest digits that read back as it. -/
def Number.text : Number → String
  | .int n => Integer.text n
  | .real x => Shortest.text x

/-- The start of a line at a level of the indented layout. -/
def newline (level : Nat) : String :=
  "\n" ++ String.ofList (List.replicate (2 * level) ' ')

mutual

/-- The layout without blanks. -/
def compact : Json → String
  | .null => "null"
  | .bool b => if b then "true" else "false"
  | .number n => n.text
  | .string s => quote s
  | .array items => "[" ++ compactItems items ++ "]"
  | .object members => "\x7b" ++ compactMembers members ++ "\x7d"

/-- The items of an array, with commas between them. -/
def compactItems : List Json → String
  | [] => ""
  | [v] => compact v
  | v :: vs => compact v ++ "," ++ compactItems vs

/-- The members of an object, with commas between them. -/
def compactMembers : List (String × Json) → String
  | [] => ""
  | [(k, v)] => quote k ++ ":" ++ compact v
  | (k, v) :: ms => quote k ++ ":" ++ compact v ++ "," ++ compactMembers ms

end

mutual

/-- The indented layout at a level. -/
def indented (level : Nat) : Json → String
  | .array items =>
    if items.isEmpty then "[]"
    else "[" ++ indentedItems (level + 1) items ++ newline level ++ "]"
  | .object members =>
    if members.isEmpty then "\x7b\x7d"
    else "\x7b" ++ indentedMembers (level + 1) members ++ newline level ++ "\x7d"
  | .null => "null"
  | .bool b => if b then "true" else "false"
  | .number n => n.text
  | .string s => quote s

/-- The items of an array, one a line. -/
def indentedItems (level : Nat) : List Json → String
  | [] => ""
  | [v] => newline level ++ indented level v
  | v :: vs => newline level ++ indented level v ++ "," ++ indentedItems level vs

/-- The members of an object, one a line. -/
def indentedMembers (level : Nat) : List (String × Json) → String
  | [] => ""
  | [(k, v)] => newline level ++ quote k ++ ": " ++ indented level v
  | (k, v) :: ms =>
    newline level ++ quote k ++ ": " ++ indented level v ++ "," ++ indentedMembers level ms

end

end RowStream.Json
