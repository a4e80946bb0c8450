/-!
# Searching text

Occurrence and ending tests and the joining of dotted paths, over the characters of a text.

* `contains`, `endsWith`: a text in another.
* `qualify`, `dropDot`, `underscored`: full names.
-/

namespace RowStream.Text

/-- `p` occurs in `s`. -/
def containsList (p : List Char) : List Char → Bool
  | [] => p.isEmpty
  | c :: s => p.isPrefixOf (c :: s) || containsList p s

/-- The text `p` occurs in `s`. -/
def contains (s p : String) : Bool :=
  containsList p.toList s.toList

/-- The text `s` ends with `p`. -/
def endsWith (s p : String) : Bool :=
  p.toList.isSuffixOf s.toList

/-- The text without its leading dots. -/
def dropDots (s : String) : String :=
  String.ofList (s.toList.dropWhile (· == '.'))

/-- The text without one leading dot, if it has one. -/
def dropDot (s : String) : String :=
  match s.toList with
  | '.' :: cs => String.ofList cs
  | _ => s

/-- The text with every dot written as an underscore. -/
def underscored (s : String) : String :=
  String.ofList (s.toList.map fun c => if c == '.' then '_' else c)

/-- `name` inside the scope `scope`; the outermost scope is empty. -/
def qualify (scope name : String) : String :=
  if scope = "" then name else scope ++ "." ++ name

end RowStream.Text
