import RowStream.Json.Number
import RowStream.Text.Hex
import RowStream.Text.Utf8

/-!
# Reading JSON text

The strict grammar: one value with blanks (space, tab, line feed, carriage return) around it, no
byte order mark, no comma before a closing bracket, no control character inside a string, and
surrogate escapes in pairs only. Arrays and objects nest at most 127 deep.

* `readValue`, `readItems`, `readMembers`: a value at the start of a text.
* `Fault.locate`: the line and column of a fault.
* `parse`: the value that a text writes.

Out of scope: reading from a source that can fail, and texts that are no UTF-8.
-/

namespace RowStream.Json

/-- The character may stand between the parts of a text. -/
def isBlank (c : Char) : Bool :=
  c == ' ' || c == '\n' || c == '\t' || c == '\r'

/-- The characters after the blanks at the start. -/
def skipBlanks (cs : List Char) : List Char :=
  cs.dropWhile isBlank

/-- How deep arrays and objects may nest. -/
def maxDepth : Nat := 127

/-- The rest of a word, once its first letter is read. -/
def readWord (v : Json) : List Char → List Char → Except Fault (Json × List Char)
  | [], cs => .ok (v, cs)
  | _ :: _, [] => failBefore .endInValue []
  | w :: ws, c :: cs => if c = w then readWord v ws cs else failAt .expectedIdent (c :: cs)

/-- The four digits of an escape. With fewer than four bytes left the text has stopped too early,
whatever they are. -/
def readHex (cs : List Char) : Except Fault (Nat × List Char) :=
  match cs with
  | a :: b :: c :: d :: rest =>
    match Hex.digit? a, Hex.digit? b, Hex.digit? c, Hex.digit? d with
    | some a, some b, some c, some d => .ok (((a * 16 + b) * 16 + c) * 16 + d, rest)
    | _, _, _, _ => .error ⟨.badEscape, cs, 4⟩
  | cs =>
    if (String.ofList cs).utf8ByteSize < 4 then failBefore .endInString []
    else .error ⟨.badEscape, cs, 4⟩

/-- A `u` escape, after its letter: one number, or two that form a surrogate pair. -/
def readUnicode (cs : List Char) : Except Fault (Char × List Char) := do
  let (n, cs) ← readHex cs
  if 0xDC00 ≤ n ∧ n ≤ 0xDFFF then failBefore .loneSurrogate cs
  else if n < 0xD800 ∨ 0xDBFF < n then return (Char.ofNat n, cs)
  else
    match cs with
    | [] => failBefore .endInString []
    | '\\' :: [] => failBefore .endInString []
    | '\\' :: 'u' :: cs =>
      let (m, cs) ← readHex cs
      if m < 0xDC00 ∨ 0xDFFF < m then failBefore .loneSurrogate cs
      else return (Char.ofNat ((n - 0xD800) * 0x400 + (m - 0xDC00) + 0x10000), cs)
    | '\\' :: cs => failAt .endOfEscape cs
    | cs => failAt .endOfEscape cs

/-- An escape, after its backslash. -/
def readEscape (cs : List Char) : Except Fault (Char × List Char) :=
  match cs with
  | [] => failBefore .endInString []
  | '"' :: cs => .ok ('"', cs)
  | '\\' :: cs => .ok ('\\', cs)
  | '/' :: cs => .ok ('/', cs)
  | 'b' :: cs => .ok (Char.ofNat 8, cs)
  | 'f' :: cs => .ok (Char.ofNat 12, cs)
  | 'n' :: cs => .ok ('\n', cs)
  | 'r' :: cs => .ok ('\r', cs)
  | 't' :: cs => .ok ('\t', cs)
  | 'u' :: cs => readUnicode cs
  | cs => failAt .badEscape cs

/-- The characters of a string, after its opening quote. -/
def readString : Nat → List Char → Except Fault ((List Char) × List Char)
  | 0, cs => failBefore .endInString cs
  | _ + 1, [] => failBefore .endInString []
  | n + 1, c :: cs =>
    if c = '"' then .ok ([], cs)
    else if c = '\\' then do
      let (d, cs) ← readEscape cs
      let (ds, cs) ← readString n cs
      return (d :: ds, cs)
    else if c.toNat < 0x20 then failAt .controlCharacter (c :: cs)
    else do
      let (ds, cs) ← readString n cs
      return (c :: ds, cs)

/-- What stands where an item or a member may follow: the text after the closing bracket, or the
start of the next one. -/
inductive Next where
  | last (rest : List Char)
  | more (rest : List Char)
deriving Repr, DecidableEq

/-- Passes the comma before an item of an array, unless it is the `first`, or the closing
bracket. -/
def nextItem (first : Bool) (cs : List Char) : Except Fault Next :=
  match skipBlanks cs with
  | [] => failAt .endInList []
  | ']' :: cs => .ok (.last cs)
  | c :: cs =>
    if first then .ok (.more (c :: cs))
    else if c = ',' then
      match skipBlanks cs with
      | [] => failAt .endInValue []
      | ']' :: cs => failAt .trailingComma (']' :: cs)
      | cs => .ok (.more cs)
    else failAt .expectedListCommaOrEnd (c :: cs)

/-- Passes the comma before a member of an object, unless it is the `first`, and the opening quote
of its key; or the closing brace. -/
def nextKey (first : Bool) (cs : List Char) : Except Fault Next :=
  match skipBlanks cs with
  | [] => failAt .endInObject []
  | '}' :: cs => .ok (.last cs)
  | c :: cs =>
    if first then
      if c = '"' then .ok (.more cs) else failAt .keyNotString (c :: cs)
    else if c = ',' then
      match skipBlanks cs with
      | [] => failAt .endInValue []
      | '"' :: cs => .ok (.more cs)
      | '}' :: cs => failAt .trailingComma ('}' :: cs)
      | cs => failAt .keyNotString cs
    else failAt .expectedObjectCommaOrEnd (c :: cs)

/-- Passes the colon after a key. -/
def passColon (cs : List Char) : Except Fault (List Char) :=
  match skipBlanks cs with
  | ':' :: cs => .ok cs
  | [] => failAt .endInObject []
  | cs => failAt .expectedColon cs

mutual

/-- A value, with `depth` more levels of nesting allowed. The first argument bounds the steps: no
reading takes more of them than there are characters. -/
def readValue : Nat → Nat → List Char → Except Fault (Json × List Char)
  | 0, _, cs => failAt .endInValue cs
  | n + 1, depth, cs =>
    match skipBlanks cs with
    | [] => failAt .endInValue []
    | 'n' :: cs => readWord .null ['u', 'l', 'l'] cs
    | 't' :: cs => readWord (.bool true) ['r', 'u', 'e'] cs
    | 'f' :: cs => readWord (.bool false) ['a', 'l', 's', 'e'] cs
    | '-' :: cs => do
      let (x, cs) ← readNumber true cs
      return (.number x, cs)
    | '"' :: cs => do
      let (s, cs) ← readString (cs.length + 1) cs
      return (.string (String.ofList s), cs)
    | '[' :: cs =>
      match depth with
      | 0 => failAt .tooDeep ('[' :: cs)
      | depth + 1 => do
        let (items, cs) ← readItems n depth true cs
        return (.array items, cs)
    | '{' :: cs =>
      match depth with
      | 0 => failAt .tooDeep ('{' :: cs)
      | depth + 1 => do
        let (members, cs) ← readMembers n depth true cs
        return (.object members, cs)
    | c :: cs =>
      if isDigit c then do
        let (x, cs) ← readNumber false (c :: cs)
        return (.number x, cs)
      else failAt .expectedValue (c :: cs)

/-- The items of an array up to its closing bracket; `first` before any item. -/
def readItems : Nat → Nat → Bool → List Char → Except Fault ((List Json) × List Char)
  | 0, _, _, cs => failAt .endInList cs
  | n + 1, depth, first, cs => do
    match ← nextItem first cs with
    | .last cs => return ([], cs)
    | .more cs =>
      let (v, cs) ← readValue n depth cs
      let (vs, cs) ← readItems n depth false cs
      return (v :: vs, cs)

/-- The members of an object up to its closing brace; `first` before any member. -/
def readMembers : Nat → Nat → Bool → List Char → Except Fault ((List (String × Json)) × List Char)
  | 0, _, _, cs => failAt .endInObject cs
  | n + 1, depth, first, cs => do
    match ← nextKey first cs with
    | .last cs => return ([], cs)
    | .more cs =>
      let (key, cs) ← readString (cs.length + 1) cs
      let (v, cs) ← readValue n depth (← passColon cs)
      let (ms, cs) ← readMembers n depth false cs
      return ((String.ofList key, v) :: ms, cs)

end

/-- Line and column of the end of a byte sequence. -/
def place (before : List UInt8) : Nat × Nat :=
  before.foldl step (1, 0)
where
  /-- Moves past one byte. -/
  step (p : Nat × Nat) (b : UInt8) : Nat × Nat :=
    if b = 10 then (p.1 + 1, 0) else (p.1, p.2 + 1)

/-- A fault with its place in the whole text. -/
def Fault.locate (f : Fault) (text : String) : Error :=
  let unread := (String.ofList f.rest).utf8ByteSize
  let (line, column) := place ((Utf8.encode text).take (text.utf8ByteSize - unread + f.bytes))
  ⟨f.reason, line, column⟩

/-- The steps that reading a text may take. -/
def enough (cs : List Char) : Nat := 2 * cs.length + 2

/-- Nothing but blanks is left. -/
def checkEnd (rest : List Char) : Except Fault Unit :=
  match skipBlanks rest with
  | [] => .ok ()
  | rest => failAt .trailingCharacters rest

/-- The result of reading a text, with a fault at its place. -/
def located {α : Type} (text : String) : Except Fault α → Except Error α
  | .ok a => .ok a
  | .error f => .error (f.locate text)

/-- The value that a text starts with, and what is left of the text. -/
def parseStart (s : String) : Except Error (Json × List Char) :=
  located s (readValue (enough s.toList) maxDepth s.toList)

/-- Checks that nothing but blanks is left of a text. -/
def parseEnd (s : String) (rest : List Char) : Except Error Unit :=
  located s (checkEnd rest)

/-- The value of a text. -/
def parse (s : String) : Except Error Json := do
  let (v, rest) ← parseStart s
  parseEnd s rest
  return v

end RowStream.Json
