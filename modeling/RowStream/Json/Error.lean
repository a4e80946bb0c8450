/-!
# Faults of JSON text

A fault is a reason and a place. The reason says whether the text stops too early or is malformed;
the place is a line and a column, counted in bytes.

* `Reason`: what can be wrong with a text, and what is said of it.
* `Error`: a reason with its place.

Out of scope: faults of values that do not have the wanted form; who reads a value tells those.
-/

namespace RowStream.Json

/-- What is wrong with a text. -/
inductive Reason where
  | endInList
  | endInObject
  | endInString
  | endInValue
  | expectedColon
  | expectedListCommaOrEnd
  | expectedObjectCommaOrEnd
  | expectedIdent
  | expectedValue
  | badEscape
  | badNumber
  | numberOutOfRange
  | controlCharacter
  | keyNotString
  | loneSurrogate
  | trailingComma
  | trailingCharacters
  | endOfEscape
  | tooDeep
deriving Repr, DecidableEq

/-- What is said of the fault. -/
def Reason.message : Reason → String
  | .endInList => "EOF while parsing a list"
  | .endInObject => "EOF while parsing an object"
  | .endInString => "EOF while parsing a string"
  | .endInValue => "EOF while parsing a value"
  | .expectedColon => "expected `:`"
  | .expectedListCommaOrEnd => "expected `,` or `]`"
  | .expectedObjectCommaOrEnd => "expected `,` or `\x7d`"
  | .expectedIdent => "expected ident"
  | .expectedValue => "expected value"
  | .badEscape => "invalid escape"
  | .badNumber => "invalid number"
  | .numberOutOfRange => "number out of range"
  | .controlCharacter => "control character (\\u0000-\\u001F) found while parsing a string"
  | .keyNotString => "key must be a string"
  | .loneSurrogate => "lone leading surrogate in hex escape"
  | .trailingComma => "trailing comma"
  | .trailingCharacters => "trailing characters"
  | .endOfEscape => "unexpected end of hex escape"
  | .tooDeep => "recursion limit exceeded"

/-- The two kinds of malformed text. -/
inductive Category where
  | eof
  | syntactic
deriving Repr, DecidableEq

/-- The text only stops too early. -/
def Reason.category : Reason → Category
  | .endInList | .endInObject | .endInString | .endInValue => .eof
  | _ => .syntactic

/-- A fault of a JSON text, with its place. -/
structure Error where
  reason : Reason
  line : Nat
  column : Nat
deriving Repr, DecidableEq

/-- What is said of the fault, with its place. -/
def Error.message (e : Error) : String :=
  e.reason.message ++ " at line " ++ toString e.line ++ " column " ++ toString e.column

end RowStream.Json
