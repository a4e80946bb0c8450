import RowStream.Json.Parser

/-!
# Passing over JSON text

Where a value is not wanted, only the grammar of its text is checked: a number may be of any size,
an escape of a surrogate needs no partner, and nothing limits how deep arrays and objects nest.

* `passValue`, `passItems`, `passMembers`: what follows a value that is not wanted.
-/

namespace RowStream.Json

/-- Passes one digit or more. -/
def passDigits (cs : List Char) : Except Fault (List Char) :=
  match cs with
  | [] => failBefore .endInValue []
  | c :: rest => if isDigit c then .ok (dropDigits rest) else failAt .badNumber (c :: rest)

/-- Passes the exponent of a number, if there is one. -/
def passExponent (cs : List Char) : Except Fault (List Char) :=
  match cs with
  | c :: rest =>
    if c = 'e' ∨ c = 'E' then
      match rest with
      | '+' :: rest | '-' :: rest => passDigits rest
      | rest => passDigits rest
    else .ok (c :: rest)
  | [] => .ok []

/-- Passes a number, after its minus sign. -/
def passNumber (cs : List Char) : Except Fault (List Char) :=
  if leadsWithZero cs then failAt .badNumber (cs.drop 1)
  else do
    match ← passDigits cs with
    | '.' :: rest => passExponent (← passDigits rest)
    | rest => passExponent rest

/-- Passes an escape, after its backslash. -/
def passEscape (cs : List Char) : Except Fault (List Char) :=
  match cs with
  | 'u' :: cs => (readHex cs).map (·.2)
  | cs => (readEscape cs).map (·.2)

/-- Passes a string, after its opening quote. -/
def passString : Nat → List Char → Except Fault (List Char)
  | 0, cs => failBefore .endInString cs
  | _ + 1, [] => failBefore .endInString []
  | n + 1, c :: cs =>
    if c = '"' then .ok cs
    else if c = '\\' then do passString n (← passEscape cs)
    else if c.toNat < 0x20 then failAt .controlCharacter (c :: cs)
    else passString n cs

mutual

/-- Passes a value. The first argument bounds the steps, as in reading. -/
def passValue : Nat → List Char → Except Fault (List Char)
  | 0, cs => failAt .endInValue cs
  | n + 1, cs =>
    match skipBlanks cs with
    | [] => failAt .endInValue []
    | 'n' :: cs => (readWord .null ['u', 'l', 'l'] cs).map (·.2)
    | 't' :: cs => (readWord (.bool true) ['r', 'u', 'e'] cs).map (·.2)
    | 'f' :: cs => (readWord (.bool false) ['a', 'l', 's', 'e'] cs).map (·.2)
    | '-' :: cs => passNumber cs
    | '"' :: cs => passString (cs.length + 1) cs
    | '[' :: cs => passItems n true cs
    | '{' :: cs => passMembers n true cs
    | c :: cs => if isDigit c then passNumber (c :: cs) else failAt .expectedValue (c :: cs)

/-- Passes the items of an array and its closing bracket; `first` before any item. -/
def passItems : Nat → Bool → List Char → Except Fault (List Char)
  | 0, _, cs => failAt .endInList cs
  | n + 1, first, cs => do
    match ← nextItem first cs with
    | .last cs => return cs
    | .more cs => passItems n false (← passValue n cs)

/-- Passes the members of an object and its closing brace; `first` before any member. -/
def passMembers : Nat → Bool → List Char → Except Fault (List Char)
  | 0, _, cs => failAt .endInObject cs
  | n + 1, first, cs => do
    match ← nextKey first cs with
    | .last cs => return cs
    | .more cs =>
      let cs ← passString (cs.length + 1) cs
      passMembers n false (← passValue n (← passColon cs))

end

end RowStream.Json
