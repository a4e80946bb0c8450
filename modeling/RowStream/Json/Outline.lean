import RowStream.Json.Skim

/-!
# Outlines

An outline says which members of an object are wanted. Reading by an outline leaves out the others
and passes over their values; of the same parts in an array, in the order of the outline, nothing
is left out.

* `readOutlined`, `readWanted`: the wanted parts of a value.
* `parseOutlined`: those of a whole text.
-/

namespace RowStream.Json

/-- What is wanted of a value: all of it, or the members with the given keys. -/
inductive Outline where
  | whole
  | parts (known : List (String × Outline))
deriving Repr, Inhabited

mutual

/-- Reads a value by an outline, with `depth` more levels of nesting allowed. The first argument
bounds the steps. -/
def readOutlined : Nat → Nat → Outline → List Char → Except Fault (Json × List Char)
  | 0, _, _, cs => failAt .endInValue cs
  | n + 1, depth, .whole, cs => readValue n depth cs
  | n + 1, depth, .parts known, cs =>
    match skipBlanks cs, depth with
    | '[' :: cs, depth + 1 => do
      let (items, cs) ← readParts n depth known true cs
      return (.array items, cs)
    | '{' :: cs, depth + 1 => do
      let (members, cs) ← readWanted n depth known true cs
      return (.object members, cs)
    | cs, depth => readValue n depth cs

/-- Reads the items of an array, each by the next part of the outline; `first` before any item. -/
def readParts : Nat → Nat → List (String × Outline) → Bool → List Char →
    Except Fault ((List Json) × List Char)
  | 0, _, _, _, cs => failAt .endInList cs
  | n + 1, depth, known, first, cs => do
    match ← nextItem first cs with
    | .last cs => return ([], cs)
    | .more cs =>
      let part := match known with
        | (_, part) :: _ => part
        | [] => .whole
      let (v, cs) ← readOutlined n depth part cs
      let (vs, cs) ← readParts n depth known.tail false cs
      return (v :: vs, cs)

/-- Reads the wanted members of an object; `first` before any member. -/
def readWanted : Nat → Nat → List (String × Outline) → Bool → List Char →
    Except Fault ((List (String × Json)) × List Char)
  | 0, _, _, _, cs => failAt .endInObject cs
  | n + 1, depth, known, first, cs => do
    match ← nextKey first cs with
    | .last cs => return ([], cs)
    | .more cs =>
      let (key, cs) ← readString (cs.length + 1) cs
      let key := String.ofList key
      let cs ← passColon cs
      match known.find? fun part => part.1 == key with
      | some (_, part) =>
        let (v, cs) ← readOutlined n depth part cs
        let (ms, cs) ← readWanted n depth known false cs
        return ((key, v) :: ms, cs)
      | none => readWanted n depth known false (← passValue n cs)

end

/-- What an outline wants of the value of a text. -/
def parseOutlined (o : Outline) (s : String) : Except Error Json := do
  let (v, rest) ← located s (readOutlined (enough s.toList) maxDepth o s.toList)
  parseEnd s rest
  return v

end RowStream.Json
