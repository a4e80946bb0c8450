import RowStream.Table.Basic
import RowStream.Table.Error
import RowStream.Json.Parser
import RowStream.Text.Letter

/-!
# Table schemas as JSON documents

A document is an object with the member `fields`, or the bare array of them. A column is an object
whose members come in any order, unknown ones ignored and known ones at most once; or an array of
the same members in a fixed order, where members that may be left out may be missing at the end.
Type and mode are names in any letter case, with the legacy names of types; whole numbers are
written as such or as text.

Reading takes three steps: the shape of the whole document first, then what follows the document,
which must be blank, then the names of types and modes, a column before its sub-columns and its
type before its mode.

* `document?`, `entry?`: the columns that a JSON value holds.
* `typeOfName?`, `modeOfName?`: types and modes by name.
* `column`, `columns`: a column of the schema.
* `parse`: the schema that a text writes.

Out of scope: members of a column that have no place in a schema; they are passed over.
-/

namespace RowStream.Table.Document

/-- A column as it is written in a document. -/
structure Entry where
  name : String
  type : String
  mode : Option String
  entries : List Entry
  description : Option String
  maxLength : Option Int64
  precision : Option Int64
  scale : Option Int64
  defaultValueExpression : Option String
  timestampPrecision : Option Int64
deriving Repr, Inhabited

/-! ## The shape -/

/-- The members of a column, in the order of the array form. -/
def memberNames : List String :=
  ["name", "type", "mode", "fields", "description", "maxLength", "precision", "scale",
    "defaultValueExpression", "timestampPrecision"]

/-- A member: its value, and the columns that the value is a list of, if it is one. -/
structure Member where
  key : String
  value : Json
  entries : Option (List Entry)

/-- The only member with a key: `some none` when there is none, `none` when there are more. -/
def only? (key : String) (members : List Member) : Option (Option Member) :=
  match members.filter fun m => m.key == key with
  | [] => some none
  | [m] => some (some m)
  | _ => none

/-- A text, or null. -/
def textOrNull? : Json → Option (Option String)
  | .null => some none
  | .string s => some (some s)
  | _ => none

/-- A whole number of 64 bits, as such or as text, or null. -/
def wholeOrNull? : Json → Option (Option Int64)
  | .null => some none
  | .number (.int n) => if Integer.Range.int64.has n then some (some (Int64.ofInt n)) else none
  | .string s => (Integer.readInt64 s).map some
  | _ => none

/-- A member that must be there. -/
def required? {α : Type} (key : String) (read : Json → Option α) (members : List Member) :
    Option α := do
  match ← only? key members with
  | some m => read m.value
  | none => none

/-- A member that may be left out. -/
def optional? {α : Type} (key : String) (read : Json → Option (Option α))
    (members : List Member) : Option (Option α) := do
  match ← only? key members with
  | some m => read m.value
  | none => some none

/-- The sub-columns: none when the member is left out. -/
def entries? (members : List Member) : Option (List Entry) := do
  match ← only? "fields" members with
  | some m => m.entries
  | none => some []

/-- A column of its members. -/
def entryOf? (members : List Member) : Option Entry := do
  return {
    name := ← required? "name" Json.text? members
    type := ← required? "type" Json.text? members
    mode := ← optional? "mode" textOrNull? members
    entries := ← entries? members
    description := ← optional? "description" textOrNull? members
    maxLength := ← optional? "maxLength" wholeOrNull? members
    precision := ← optional? "precision" wholeOrNull? members
    scale := ← optional? "scale" wholeOrNull? members
    defaultValueExpression := ← optional? "defaultValueExpression" textOrNull? members
    timestampPrecision := ← optional? "timestampPrecision" wholeOrNull? members }

mutual

/-- A column. -/
def entry? : Json → Option Entry
  | .object ms => entryOf? (members ms)
  | .array items =>
    if items.length ≤ memberNames.length then entryOf? (items? memberNames items) else none
  | _ => none

/-- A list of columns. -/
def list? : Json → Option (List Entry)
  | .array items => entryList? items
  | _ => none

/-- The items of a list as columns; one that is no column spoils the list. -/
def entryList? : List Json → Option (List Entry)
  | [] => some []
  | v :: vs => do return (← entry? v) :: (← entryList? vs)

/-- The members of the object form. -/
def members : List (String × Json) → List Member
  | [] => []
  | (key, v) :: ms => ⟨key, v, list? v⟩ :: members ms

/-- The members of the array form. -/
def items? : List String → List Json → List Member
  | key :: keys, v :: vs => ⟨key, v, list? v⟩ :: items? keys vs
  | _, _ => []

end

/-- The columns of a document. -/
def document? : Json → Option (List Entry)
  | .object ms =>
    match only? "fields" (members ms) with
    | some (some m) => m.entries
    | _ => none
  | v => list? v

/-! ## The names -/

/-- The type with a name. -/
def typeOfName? (s : String) : Option ColumnType :=
  match Text.upper s with
  | "STRING" => some .string
  | "BYTES" => some .bytes
  | "INTEGER" | "INT64" => some .int64
  | "FLOAT" | "FLOAT64" | "DOUBLE" => some .double
  | "NUMERIC" | "DECIMAL" => some .numeric
  | "BIGNUMERIC" | "BIGDECIMAL" => some .bignumeric
  | "BOOLEAN" | "BOOL" => some .bool
  | "TIMESTAMP" => some .timestamp
  | "DATE" => some .date
  | "TIME" => some .time
  | "DATETIME" => some .datetime
  | "GEOGRAPHY" => some .geography
  | "RECORD" | "STRUCT" => some .struct
  | "JSON" => some .json
  | "INTERVAL" => some .interval
  | "RANGE" => some .range
  | _ => none

/-- The mode with a name. -/
def modeOfName? (s : String) : Option Mode :=
  match Text.upper s with
  | "NULLABLE" => some .nullable
  | "REQUIRED" => some .required
  | "REPEATED" => some .repeated
  | _ => none

/-- The type of a column. -/
def typeOf (e : Entry) : Except Unsupported ColumnType :=
  match typeOfName? e.type with
  | some t => .ok t
  | none => .error (.type e.name e.type)

/-- The mode of a column; without one it may be null. -/
def modeOf (e : Entry) : Except Unsupported Mode :=
  match e.mode with
  | none => .ok .nullable
  | some s =>
    match modeOfName? s with
    | some m => .ok m
    | none => .error (.mode e.name s)

mutual

/-- The column of an entry. -/
def column : Entry → Except Unsupported Column
  | ⟨name, type, mode, entries, description, maxLength, precision, scale, expression, digits⟩ => do
    let e : Entry :=
      ⟨name, type, mode, entries, description, maxLength, precision, scale, expression, digits⟩
    let t ← typeOf e
    let m ← modeOf e
    let cs ← columns entries
    return {
      name := name
      type := t.number
      mode := m.number
      columns := cs
      description := description.getD ""
      maxLength := maxLength.getD 0
      precision := precision.getD 0
      scale := scale.getD 0
      defaultValueExpression := expression.getD ""
      timestampPrecision := digits }

/-- The columns of a list of entries. -/
def columns : List Entry → Except Unsupported (List Column)
  | [] => .ok []
  | e :: es => do
    let c ← column e
    let cs ← columns es
    return c :: cs

end

/-! ## Documents -/

/-- Why a text is no table schema. -/
inductive Error where
  | malformed (e : Json.Error)
  | wrongShape
  | unsupported (u : Unsupported)
deriving Repr, DecidableEq

/-- What is said of the text. -/
def Error.message : Error → String
  | .malformed e => "invalid table schema json: " ++ e.message
  | .wrongShape =>
    "invalid table schema json: data did not match any variant of untagged enum JsonSchemaDocument"
  | .unsupported u => u.message

/-- The schema of the entries of a document. -/
def schema (es : List Entry) : Except Error Schema :=
  match columns es with
  | .ok cs => .ok ⟨cs⟩
  | .error u => .error (.unsupported u)

/-- The schema of a JSON value. -/
def ofJson (v : Json) : Except Error Schema :=
  match document? v with
  | none => .error .wrongShape
  | some es => schema es

/-- The schema that a text writes. Of several faults the first of these counts: the value is
malformed, it has the wrong shape, something follows it, a name is unknown. -/
def parse (s : String) : Except Error Schema :=
  match Json.parseStart s with
  | .error e => .error (.malformed e)
  | .ok (v, rest) =>
    match document? v with
    | none => .error .wrongShape
    | some es =>
      match Json.parseEnd s rest with
      | .error e => .error (.malformed e)
      | .ok _ => schema es

end RowStream.Table.Document
