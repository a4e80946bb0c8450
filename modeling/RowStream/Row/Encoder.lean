import RowStream.Message.Wire
import RowStream.Row.Coercion
import RowStream.Shape.Basic

/-!
# Encoding rows

A row becomes a message of the encoder's shape, column by column in order of name, and the message
becomes bytes. A null leaves its field unset. A repeated field takes a list, a nested message a row
of its own, and a map one row that is its only entry. After the columns of a row, every required
field must be set. A fault names the row, counted from 0, and the path of the field.

* `single`, `items`, `fieldValue`, `build`: a value in a field, and a row in a message.
* `encodeRow`, `encode`: bytes of a row, and of a list of rows up to the first fault.
-/

namespace RowStream

/-- Encodes rows of a shape, converting dates or not. -/
structure Encoder where
  shape : Shape
  convertDates : Bool := false
deriving Repr, Inhabited

namespace Encoder

open Pool (Kind Field)
open Message (Fields)

/-- What is wrong with a row, at the path of a field. -/
inductive Fault where
  | unknownField (path : String)
  | missingRequired (path : String)
  | mismatch (path expected found : String)
  | outOfRange (path range : String)
deriving Repr, DecidableEq

/-- A fault of a row, counted from 0. -/
structure Error where
  row : Nat
  fault : Fault
deriving Repr, DecidableEq

/-- What is said of the row. -/
def Fault.message : Fault → String
  | .unknownField path => "unknown field " ++ path
  | .missingRequired path => "missing required field " ++ path
  | .mismatch path expected found =>
    "field " ++ path ++ " expects " ++ expected ++ ", got " ++ found
  | .outOfRange path range => "value for field " ++ path ++ " is out of range for " ++ range

/-- What is said of the rows, with the number of the faulty one. -/
def Error.message (e : Error) : String :=
  "row " ++ toString e.row ++ ": " ++ e.fault.message

/-- Sets a field. A field without presence is not set to its default. -/
def put (p : Pool) (m : Pool.Message) (f : Field) (v : Message.Value) (fields : Fields) : Fields :=
  if !f.presence && v.sameScalar (p.default f) then fields.erase f.number
  else Message.put m f v fields

/-- The first required field that is not set. -/
def missing? (m : Pool.Message) (fields : Fields) : Option Field :=
  m.fields.find? fun f => f.label == .required && !fields.has f.number

/-- What a coercion gives at a path. -/
def finish (path : String) (kind : Kind) (v : Row.Value) : Row.Coerced → Except Fault Message.Value
  | .value v => .ok v
  | .outOfRange range => .error (.outOfRange path range)
  | .misfit => .error (.mismatch path kind.name v.kindName)

/-- What a value that is no row of its own becomes in a field of a kind. -/
def plain (p : Pool) (convertDates : Bool) (kind : Kind) (path : String) (v : Row.Value) :
    Except Fault Message.Value :=
  finish path kind v <|
    match kind with
    | .scalar s => Row.toScalar convertDates s v
    | .enum name =>
      match p.enum? name with
      | some e => Row.toEnum e v
      | none => .misfit
    | .message _ | .group _ => .misfit

/-- What a row becomes in a field of a kind, where `inner` is what it becomes as a message. -/
def asMessage (p : Pool) (kind : Kind) (path : String)
    (inner : Pool.Message → Except Fault Fields) : Except Fault Message.Value :=
  match kind.message? with
  | some name =>
    match p.find name with
    | some m => (inner m).map .message
    | none => .error (.mismatch path name "struct")
  | none => .error (.mismatch path kind.name "struct")

mutual

/-- What one value becomes in a field of a kind. -/
def single (p : Pool) (convertDates : Bool) (kind : Kind) (path : String) :
    Row.Value → Except Fault Message.Value
  | .struct columns => asMessage p kind path fun m => build p convertDates m path [] columns
  | v => plain p convertDates kind path v

/-- What the items of a list become. -/
def items (p : Pool) (convertDates : Bool) (kind : Kind) (path : String) :
    List Row.Value → Except Fault (List Message.Value)
  | [] => .ok []
  | v :: vs => do
    let first ← single p convertDates kind path v
    return first :: (← items p convertDates kind path vs)

/-- What a value becomes in a field; a null leaves it unset. -/
def fieldValue (p : Pool) (convertDates : Bool) (f : Field) (path : String) :
    Row.Value → Except Fault (Option Message.Value)
  | .null => .ok none
  | .list vs =>
    if p.isList f then
      (items p convertDates f.kind path vs).map fun values => some (.list values)
    else .error (.mismatch path f.kind.name "list")
  | .struct columns =>
    if p.isList f then .error (.mismatch path "list" "struct")
    else (asMessage p f.kind path fun m => build p convertDates m path [] columns).map some
  | v =>
    if p.isList f then .error (.mismatch path "list" v.kindName)
    else (plain p convertDates f.kind path v).map some

/-- Sets the fields of the columns and checks that no required field is left unset. -/
def build (p : Pool) (convertDates : Bool) (m : Pool.Message) (outer : String) (done : Fields) :
    List (String × Row.Value) → Except Fault Fields
  | [] =>
    match missing? m done with
    | some f => .error (.missingRequired (Text.qualify outer f.name))
    | none => .ok done
  | (name, v) :: columns => do
    let path := Text.qualify outer name
    match m.field? name with
    | none => throw (.unknownField path)
    | some f =>
      match ← fieldValue p convertDates f path v with
      | some value => build p convertDates m outer (put p m f value done) columns
      | none => build p convertDates m outer done columns

end

/-- The message that a row becomes. -/
def message (e : Encoder) (row : Row) : Except Fault Fields :=
  build e.shape.pool e.convertDates e.shape.message "" [] row

/-- The bytes of a row. -/
def encodeRow (e : Encoder) (row : Row) : Except Fault (List UInt8) :=
  (e.message row).map (Message.encode e.shape)

/-- The bytes of the rows from number `n` on. -/
def encodeFrom (e : Encoder) : Nat → List Row → Except Error (List (List UInt8))
  | _, [] => .ok []
  | n, row :: rows =>
    match e.encodeRow row with
    | .error fault => .error ⟨n, fault⟩
    | .ok bytes => (e.encodeFrom (n + 1) rows).map (bytes :: ·)

/-- The bytes of each row, or the fault of the first row that has one. -/
def encode (e : Encoder) (rows : List Row) : Except Error (List (List UInt8)) :=
  e.encodeFrom 0 rows

end Encoder

end RowStream
