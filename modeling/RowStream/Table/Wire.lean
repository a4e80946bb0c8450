import RowStream.Table.Basic
import RowStream.Wire.Message

/-!
# Table schemas on the wire

* `Column.records`, `Column.absorb`: a column.
* `Schema.records`, `Schema.absorb`: a schema.

Out of scope: members of a column that `Column` leaves out; their records are passed over.
-/

namespace RowStream.Table

open Wire

mutual

/-- The members of a column that differ from their defaults, its own columns inside. -/
def Column.records : Column → List Record
  | ⟨name, type, mode, columns, description, maxLength, precision, scale, expression, digits⟩ =>
    text 1 name ++
    int32 2 type ++
    int32 3 mode ++
    columnRecords 4 columns ++
    text 6 description ++
    int64 7 maxLength ++
    int64 8 precision ++
    int64 9 scale ++
    text 10 expression ++
    optional 27 (fun n => .varint n.toUInt64) digits

/-- Columns as records with one number. -/
def columnRecords (number : Nat) : List Column → List Record
  | [] => []
  | c :: cs => (number, .bytes (encodeRecords c.records)) :: columnRecords number cs

end

/-- Takes one record into a column. A column inside is read with one level less to go, so the
recursion ends with the levels. -/
def Column.absorb (depth : Nat) (c : Column) : Record → Option Column
  | (1, p) => p.text?.map fun s => { c with name := s }
  | (2, p) => p.int32?.map fun n => { c with type := n }
  | (3, p) => p.int32?.map fun n => { c with mode := n }
  | (4, .bytes b) =>
    match depth with
    | 0 => none
    | depth + 1 =>
      (absorbAll (Column.absorb depth) depth {} b).map fun d =>
        { c with columns := c.columns ++ [d] }
  | (4, _) => none
  | (6, p) => p.text?.map fun s => { c with description := s }
  | (7, p) => p.int64?.map fun n => { c with maxLength := n }
  | (8, p) => p.int64?.map fun n => { c with precision := n }
  | (9, p) => p.int64?.map fun n => { c with scale := n }
  | (10, p) => p.text?.map fun s => { c with defaultValueExpression := s }
  | (27, p) => p.int64?.map fun n => { c with timestampPrecision := some n }
  | _ => unknown depth c

instance : Wire.Message Column where
  empty := {}
  records := Column.records
  absorb := Column.absorb

/-- The columns of a schema. -/
def Schema.records (s : Schema) : List Record :=
  columnRecords 1 s.columns

/-- Takes one record into a schema, which is a further column. -/
def Schema.absorb (depth : Nat) (s : Schema) : Record → Option Schema
  | (1, p) => (nested depth ({} : Column) p).map fun c => { s with columns := s.columns ++ [c] }
  | _ => unknown depth s

instance : Wire.Message Schema where
  empty := {}
  records := Schema.records
  absorb := Schema.absorb

end RowStream.Table
