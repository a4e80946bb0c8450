import RowStream.Descriptor.Wire
import RowStream.Keyed
import RowStream.Service.Status
import RowStream.Table.Wire

/-!
# Appending rows

A request carries rows as bytes together with the descriptor they are written by. A response
acknowledges a request or refuses it, and may report a new schema of the table.

* `AppendRequest`, `AppendResponse`: the two messages of an append call.
* `Verdict`: what a response says of its request.
* `acknowledgedOffset`, `error`: looking at a response.
-/

namespace RowStream.Service

open Wire

/-- An integer that may be absent where it stands. -/
structure Wrapped where
  value : Int64 := 0
deriving Repr, DecidableEq, Inhabited

namespace Wrapped

/-- The integer, left out at zero. -/
def records (w : Wrapped) : List Record := int64 1 w.value

/-- Takes one record into the integer. -/
def absorb (depth : Nat) (w : Wrapped) : Record → Option Wrapped
  | (1, p) => p.int64?.map fun n => { w with value := n }
  | _ => unknown depth w

instance : Wire.Message Wrapped where
  empty := {}
  records := records
  absorb := absorb

end Wrapped

/-- The descriptor that rows are written by. -/
structure WriterSchema where
  descriptor : Option Descriptor.Message := none
deriving Repr, DecidableEq, Inhabited

namespace WriterSchema

/-- The descriptor, where there is one. -/
def records (s : WriterSchema) : List Record := optional 1 messagePayload s.descriptor

/-- Takes one record into the schema; a further descriptor is merged into the one there. -/
def absorb (depth : Nat) (s : WriterSchema) : Record → Option WriterSchema
  | (1, p) => (nested depth (s.descriptor.getD {}) p).map fun d => { s with descriptor := some d }
  | _ => unknown depth s

instance : Wire.Message WriterSchema where
  empty := {}
  records := records
  absorb := absorb

end WriterSchema

/-- Rows, each as the bytes of a message. -/
structure RowBytes where
  rows : List (List UInt8) := []
deriving Repr, DecidableEq, Inhabited

namespace RowBytes

/-- The rows one by one, empty ones too. -/
def records (r : RowBytes) : List Record := repeated 1 Payload.bytes r.rows

/-- Takes one record into the rows, which is a further row. -/
def absorb (depth : Nat) (r : RowBytes) : Record → Option RowBytes
  | (1, p) => p.bytes?.map fun b => { r with rows := r.rows ++ [b] }
  | _ => unknown depth r

instance : Wire.Message RowBytes where
  empty := {}
  records := records
  absorb := absorb

end RowBytes

/-- Rows and the descriptor they are written by. -/
structure RowData where
  schema : Option WriterSchema := none
  rows : Option RowBytes := none
deriving Repr, DecidableEq, Inhabited

namespace RowData

/-- The schema and the rows, each where it is set. -/
def records (d : RowData) : List Record :=
  optional 1 messagePayload d.schema ++ optional 2 messagePayload d.rows

/-- Takes one record into the data; schema and rows are merged into those there. -/
def absorb (depth : Nat) (d : RowData) : Record → Option RowData
  | (1, p) => (nested depth (d.schema.getD {}) p).map fun s => { d with schema := some s }
  | (2, p) => (nested depth (d.rows.getD {}) p).map fun r => { d with rows := some r }
  | _ => unknown depth d

instance : Wire.Message RowData where
  empty := {}
  records := records
  absorb := absorb

end RowData

/-- How a value that a row leaves out is read. -/
inductive MissingValue where
  | unspecified
  | null
  | default
deriving Repr, DecidableEq, Inhabited

/-- The number of the choice. -/
def MissingValue.number : MissingValue → Int32
  | .unspecified => 0
  | .null => 1
  | .default => 2

/-- The entry of a map from columns to numbers. -/
structure Entry where
  key : String := ""
  value : Int32 := 0
deriving Repr, DecidableEq, Inhabited

namespace Entry

/-- Key and value, each left out at its default. -/
def records (e : Entry) : List Record := text 1 e.key ++ int32 2 e.value

/-- Takes one record into the entry. -/
def absorb (depth : Nat) (e : Entry) : Record → Option Entry
  | (1, p) => p.text?.map fun s => { e with key := s }
  | (2, p) => p.int32?.map fun n => { e with value := n }
  | _ => unknown depth e

instance : Wire.Message Entry where
  empty := {}
  records := records
  absorb := absorb

end Entry

/-- A request to append rows to a stream, perhaps at an offset. -/
structure AppendRequest where
  stream : String := ""
  offset : Option Wrapped := none
  data : Option RowData := none
  traceId : String := ""
  missingValues : Keyed Int32 := []
  defaultMissingValue : Int32 := 0
deriving Repr, DecidableEq, Inhabited

namespace AppendRequest

/-- The members that differ from their defaults, and the entries of the map one by one. -/
def records (r : AppendRequest) : List Record :=
  text 1 r.stream ++
  optional 2 messagePayload r.offset ++
  optional 4 messagePayload r.data ++
  text 6 r.traceId ++
  repeated 7 messagePayload (r.missingValues.map fun (column, n) => Entry.mk column n) ++
  int32 8 r.defaultMissingValue

/-- Takes one record into the request. Rows are merged into those there, and an entry of the map
replaces one with its key. -/
def absorb (depth : Nat) (r : AppendRequest) : Record → Option AppendRequest
  | (1, p) => p.text?.map fun s => { r with stream := s }
  | (2, p) => (nested depth (r.offset.getD {}) p).map fun n => { r with offset := some n }
  | (4, p) => (nested depth (r.data.getD {}) p).map fun d => { r with data := some d }
  | (6, p) => p.text?.map fun s => { r with traceId := s }
  | (7, p) =>
    (nested depth ({} : Entry) p).map fun e =>
      { r with missingValues := Keyed.put e.key e.value r.missingValues }
  | (8, p) => p.int32?.map fun n => { r with defaultMissingValue := n }
  | _ => unknown depth r

instance : Wire.Message AppendRequest where
  empty := {}
  records := records
  absorb := absorb
  counted := (· == 7)

/-- The offset at which the rows are to be appended. -/
def offsetValue (r : AppendRequest) : Option Int64 := r.offset.map (·.value)

end AppendRequest

/-- Why a row of a request was refused. -/
structure RowError where
  index : Int64 := 0
  code : Int32 := 0
  message : String := ""
deriving Repr, DecidableEq, Inhabited

namespace RowError

/-- The members that differ from their defaults. -/
def records (e : RowError) : List Record :=
  int64 1 e.index ++ int32 2 e.code ++ text 3 e.message

/-- Takes one record into the error of a row. -/
def absorb (depth : Nat) (e : RowError) : Record → Option RowError
  | (1, p) => p.int64?.map fun n => { e with index := n }
  | (2, p) => p.int32?.map fun n => { e with code := n }
  | (3, p) => p.text?.map fun s => { e with message := s }
  | _ => unknown depth e

instance : Wire.Message RowError where
  empty := {}
  records := records
  absorb := absorb

end RowError

/-- The acknowledgement of a request, with the offset of its rows where the stream has offsets. -/
structure Acknowledgement where
  offset : Option Wrapped := none
deriving Repr, DecidableEq, Inhabited

namespace Acknowledgement

/-- The offset, where there is one, at zero too. -/
def records (a : Acknowledgement) : List Record := optional 1 messagePayload a.offset

/-- Takes one record into the acknowledgement. -/
def absorb (depth : Nat) (a : Acknowledgement) : Record → Option Acknowledgement
  | (1, p) => (nested depth (a.offset.getD {}) p).map fun n => { a with offset := some n }
  | _ => unknown depth a

instance : Wire.Message Acknowledgement where
  empty := {}
  records := records
  absorb := absorb

end Acknowledgement

/-- What a response says of its request. -/
inductive Verdict where
  | acknowledged (a : Acknowledgement)
  | refused (s : Status)
deriving Repr, DecidableEq, Inhabited

/-- The record of the verdict, whose number tells which of the two it is. -/
def Verdict.record : Verdict → Record
  | .acknowledged a => (1, messagePayload a)
  | .refused s => (2, messagePayload s)

/-- A response to a request to append rows. -/
structure AppendResponse where
  verdict : Option Verdict := none
  updatedSchema : Option Table.Schema := none
  rowErrors : List RowError := []
  stream : String := ""
deriving Repr, Inhabited

namespace AppendResponse

/-- The verdict first, then the other members that are set. -/
def records (r : AppendResponse) : List Record :=
  r.verdict.toList.map Verdict.record ++
  optional 3 messagePayload r.updatedSchema ++
  repeated 4 messagePayload r.rowErrors ++
  text 5 r.stream

/-- The acknowledgement so far, that a further one is merged into. -/
def acknowledgement (r : AppendResponse) : Acknowledgement :=
  match r.verdict with
  | some (.acknowledged a) => a
  | _ => {}

/-- The refusal so far, that a further one is merged into. -/
def refusal (r : AppendResponse) : Status :=
  match r.verdict with
  | some (.refused s) => s
  | _ => {}

/-- Takes one record into the response. A verdict is merged into one of its own sort and replaces
the other. -/
def absorb (depth : Nat) (r : AppendResponse) : Record → Option AppendResponse
  | (1, p) =>
    (nested depth r.acknowledgement p).map fun a => { r with verdict := some (.acknowledged a) }
  | (2, p) => (nested depth r.refusal p).map fun s => { r with verdict := some (.refused s) }
  | (3, p) =>
    (nested depth (r.updatedSchema.getD {}) p).map fun s => { r with updatedSchema := some s }
  | (4, p) =>
    (nested depth ({} : RowError) p).map fun e => { r with rowErrors := r.rowErrors ++ [e] }
  | (5, p) => p.text?.map fun s => { r with stream := s }
  | _ => unknown depth r

instance : Wire.Message AppendResponse where
  empty := {}
  records := records
  absorb := absorb

/-- The offset that the response acknowledges. -/
def acknowledgedOffset (r : AppendResponse) : Option Int64 :=
  match r.verdict with
  | some (.acknowledged a) => a.offset.map (·.value)
  | _ => none

/-- The status that the response refuses its request with. -/
def error (r : AppendResponse) : Option Status :=
  match r.verdict with
  | some (.refused s) => some s
  | _ => none

/-- The response that acknowledges a request and says nothing else. -/
def acknowledge (offset : Option Int64) : AppendResponse :=
  { verdict := some (.acknowledged ⟨offset.map Wrapped.mk⟩) }

end AppendResponse

end RowStream.Service
