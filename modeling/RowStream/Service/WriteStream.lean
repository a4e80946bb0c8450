import RowStream.Service.Append

/-!
# Streams of a table

The calls that create, look up, flush, finalize and commit the streams that rows are appended to.

* `WriteStream`: a stream.
* one request and one response for each call.

Out of scope: the transport that carries the calls.
-/

namespace RowStream.Service

open Wire

/-- A point in time. -/
structure Timestamp where
  seconds : Int64 := 0
  nanos : Int32 := 0
deriving Repr, DecidableEq, Inhabited

namespace Timestamp

/-- Seconds and nanoseconds, each left out at zero. -/
def records (t : Timestamp) : List Record := int64 1 t.seconds ++ int32 2 t.nanos

/-- Takes one record into the point in time. -/
def absorb (depth : Nat) (t : Timestamp) : Record → Option Timestamp
  | (1, p) => p.int64?.map fun n => { t with seconds := n }
  | (2, p) => p.int32?.map fun n => { t with nanos := n }
  | _ => unknown depth t

instance : Wire.Message Timestamp where
  empty := {}
  records := records
  absorb := absorb

end Timestamp

/-- The types of streams. -/
inductive StreamType where
  | default
  | committed
  | pending
  | buffered
deriving Repr, DecidableEq, Inhabited

/-- The number of the type; that of the default stream is the default. -/
def StreamType.number : StreamType → Int32
  | .default => 0
  | .committed => 1
  | .pending => 2
  | .buffered => 3

/-- A stream of a table. -/
structure WriteStream where
  name : String := ""
  type : Int32 := 0
  createTime : Option Timestamp := none
  commitTime : Option Timestamp := none
  tableSchema : Option Table.Schema := none
  location : String := ""
deriving Repr, Inhabited

namespace WriteStream

/-- The members of a stream that differ from their defaults. -/
def records (s : WriteStream) : List Record :=
  text 1 s.name ++
  int32 2 s.type ++
  optional 3 messagePayload s.createTime ++
  optional 4 messagePayload s.commitTime ++
  optional 5 messagePayload s.tableSchema ++
  text 8 s.location

/-- Takes one record into a stream; times and schema are merged into those there. -/
def absorb (depth : Nat) (s : WriteStream) : Record → Option WriteStream
  | (1, p) => p.text?.map fun t => { s with name := t }
  | (2, p) => p.int32?.map fun n => { s with type := n }
  | (3, p) => (nested depth (s.createTime.getD {}) p).map fun t => { s with createTime := some t }
  | (4, p) => (nested depth (s.commitTime.getD {}) p).map fun t => { s with commitTime := some t }
  | (5, p) => (nested depth (s.tableSchema.getD {}) p).map fun t => { s with tableSchema := some t }
  | (8, p) => p.text?.map fun t => { s with location := t }
  | _ => unknown depth s

instance : Wire.Message WriteStream where
  empty := {}
  records := records
  absorb := absorb

end WriteStream

/-- Creates a stream of a table. -/
structure CreateRequest where
  parent : String := ""
  stream : Option WriteStream := none
deriving Repr, Inhabited

namespace CreateRequest

/-- The table, and the stream where one is given. -/
def records (r : CreateRequest) : List Record :=
  text 1 r.parent ++ optional 2 messagePayload r.stream

/-- Takes one record into the request; a further stream is merged into the one there. -/
def absorb (depth : Nat) (r : CreateRequest) : Record → Option CreateRequest
  | (1, p) => p.text?.map fun s => { r with parent := s }
  | (2, p) => (nested depth (r.stream.getD {}) p).map fun s => { r with stream := some s }
  | _ => unknown depth r

instance : Wire.Message CreateRequest where
  empty := {}
  records := records
  absorb := absorb

end CreateRequest

/-- Looks a stream up; the view says how much of it is told. -/
structure GetRequest where
  name : String := ""
  view : Int32 := 0
deriving Repr, DecidableEq, Inhabited

/-- The view that leaves the schema out. -/
def GetRequest.basicView : Int32 := 1

namespace GetRequest

/-- The name and the view, each left out at its default. -/
def records (r : GetRequest) : List Record := text 1 r.name ++ int32 3 r.view

/-- Takes one record into the request. -/
def absorb (depth : Nat) (r : GetRequest) : Record → Option GetRequest
  | (1, p) => p.text?.map fun s => { r with name := s }
  | (3, p) => p.int32?.map fun n => { r with view := n }
  | _ => unknown depth r

instance : Wire.Message GetRequest where
  empty := {}
  records := records
  absorb := absorb

end GetRequest

/-- Ends a stream, so that no more rows can be appended. -/
structure FinalizeRequest where
  name : String := ""
deriving Repr, DecidableEq, Inhabited

namespace FinalizeRequest

/-- The name, unless it is empty. -/
def records (r : FinalizeRequest) : List Record := text 1 r.name

/-- Takes one record into the request. -/
def absorb (depth : Nat) (r : FinalizeRequest) : Record → Option FinalizeRequest
  | (1, p) => p.text?.map fun s => { r with name := s }
  | _ => unknown depth r

instance : Wire.Message FinalizeRequest where
  empty := {}
  records := records
  absorb := absorb

end FinalizeRequest

/-- How many rows a finalized stream has. -/
structure FinalizeResponse where
  rowCount : Int64 := 0
deriving Repr, DecidableEq, Inhabited

namespace FinalizeResponse

/-- The count of rows, left out at zero. -/
def records (r : FinalizeResponse) : List Record := int64 1 r.rowCount

/-- Takes one record into the response. -/
def absorb (depth : Nat) (r : FinalizeResponse) : Record → Option FinalizeResponse
  | (1, p) => p.int64?.map fun n => { r with rowCount := n }
  | _ => unknown depth r

instance : Wire.Message FinalizeResponse where
  empty := {}
  records := records
  absorb := absorb

end FinalizeResponse

/-- Makes the rows of a buffered stream visible up to an offset. -/
structure FlushRequest where
  stream : String := ""
  offset : Option Wrapped := none
deriving Repr, DecidableEq, Inhabited

namespace FlushRequest

/-- The stream, and the offset where there is one, at zero too. -/
def records (r : FlushRequest) : List Record :=
  text 1 r.stream ++ optional 2 messagePayload r.offset

/-- Takes one record into the request. -/
def absorb (depth : Nat) (r : FlushRequest) : Record → Option FlushRequest
  | (1, p) => p.text?.map fun s => { r with stream := s }
  | (2, p) => (nested depth (r.offset.getD {}) p).map fun n => { r with offset := some n }
  | _ => unknown depth r

instance : Wire.Message FlushRequest where
  empty := {}
  records := records
  absorb := absorb

end FlushRequest

/-- The offset up to which rows are visible. -/
structure FlushResponse where
  offset : Int64 := 0
deriving Repr, DecidableEq, Inhabited

namespace FlushResponse

/-- The offset, left out at zero. -/
def records (r : FlushResponse) : List Record := int64 1 r.offset

/-- Takes one record into the response. -/
def absorb (depth : Nat) (r : FlushResponse) : Record → Option FlushResponse
  | (1, p) => p.int64?.map fun n => { r with offset := n }
  | _ => unknown depth r

instance : Wire.Message FlushResponse where
  empty := {}
  records := records
  absorb := absorb

end FlushResponse

/-- Commits streams of a table all at once. -/
structure CommitRequest where
  parent : String := ""
  streams : List String := []
deriving Repr, DecidableEq, Inhabited

namespace CommitRequest

/-- The table, and the names of the streams one by one. -/
def records (r : CommitRequest) : List Record :=
  text 1 r.parent ++ repeated 2 textPayload r.streams

/-- Takes one record into the request; a further name is appended. -/
def absorb (depth : Nat) (r : CommitRequest) : Record → Option CommitRequest
  | (1, p) => p.text?.map fun s => { r with parent := s }
  | (2, p) => p.text?.map fun s => { r with streams := r.streams ++ [s] }
  | _ => unknown depth r

instance : Wire.Message CommitRequest where
  empty := {}
  records := records
  absorb := absorb

end CommitRequest

/-- When the streams were committed, or why they were not. -/
structure CommitResponse where
  commitTime : Option Timestamp := none
  errors : List StorageError := []
deriving Repr, DecidableEq, Inhabited

namespace CommitResponse

/-- The time of the commit, and the errors of streams one by one. -/
def records (r : CommitResponse) : List Record :=
  optional 1 messagePayload r.commitTime ++ repeated 2 messagePayload r.errors

/-- Takes one record into the response; a further error is appended. -/
def absorb (depth : Nat) (r : CommitResponse) : Record → Option CommitResponse
  | (1, p) => (nested depth (r.commitTime.getD {}) p).map fun t => { r with commitTime := some t }
  | (2, p) =>
    (nested depth ({} : StorageError) p).map fun e => { r with errors := r.errors ++ [e] }
  | _ => unknown depth r

instance : Wire.Message CommitResponse where
  empty := {}
  records := records
  absorb := absorb

end CommitResponse

end RowStream.Service
