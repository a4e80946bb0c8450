import RowStream.Service.WriteStream

/-!
# A service in memory

A service that holds its streams in memory and keeps a record of the calls made to it. Failures can
be put in line; each call takes the first of them and fails with it. The names of streams are
numbered, and no number is given twice.

* `create`, `get`, `finalize`, `flush`, `commit`: the calls that are answered at once.
* `openAppend`: whether an append call is taken.
* `failNext`, `failNextAppend`: failures in line.

Out of scope: rows, offsets and tables; what an append call is answered is for the caller to say.
-/

namespace RowStream.Service

/-- A call that the service answers at once. -/
inductive Call where
  | create (r : CreateRequest)
  | get (r : GetRequest)
  | finalize (r : FinalizeRequest)
  | flush (r : FlushRequest)
  | commit (r : CommitRequest)
deriving Repr, Inhabited

/-- The service: its clock, the calls so far, its streams by name, the number of the last stream,
the failures in line, and how many append calls were made. -/
structure Memory where
  now : Timestamp := {}
  calls : List Call := []
  streams : Keyed WriteStream := []
  /-- The counter has 64 bits, so this is the same below `2 ^ 64` streams. -/
  lastStream : Nat := 0
  failures : List CallError := []
  appendFailures : List CallError := []
  appendsOpened : Nat := 0
deriving Repr, Inhabited

namespace Memory

/-- Puts a failure in line for the calls that are answered at once. -/
def failNext (m : Memory) (e : CallError) : Memory :=
  { m with failures := m.failures ++ [e] }

/-- Puts a failure in line for the append calls. -/
def failNextAppend (m : Memory) (e : CallError) : Memory :=
  { m with appendFailures := m.appendFailures ++ [e] }

/-- Records a call, which then fails or is answered. -/
def record {α : Type} (m : Memory) (call : Call) (answer : Memory → Except CallError α × Memory) :
    Except CallError α × Memory :=
  let m := { m with calls := m.calls ++ [call] }
  match m.failures with
  | e :: es => (.error e, { m with failures := es })
  | [] => answer m

/-- The failure of a call for a stream that is not there. -/
def notFound (name : String) : CallError :=
  { code := .notFound, message := "stream " ++ name ++ " not found" }

/-- The name of a stream of a table. -/
def streamName (parent : String) (n : Nat) : String := parent ++ "/streams/" ++ toString n

/-- Creates a stream. Its name and its time are the service's own, whatever the request says of
them. -/
def create (m : Memory) (r : CreateRequest) : Except CallError WriteStream × Memory :=
  m.record (.create r) fun m =>
    let n := m.lastStream + 1
    let name := streamName r.parent n
    let stream := { r.stream.getD {} with name := name, createTime := some m.now }
    (.ok stream, { m with lastStream := n, streams := Keyed.put name stream m.streams })

/-- Looks up a stream; how much of it is asked for makes no difference. -/
def get (m : Memory) (r : GetRequest) : Except CallError WriteStream × Memory :=
  m.record (.get r) fun m =>
    match Keyed.get? m.streams r.name with
    | some stream => (.ok stream, m)
    | none => (.error (notFound r.name), m)

/-- Ends a stream that is there. Rows are not counted, so none are told. -/
def finalize (m : Memory) (r : FinalizeRequest) : Except CallError FinalizeResponse × Memory :=
  m.record (.finalize r) fun m =>
    match Keyed.get? m.streams r.name with
    | some _ => (.ok { rowCount := 0 }, m)
    | none => (.error (notFound r.name), m)

/-- Tells the offset back, zero where the request has none; the stream need not be there. -/
def flush (m : Memory) (r : FlushRequest) : Except CallError FlushResponse × Memory :=
  m.record (.flush r) fun m => (.ok { offset := (r.offset.getD {}).value }, m)

/-- Commits those of the streams that are there. -/
def commit (m : Memory) (r : CommitRequest) : Except CallError CommitResponse × Memory :=
  m.record (.commit r) fun m =>
    let streams := m.streams.map fun (name, stream) =>
      (name, if r.streams.contains name then { stream with commitTime := some m.now } else stream)
    (.ok { commitTime := some m.now }, { m with streams := streams })

/-- Opens an append call, or fails it. -/
def openAppend (m : Memory) : Option CallError × Memory :=
  let m := { m with appendsOpened := m.appendsOpened + 1 }
  match m.appendFailures with
  | e :: es => (some e, { m with appendFailures := es })
  | [] => (none, m)

end Memory

end RowStream.Service
