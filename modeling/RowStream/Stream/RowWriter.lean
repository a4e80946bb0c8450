import RowStream.Row.Encoder
import RowStream.Row.Json
import RowStream.Shape.Inline
import RowStream.Stream.Writer

/-!
# Row writers

A row writer encodes rows and sends them. It listens to its connection: before it encodes, it
switches to the schemas that the service has reported since, one after the other, and where it
missed some of them to the latest.

* `append`, `appendJson`: rows are encoded and sent.
* `applyEvents`: the schemas that were reported since.
* `setDescriptor`, `setTableSchema`: another descriptor by hand.

Out of scope: the log.
-/

namespace RowStream.Stream

/-- Why rows were not sent. -/
inductive RowWriterError where
  | encode (e : Encoder.Error)
  | shape (e : Shape.Error)
  | notAnObject (row : Nat)
deriving Repr, DecidableEq

/-- What is said of the error. -/
def RowWriterError.message : RowWriterError → String
  | .encode e => e.message
  | .shape e => e.message
  | .notAnObject row => "row " ++ toString row ++ " is not a JSON object"

/-- The scope that reported schemas are compiled in. -/
def rootScope : String := "root"

/-- A writer of rows: an encoder beside a writer with the same descriptor, and its place among the
events of the connection. -/
structure RowWriter where
  writer : Writer
  encoder : Encoder
  subscription : Subscription
deriving Repr, Inhabited

namespace RowWriter

/-- A row writer on a connection. -/
def create (c : Connection) (d : Descriptor.Message) : Except Shape.Error RowWriter :=
  (Shape.ofDescriptor d).map fun shape => ⟨{ descriptor := d }, { shape := shape }, c.subscribe⟩

/-- The row writer with dates converted or not. -/
def withDateConversion (w : RowWriter) (enabled : Bool) : RowWriter :=
  { w with encoder := { w.encoder with convertDates := enabled } }

/-- Switches encoder and writer to a descriptor. -/
def setDescriptor (w : RowWriter) (c : Connection) (d : Descriptor.Message) :
    Except Shape.Error (RowWriter × Connection) :=
  (Shape.ofDescriptor d).map fun shape =>
    let (_, writer, c) := w.writer.setDescriptor c d
    ({ w with writer := writer, encoder := { w.encoder with shape := shape } }, c)

/-- Switches to the descriptor of a table schema. -/
def setTableSchema (w : RowWriter) (c : Connection) (s : Table.Schema) :
    Except Shape.Error (RowWriter × Connection) :=
  match Shape.writerDescriptor s rootScope .proto2 with
  | .ok d => w.setDescriptor c d
  | .error e => .error e

/-- Passes one event. -/
def advance (w : RowWriter) : RowWriter :=
  { w with subscription := ⟨w.subscription.next + 1⟩ }

/-- Passes events, switching to each schema among them, up to the first that cannot be used. -/
def applyAll (w : RowWriter) (c : Connection) :
    List Event → Option Shape.Error × RowWriter × Connection
  | [] => (none, w, c)
  | .error _ :: es => w.advance.applyAll c es
  | .schemaUpdated s :: es =>
    match w.advance.setTableSchema c s with
    | .ok (w, c) => w.applyAll c es
    | .error e => (some e, w.advance, c)

/-- Switches to the latest schema that was reported. -/
def applyLatest (w : RowWriter) (c : Connection) : Option Shape.Error × RowWriter × Connection :=
  match c.latestSchema with
  | none => (none, w, c)
  | some s =>
    match w.setTableSchema c s with
    | .ok (w, c) => (none, w, c)
    | .error e => (some e, w, c)

/-- Takes the events that wait. -/
def applyEvents (w : RowWriter) (c : Connection) : Option Shape.Error × RowWriter × Connection :=
  let (missed, s) := w.subscription.catchUp c.published c.kept
  match applyAll { w with subscription := s } c (s.ahead c.published) with
  | (none, w, c) => if missed = 0 then (none, w, c) else w.applyLatest c
  | failed => failed

/-- Encodes and sends rows. The number of the write comes back, or why nothing was sent. -/
def append (w : RowWriter) (c : Connection) (rows : List Row) (offset : Option Int64) :
    Except RowWriterError Nat × RowWriter × Connection :=
  match w.applyEvents c with
  | (some e, w, c) => (.error (.shape e), w, c)
  | (none, w, c) =>
    match w.encoder.encode rows with
    | .error e => (.error (.encode e), w, c)
    | .ok encoded =>
      let (n, c) := w.writer.append c encoded offset
      (.ok n, w, c)

/-- The rows that JSON values are, or the number of the first that is no object. -/
def rowsOfJson (n : Nat) : List Json → Except Nat (List Row)
  | [] => .ok []
  | v :: vs =>
    match Row.ofJson? v with
    | some row => (rowsOfJson (n + 1) vs).map (row :: ·)
    | none => .error n

/-- Encodes and sends rows that are JSON objects. -/
def appendJson (w : RowWriter) (c : Connection) (rows : List Json) (offset : Option Int64) :
    Except RowWriterError Nat × RowWriter × Connection :=
  match rowsOfJson 0 rows with
  | .error n => (.error (.notAnObject n), w, c)
  | .ok rows => w.append c rows offset

end RowWriter

end RowStream.Stream
