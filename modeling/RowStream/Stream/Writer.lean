import RowStream.Stream.Connection

/-!
# Writers

A writer sends rows that are bytes already, each request with the descriptor that the rows are
written by. A new descriptor replaces the channel, so that the rows that it describes go out on a
fresh one.

* `request`: the request for rows.
* `append`: the request is written.
* `setDescriptor`: another descriptor, on another channel.
-/

namespace RowStream.Stream

open Service (AppendRequest MissingValue)

/-- A writer: its descriptor, and what its requests say of missing values. -/
structure Writer where
  descriptor : Descriptor.Message
  defaultMissingValue : Option MissingValue := none
  missingValues : Keyed MissingValue := []
deriving Repr, DecidableEq, Inhabited

namespace Writer

/-- The request for rows, perhaps at an offset. -/
def request (w : Writer) (stream : String) (rows : List (List UInt8)) (offset : Option Int64) :
    AppendRequest where
  stream := stream
  offset := offset.map Service.Wrapped.mk
  data := some { schema := some ⟨some w.descriptor⟩, rows := some ⟨rows⟩ }
  missingValues := w.missingValues.map fun (column, m) => (column, m.number)
  defaultMissingValue := (w.defaultMissingValue.map MissingValue.number).getD 0

/-- Sends rows on a connection; the number of the write comes back. -/
def append (w : Writer) (c : Connection) (rows : List (List UInt8)) (offset : Option Int64) :
    Nat × Connection :=
  c.write (w.request c.streamId rows offset)

/-- Changes the descriptor, and says whether it is another one. -/
def setDescriptor (w : Writer) (c : Connection) (d : Descriptor.Message) :
    Bool × Writer × Connection :=
  if d = w.descriptor then (false, w, c) else (true, { w with descriptor := d }, c.reconnect)

end Writer

end RowStream.Stream
