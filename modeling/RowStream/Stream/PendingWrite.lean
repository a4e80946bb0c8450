import RowStream.Config.Basic
import RowStream.Stream.Error

/-!
# Pending writes

A request that was handed to a connection, and what became of it. The first result stays; a later
one changes nothing. Beside it stands a counter of retries that nothing here reads.

* `resolve`: the first result stays.
* `retry`: one more on the counter.

Out of scope: waiting for the result, and the log.
-/

namespace RowStream.Stream

open Service (AppendRequest)

/-- A request and its result, once there is one. -/
structure PendingWrite where
  request : AppendRequest
  retries : Nat := 0
  result : Option WriteResult := none
deriving Repr, Inhabited

namespace PendingWrite

/-- The write has its result. -/
def isDone (w : PendingWrite) : Bool := w.result.isSome

/-- Gives the write a result, unless it has one. -/
def resolve (w : PendingWrite) (r : WriteResult) : PendingWrite :=
  match w.result with
  | some _ => w
  | none => { w with result := some r }

/-- Counts one more retry. -/
def retry (w : PendingWrite) : PendingWrite :=
  { w with retries := (w.retries + 1) % twoTo 32 }

/-- The write in one line: its stream, its offset, and whether it has a result. -/
def describe (w : PendingWrite) : String :=
  "PendingWrite \x7b write_stream: " ++ Text.Quoted.encode w.request.stream ++ ", offset: " ++
    Config.describeOption (fun n : Int64 => Integer.text n.toInt) w.request.offsetValue ++
    ", done: " ++ (if w.isDone then "true" else "false") ++ " \x7d"

end PendingWrite

end RowStream.Stream
