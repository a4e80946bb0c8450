import RowStream.Service.Memory
import RowStream.Stream.RowWriter

/-!
# Clients

A client creates streams and the connections that append to them. Which stream a connection writes
to is given by its id, or by a type and a table for a stream that is created first. The client
keeps track of its connections by number, without keeping them alive.

* `createStream`, `getStream`, `commit`: calls of the service.
* `resolveStream`, `connect`: the stream of a destination, and a connection to it.
* `track`: the connections that are still held.
* `Connection.flush`, `Connection.finalize`: calls for the stream of a connection.

Out of scope: the transport that carries the calls, and the log.
-/

namespace RowStream.Stream

open Service (CallError CommitResponse Failure Memory StreamType WriteStream)
open Config (ConnectionOptions WriterConfig)

/-- Why a client did not do what it was asked. -/
inductive ClientError where
  | missingTable
  | missingStreamId
  | call (f : Failure)
  | connection (e : WriteError)
  | shape (e : Shape.Error)
deriving Repr, DecidableEq

/-- What is said of the error. -/
def ClientError.message : ClientError → String
  | .missingTable => "a destination table is required for the default stream"
  | .missingStreamId => "either a stream id or a stream type and destination table is required"
  | .call f => "rpc failed: " ++ f.text
  | .connection e => e.message
  | .shape e => e.message

/-- Which stream a connection writes to, and its settings if they are not the client's. -/
structure Destination where
  streamId : Option String := none
  streamType : Option StreamType := none
  table : Option String := none
  options : Option ConnectionOptions := none
deriving Repr, DecidableEq, Inhabited

namespace Destination

/-- A stream that is there. -/
def stream (id : String) : Destination := { streamId := some id }

/-- The default stream of a table. -/
def tableDefault (table : String) : Destination :=
  { streamId := some defaultStream, table := some table }

/-- A new stream of a table. -/
def newStream (type : StreamType) (table : String) : Destination :=
  { streamType := some type, table := some table }

end Destination

/-- A client: its settings, and the numbers of the connections it tracks, oldest first. -/
structure Client where
  config : WriterConfig := {}
  tracked : List Nat := []
deriving Repr, DecidableEq, Inhabited

namespace Client

/-- An answer of the service, or the failure that its error is. -/
def called {α : Type} : Except CallError α × Memory → Except ClientError α × Memory
  | (.ok a, m) => (.ok a, m)
  | (.error e, m) => (.error (.call (Failure.ofCall e)), m)

/-- Looks up a stream by its id. -/
def getStream (m : Memory) (id : String) (view : Int32) : Except ClientError WriteStream × Memory :=
  called (m.get { name := id, view := view })

/-- Creates a stream; the default stream is looked up instead. -/
def createStreamFull (m : Memory) (type : StreamType) (table : String) :
    Except ClientError WriteStream × Memory :=
  match type with
  | .default => getStream m (defaultStreamPath table) Service.GetRequest.basicView
  | type => called (m.create { parent := table, stream := some { type := type.number } })

/-- Creates a stream and gives its id; that of the default stream needs no call. -/
def createStream (m : Memory) (type : StreamType) (table : String) :
    Except ClientError String × Memory :=
  match type with
  | .default => (.ok (defaultStreamPath table), m)
  | type =>
    match createStreamFull m type table with
    | (.ok stream, m) => (.ok stream.name, m)
    | (.error e, m) => (.error e, m)

/-- Commits streams of a table. -/
def commit (m : Memory) (table : String) (streams : List String) :
    Except ClientError CommitResponse × Memory :=
  called (m.commit { parent := table, streams := streams })

/-- The id of the stream that a connection writes to, created if need be. -/
def resolveStream (m : Memory) (d : Destination) : Except ClientError String × Memory :=
  match d.streamId, d.streamType, d.table with
  | some id, _, table =>
    if id = defaultStream then
      match table with
      | some table => (.ok (defaultStreamPath table), m)
      | none => (.error .missingTable, m)
    else (.ok id, m)
  | none, some type, some table => createStream m type table
  | none, some .default, none => (.error .missingTable, m)
  | none, _, _ => (.error .missingStreamId, m)

/-- A new connection to the stream of a destination. -/
def connect (client : Client) (m : Memory) (d : Destination) :
    Except ClientError Connection × Memory :=
  match resolveStream m d with
  | (.error e, m) => (.error e, m)
  | (.ok id, m) =>
    match Connection.create id (d.options.getD client.config.connection) with
    | .ok c => (.ok c, m)
    | .error e => (.error (.connection e), m)

/-- Tracks a new connection and forgets those that are gone. -/
def track (client : Client) (isAlive : Nat → Bool) (connection : Nat) : Client :=
  { client with tracked := client.tracked.filter isAlive ++ [connection] }

/-- What the requests of the client's writers say of missing values by default. -/
def defaultMissingValue (client : Client) : Option Service.MissingValue :=
  client.config.defaultMissingValue.map Config.MissingValue.interpretation

/-- A writer with the client's settings. -/
def writer (client : Client) (d : Descriptor.Message) : Writer :=
  { descriptor := d, defaultMissingValue := client.defaultMissingValue }

/-- A row writer with the client's settings. -/
def rowWriter (client : Client) (c : Connection) (d : Descriptor.Message) :
    Except ClientError RowWriter :=
  match RowWriter.create c d with
  | .ok w =>
    .ok { w with writer := { w.writer with defaultMissingValue := client.defaultMissingValue } }
  | .error e => .error (.shape e)

/-- The client in one line: its settings, and how many connections it tracks. -/
def describe (client : Client) : String :=
  "WriterClient \x7b config: " ++ client.config.describe ++ ", connections: " ++
    toString client.tracked.length ++ ", .. \x7d"

end Client

/-- Makes the rows of a buffered stream visible; the channel is closed first, and the default
stream needs no call. -/
def Connection.flush (c : Connection) (m : Memory) (offset : Int64) :
    Except WriteError (Option Int64) × Connection × Memory :=
  let c := c.close
  if c.isDefault then (.ok none, c, m)
  else
    match m.flush { stream := c.streamId, offset := some ⟨offset⟩ } with
    | (.ok r, m) => (.ok (some r.offset), c, m)
    | (.error e, m) => (.error (.call (Failure.ofCall e)), c, m)

/-- Ends the stream; the channel is closed first, and the default stream needs no call. -/
def Connection.finalize (c : Connection) (m : Memory) :
    Except WriteError (Option Int64) × Connection × Memory :=
  let c := c.close
  if c.isDefault then (.ok none, c, m)
  else
    match m.finalize { name := c.streamId } with
    | (.ok r, m) => (.ok (some r.rowCount), c, m)
    | (.error e, m) => (.error (.call (Failure.ofCall e)), c, m)

/-- The connection in one line, by its stream. -/
def Connection.describe (c : Connection) : String :=
  "StreamConnection \x7b stream_id: " ++ Text.Quoted.encode c.streamId ++ ", .. \x7d"

end RowStream.Stream
