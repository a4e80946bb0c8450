import RowStream.Simulation.World

/-!
# Steps

What the caller, the service and the holders of writes and subscriptions can do in a world, and
what each of them is answered. After a step the background runs, unless the step holds it back.

* `apply`: what a step does, and what it is answered.
* `step`: a step and the run of the background after it.
* `report`: the results that came since the last report.

Out of scope: two steps at once; a step ends before the next one starts.
-/

namespace RowStream.Simulation

open Config (ConnectionOptions WriterConfig)
open Service (AppendRequest AppendResponse Call CallError CommitResponse StreamType WriteStream)
open RowStream.Stream

/-- What a new handle is. -/
inductive Maker where
  | connection
  | writer (d : Descriptor.Message)
  | rowWriter (d : Descriptor.Message) (convertDates : Bool)
deriving Repr

/-- Rows as a writer or a row writer takes them. -/
inductive Rows where
  | bytes (rows : List (List UInt8))
  | rows (rows : List Row)
  | json (rows : List Json)
deriving Repr

/-- A step. -/
inductive Step where
  | createStream (type : StreamType) (table : String)
  | createStreamFull (type : StreamType) (table : String)
  | getStream (stream : String) (view : Int32)
  | commit (table : String) (streams : List String)
  | connect (name : String) (d : Destination) (maker : Maker)
  | connectRaw (name streamId : String) (options : ConnectionOptions)
  /-- Asks for the streams of the connections that are held, in the order in which they were made. The
  connections themselves are not handed out. -/
  | connections
  | clientClose
  | clientText
  | clientConfig
  | calls
  | appendsOpened
  | failNext (e : CallError)
  | failNextAppend (e : CallError)
  | accept (session : String)
  | take (session : String)
  | send (session : String) (i : Incoming)
  | isRead (session : String)
  | endSession (session : String)
  | result (write : Nat)
  | abort (write : Nat)
  | resolve (write : Nat) (r : AppendResponse)
  | retry (write : Nat)
  | writeText (write : Nat)
  | writeRequest (write : Nat)
  | subscribe (handle name : String)
  | drain (name : String)
  | unsubscribe (name : String)
  | write (handle : String) (r : AppendRequest)
  | openChannel (handle : String)
  | reconnect (handle : String)
  | close (handle : String)
  | pending (handle : String)
  | state (handle : String)
  | flush (handle : String) (offset : Int64)
  | finalize (handle : String)
  | drop (handle : String)
  | append (handle : String) (rows : Rows) (offset : Option Int64)
  | setDescriptor (handle : String) (d : Descriptor.Message)
  | setTableSchema (handle : String) (s : Table.Schema)
  | setDefaultMissingValue (handle : String) (m : Service.MissingValue)
  | setMissingValues (handle : String) (m : Keyed Service.MissingValue)
  | descriptor (handle : String)
deriving Repr

/-- Why a step was not done. -/
inductive Fault where
  | noHandle
  | noSession
  | noWrite
  | noSubscriber
  | badInput
  | client (e : ClientError)
  | write (e : WriteError)
  | rows (e : RowWriterError)
  | shape (e : Shape.Error)
deriving Repr

/-- What a step is answered. -/
inductive Answer where
  | done
  | fault (f : Fault)
  | made (id : String)
  | stream (s : WriteStream)
  | committed (r : CommitResponse)
  | ids (ids : List String)
  | text (s : String)
  | config (c : WriterConfig)
  | calls (calls : List Call)
  | count (n : Nat)
  | flag (b : Bool)
  | noCall
  | call (header : Option String)
  | request (r : AppendRequest)
  | noRequest
  | requestsEnded
  | result (r : Option WriteResult)
  | retried (before after : Nat)
  | received (rs : List Received) (closed : Bool)
  | written (n : Nat)
  | offsets (ns : List (Option Int64))
  | state (c : Connection)
  | reached (n : Option Int64)
  | writerDescriptor (d : Descriptor.Message)
  | rowWriterDescriptor (d : Descriptor.Message) (shape : Shape)
deriving Repr

namespace World

/-! ## Making handles -/

/-- Opens and tracks a connection to a destination. -/
def connectTo (w : World) (d : Destination) : Except ClientError Nat × World :=
  match w.client.connect w.service d with
  | (.error e, service) => (.error e, { w with service := service })
  | (.ok c, service) =>
    let (id, w) := { w with service := service }.addConnection c
    (.ok id, { w with client := w.client.track w.isAlive id })

/-- The handle that a maker makes of a connection. -/
def make (w : World) (id : Nat) (c : Connection) : Maker → Except ClientError Handle
  | .connection => .ok (.connection id)
  | .writer d => .ok (.writer id (w.client.writer d))
  | .rowWriter d convertDates =>
    (w.client.rowWriter c d).map fun r => .rowWriter id (r.withDateConversion convertDates)

/-- Connects and gives a name to the handle made of the connection. -/
def connect (w : World) (name : String) (d : Destination) (maker : Maker) : Answer × World :=
  match w.connectTo d with
  | (.error e, w) => (.fault (.client e), w)
  | (.ok id, w) =>
    match w.connections[id]? with
    | none => (.fault .badInput, w)
    | some c =>
      match w.make id c maker with
      | .ok h => (.made c.streamId, w.setHandle name h)
      | .error e => (.fault (.client e), w.updateConnection id Connection.release)

/-- Connects without the client. -/
def connectRaw (w : World) (name streamId : String) (options : ConnectionOptions) :
    Answer × World :=
  match Connection.create streamId options with
  | .error e => (.fault (.write e), w)
  | .ok c =>
    let (id, w) := w.addConnection c
    (.made c.streamId, w.setHandle name (.connection id))

/-! ## Using handles -/

/-- Does something with a handle and its connection. -/
def withHandle (w : World) (name : String) (f : Handle → Connection → Answer × World) :
    Answer × World :=
  match Keyed.get? w.handles name with
  | none => (.fault .noHandle, w)
  | some h =>
    match w.connections[h.id]? with
    | none => (.fault .noHandle, w)
    | some c => f h c

/-- Changes the connection of a handle. -/
def changeConnection (w : World) (name : String) (f : Connection → Connection) : Answer × World :=
  w.withHandle name fun h c => (.done, w.setConnection h.id (f c))

/-- Puts back a handle that changed. -/
def keepHandle (w : World) (name : String) (h : Handle) : World :=
  { w with handles := Keyed.put name h w.handles }

/-- Puts back a handle and its connection. -/
def putBack (w : World) (name : String) (h : Handle) (c : Connection) : World :=
  (w.keepHandle name h).setConnection h.id c

/-- The answer to a write of a connection, which is numbered. -/
def answerWrite (w : World) (connection write : Nat) : Answer × World :=
  let (n, w) := w.addWrite connection write
  (.written n, w)

/-- Appends rows through a handle that takes rows of this form. -/
def append (w : World) (name : String) (rows : Rows) (offset : Option Int64) : Answer × World :=
  w.withHandle name fun h c =>
    match h, rows with
    | .writer id writer, .bytes rows =>
      let (n, c) := writer.append c rows offset
      (w.setConnection id c).answerWrite id n
    | .rowWriter id writer, .rows rows => finish id (writer.append c rows offset)
    | .rowWriter id writer, .json rows => finish id (writer.appendJson c rows offset)
    | _, _ => (.fault .badInput, w)
where
  /-- Puts back what an append leaves, and numbers its write. -/
  finish (id : Nat) (r : Except RowWriterError Nat × RowWriter × Connection) : Answer × World :=
    let (result, writer, c) := r
    let w := w.putBack name (.rowWriter id writer) c
    match result with
    | .ok n => w.answerWrite id n
    | .error e => (.fault (.rows e), w)

/-- Puts back a row writer that changed its descriptor, or tells why it did not. -/
def answerChange (w : World) (name : String) (id : Nat) :
    Except Shape.Error (RowWriter × Connection) → Answer × World
  | .ok (writer, c) => (.done, w.putBack name (.rowWriter id writer) c)
  | .error e => (.fault (.shape e), w)

/-- Changes the descriptor of a handle. A writer tells whether it was another; a row writer refuses
one that has no shape and stays as it was. -/
def setDescriptor (w : World) (name : String) (d : Descriptor.Message) : Answer × World :=
  w.withHandle name fun h c =>
    match h with
    | .connection _ => (.fault .badInput, w)
    | .writer id writer =>
      let (changed, writer, c) := writer.setDescriptor c d
      (.flag changed, w.putBack name (.writer id writer) c)
    | .rowWriter id writer => w.answerChange name id (writer.setDescriptor c d)

/-- Changes the schema of a row writer; no other handle has one. -/
def setTableSchema (w : World) (name : String) (s : Table.Schema) : Answer × World :=
  w.withHandle name fun h c =>
    match h with
    | .rowWriter id writer => w.answerChange name id (writer.setTableSchema c s)
    | _ => (.fault .badInput, w)

/-- Changes what a writer says of missing values. -/
def changeWriter (w : World) (name : String) (f : Writer → Writer) : Answer × World :=
  w.withHandle name fun h _ =>
    match h with
    | .connection _ => (.fault .badInput, w)
    | .writer id writer => (.done, w.keepHandle name (.writer id (f writer)))
    | .rowWriter id writer =>
      (.done, w.keepHandle name (.rowWriter id { writer with writer := f writer.writer }))

/-- The descriptor of a writer, and the shape of a row writer beside it. -/
def descriptor (w : World) (name : String) : Answer × World :=
  w.withHandle name fun h _ =>
    match h with
    | .connection _ => (.fault .badInput, w)
    | .writer _ writer => (.writerDescriptor writer.descriptor, w)
    | .rowWriter _ writer =>
      (.rowWriterDescriptor writer.writer.descriptor writer.encoder.shape, w)

/-! ## The service -/

/-- Does something with an accepted session. -/
def withSession (w : World) (name : String) (f : Nat → Session → Answer × World) :
    Answer × World :=
  match Keyed.get? w.accepted name with
  | none => (.fault .noSession, w)
  | some n =>
    match w.sessions[n]? with
    | none => (.fault .noSession, w)
    | some s => f n s

/-- Accepts the oldest call that is offered, under a name. -/
def accept (w : World) (name : String) : Answer × World :=
  match w.offered with
  | [] => (.noCall, w)
  | n :: ns =>
    match w.sessions[n]? with
    | none => (.noCall, w)
    | some s =>
      let w := { w with offered := ns }.forgetSession name
      (.call (if isPlainHeader s.header then some s.header else none),
        { w with accepted := Keyed.put name n w.accepted })

/-- Takes the next request of a call. -/
def take (w : World) (name : String) : Answer × World :=
  w.withSession name fun n s =>
    match w.channel? s with
    | none => (.requestsEnded, w)
    | some ch =>
      match ch.sent[s.taken]? with
      | some sent => (.request sent.request, w.setSession n { s with taken := s.taken + 1 })
      | none => (if ch.sending then .noRequest else .requestsEnded, w)

/-! ## Writes and subscribers -/

/-- Does something with a write. -/
def withWrite (w : World) (n : Nat) (f : PendingWrite → Answer × World) : Answer × World :=
  match w.write? n with
  | some p => f p
  | none => (.fault .noWrite, w)

/-- Resolves a write from outside, and says whether it had no result. -/
def resolveWrite (w : World) (n : Nat) (r : WriteResult) : Answer × World :=
  w.withWrite n fun p => (.flag (!p.isDone), w.updateWrite n fun p => p.resolve r)

/-- Hands out the events that a subscriber has not seen. -/
def drain (w : World) (name : String) : Answer × World :=
  match Keyed.get? w.subscribers name with
  | none => (.fault .noSubscriber, w)
  | some (id, s) =>
    match w.connections[id]? with
    | none => (.fault .noSubscriber, w)
    | some c =>
      let (received, s) := s.drain c.published c.kept
      (.received received (!c.alive),
        { w with subscribers := Keyed.put name (id, s) w.subscribers })

/-- The answer of the client to a call. -/
def answerCall {α : Type} (w : World) (f : α → Answer) (r : Except ClientError α × Service.Memory) :
    Answer × World :=
  match r with
  | (.ok a, service) => (f a, { w with service := service })
  | (.error e, service) => (.fault (.client e), { w with service := service })

/-- The answer to a call that closed the connection of a handle first. -/
def answerReached (w : World) (id : Nat)
    (r : Except WriteError (Option Int64) × Connection × Service.Memory) : Answer × World :=
  let (result, c, service) := r
  let w := { w with service := service }.setConnection id c
  match result with
  | .ok n => (.reached n, w)
  | .error e => (.fault (.write e), w)

/-- Closes every tracked connection that is still held. -/
def closeAll (w : World) : World :=
  let alive := w.client.tracked.filter w.isAlive
  alive.foldl (fun w id => w.updateConnection id Connection.close)
    { w with client := { w.client with tracked := [] } }

/-- Does a step, without the background. -/
def apply (w : World) : Step → Answer × World
  | .createStream type table =>
    w.answerCall .made (Client.createStream w.service type table)
  | .createStreamFull type table =>
    w.answerCall .stream (Client.createStreamFull w.service type table)
  | .getStream stream view => w.answerCall .stream (Client.getStream w.service stream view)
  | .commit table streams => w.answerCall .committed (Client.commit w.service table streams)
  | .connect name d maker => w.connect name d maker
  | .connectRaw name streamId options => w.connectRaw name streamId options
  | .connections =>
    let alive := w.client.tracked.filter w.isAlive
    (.ids (alive.filterMap fun id => (w.connections[id]?).map (·.streamId)), w)
  | .clientClose => (.done, w.closeAll)
  | .clientText => (.text w.client.describe, w)
  | .clientConfig => (.config w.client.config, w)
  | .calls => (.calls w.service.calls, w)
  | .appendsOpened => (.count w.service.appendsOpened, w)
  | .failNext e => (.done, { w with service := w.service.failNext e })
  | .failNextAppend e => (.done, { w with service := w.service.failNextAppend e })
  | .accept name => w.accept name
  | .take name => w.take name
  | .send name i =>
    w.withSession name fun n _ =>
      let (taken, w) := w.send n i
      (.flag taken, w)
  | .isRead name => w.withSession name fun _ s => (.flag s.reads, w)
  | .endSession name => w.withSession name fun _ _ => (.done, w.forgetSession name)
  | .result n => w.withWrite n fun p => (.result p.result, w)
  | .abort n => w.resolveWrite n (.error .aborted)
  | .resolve n r => w.resolveWrite n (.ok r)
  | .retry n =>
    w.withWrite n fun p =>
      (.retried p.retries p.retry.retries, w.updateWrite n PendingWrite.retry)
  | .writeText n => w.withWrite n fun p => (.text p.describe, w)
  | .writeRequest n => w.withWrite n fun p => (.request p.request, w)
  | .subscribe handle name =>
    w.withHandle handle fun h c =>
      (.done, { w with subscribers := Keyed.put name (h.id, c.subscribe) w.subscribers })
  | .drain name => w.drain name
  | .unsubscribe name =>
    match Keyed.get? w.subscribers name with
    | none => (.fault .noSubscriber, w)
    | some _ => (.done, { w with subscribers := w.subscribers.filter fun e => e.1 != name })
  | .write handle r =>
    w.withHandle handle fun h c =>
      let (n, c) := c.write r
      (w.setConnection h.id c).answerWrite h.id n
  | .openChannel handle => w.changeConnection handle Connection.connect
  | .reconnect handle => w.changeConnection handle Connection.reconnect
  | .close handle => w.changeConnection handle Connection.close
  | .pending handle =>
    w.withHandle handle fun _ c => (.offsets (c.pending.map fun p => p.request.offsetValue), w)
  | .state handle => w.withHandle handle fun _ c => (.state c, w)
  | .flush handle offset =>
    w.withHandle handle fun h c => w.answerReached h.id (c.flush w.service offset)
  | .finalize handle => w.withHandle handle fun h c => w.answerReached h.id (c.finalize w.service)
  | .drop handle => w.withHandle handle fun _ _ => (.flag true, w.dropHandle handle)
  | .append handle rows offset => w.append handle rows offset
  | .setDescriptor handle d => w.setDescriptor handle d
  | .setTableSchema handle s => w.setTableSchema handle s
  | .setDefaultMissingValue handle m =>
    w.changeWriter handle fun writer => { writer with defaultMissingValue := some m }
  | .setMissingValues handle m =>
    w.changeWriter handle fun writer => { writer with missingValues := m }
  | .descriptor handle => w.descriptor handle

/-! ## Reports -/

/-- What is told after a step: for every handle whether its connection is open and how many of its
writes are unanswered, and the writes that got their result since the last report. -/
structure Report where
  answer : Answer
  handles : Keyed (Bool × Nat)
  resolved : List (Nat × WriteResult)
deriving Repr

/-- The result of a write that has one. -/
def resultOf (w : World) (n : Nat) : Option WriteResult :=
  match w.write? n with
  | some p => p.result
  | none => none

/-- The state of the handles. -/
def handleStates (w : World) : Keyed (Bool × Nat) :=
  w.handles.filterMap fun (name, h) =>
    (w.connections[h.id]?).map fun c => (name, (c.isOpen, c.queue.length))

/-- Reports, and forgets what has been reported. -/
def report (w : World) (answer : Answer) : Report × World :=
  let resolved := w.unreported.filterMap fun n => (w.resultOf n).map fun r => (n, r)
  (⟨answer, w.handleStates, resolved⟩,
    { w with unreported := w.unreported.filter fun n => (w.resultOf n).isNone })

/-- Does a step; the background runs after it unless it is held back. -/
def step (w : World) (s : Step) (hold : Bool) : Report × World :=
  let (answer, w) := w.apply s
  (if hold then w else w.settle).report answer

/-- The world at the start, with the settings of its client. -/
def start (config : WriterConfig) : World :=
  { client := { config := config } }

end World

end RowStream.Simulation
