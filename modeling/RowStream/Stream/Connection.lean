import RowStream.Stream.Channel
import RowStream.Stream.Event
import RowStream.Stream.PendingWrite

/-!
# Connections

A connection appends to one stream of a table. It keeps the queue of the writes that were sent and
not yet answered, oldest first, each with the generation of the channel that carries it. Responses
come in the order of the requests, so a response of a channel answers the oldest write that the
channel carries.

A channel lost to an error is shut down, and its writes go to the channel that takes its place:
they are sent again or they fail, as the options say. A channel replaced on request stays readable
until all its writes are answered.

* `create`, `connect`, `reconnect`, `close`, `release`: the life of a connection.
* `write`: a write is queued and sent, or refused.
* `onItem`, `onRefused`, `onEnded`: what a reader takes, and `handle` over all of it.
* `handOver`, `openChannel`: a channel in place of a lost one.

Out of scope: writes of several callers at once, which one lock puts in a line; a receiver of
requests that goes away while a call of the connection is under way; the end of the runtime; and the
log.
-/

namespace RowStream.Stream

open Service (AppendRequest AppendResponse CallError Failure)
open Config (ConnectionOptions)

/-- A write in the queue: the generation of the channel that carries it, and its number. -/
structure Queued where
  generation : Nat
  write : Nat
deriving Repr, DecidableEq, Inhabited

/-- The entry as it is once the channel `next` took the place of a lost one. -/
def Queued.retag (q : Queued) (lost next : Nat) : Queued :=
  if q.generation = lost then { q with generation := next } else q

/-- A result that a connection gave to a write; `taken` says that the write had none before. -/
structure Given where
  write : Nat
  result : WriteResult
  taken : Bool
deriving Repr

/-- A connection. `past` are the channels that were replaced or closed, oldest first, `writes` all
writes that it was given, `given` all results that it gave to them, `published` all events. It is
not `alive` once nothing holds it. -/
structure Connection where
  streamId : String
  options : ConnectionOptions
  /-- How often a channel was opened or the connection closed. The counter has 64 bits, so this is the
  same below `2 ^ 64`. -/
  generation : Nat := 0
  channel : Option Channel := none
  past : List Channel := []
  queue : List Queued := []
  writes : List PendingWrite := []
  given : List Given := []
  published : List Event := []
  latestSchema : Option Table.Schema := none
  alive : Bool := true
deriving Repr, Inhabited

/-- The name that stands for the default stream of a table. -/
def defaultStream : String := "_default"

/-- The path of the default stream of a table. -/
def defaultStreamPath (table : String) : String := table ++ "/streams/" ++ defaultStream

/-- The id names a default stream. -/
def isDefaultStream (id : String) : Bool :=
  id == defaultStream || Text.endsWith id ("/streams/" ++ defaultStream)

/-- The routing header of the calls of a stream. -/
def routingHeader (id : String) : String := "write_stream=" ++ id

/-- A header can carry the text: it holds no controls but tabs. -/
def isHeaderText (s : String) : Bool :=
  s.toList.all fun c => (32 ≤ c.toNat || c == '\t') && c.toNat != 127

/-- A header text of visible ASCII characters, spaces and tabs, which is all that can be shown. -/
def isPlainHeader (s : String) : Bool :=
  s.toList.all fun c => (32 ≤ c.toNat && c.toNat < 127) || c == '\t'

/-- What becomes of the writes of the outgoing channel: they stay with it, or they go over to the
new one because the old one is lost. -/
inductive Handover where
  | drain
  | recover (cause : Option Failure)
deriving Repr

/-- What the writes of a lost channel are failed with. -/
def Handover.loss : Handover → WriteError
  | .recover (some f) => .transient f
  | .drain | .recover none => .connectionClosed

/-- The writes stay with the outgoing channel, which only a usable one can keep. -/
def Handover.keeps (h : Handover) (old : Channel) : Bool :=
  match h with
  | .drain => old.isUsable
  | .recover _ => false

namespace Connection

/-! ## Looking at a connection -/

/-- A channel is there and accepts writes. -/
def isOpen (c : Connection) : Bool :=
  match c.channel with
  | some ch => ch.isUsable
  | none => false

/-- The connection writes to the default stream of its table. -/
def isDefault (c : Connection) : Bool := isDefaultStream c.streamId

/-- The numbers of the writes that a channel carries, oldest first. -/
def carried (c : Connection) (generation : Nat) : List Nat :=
  (c.queue.filter fun q => q.generation == generation).map (·.write)

/-- The unanswered writes, oldest first. -/
def pending (c : Connection) : List PendingWrite :=
  c.queue.filterMap fun q => c.writes[q.write]?

/-- All channels that were ever opened, oldest first. -/
def channels (c : Connection) : List Channel :=
  c.past ++ c.channel.toList

/-- The channel of a generation. -/
def channel? (c : Connection) (generation : Nat) : Option Channel :=
  c.channels.find? fun ch => ch.generation == generation

/-- The number of events kept for subscribers. -/
def kept (c : Connection) : Nat := eventsKept c.options.eventCapacity

/-- A subscriber from now on. -/
def subscribe (c : Connection) : Subscription := ⟨c.published.length⟩

/-! ## Small changes -/

/-- Changes the write with a number. -/
def mapWrite (c : Connection) (write : Nat) (f : PendingWrite → PendingWrite) : Connection :=
  { c with writes := c.writes.modify write f }

/-- Gives a write its result. -/
def resolve (c : Connection) (r : WriteResult) (write : Nat) : Connection :=
  let taken := (c.writes[write]?).any fun w => !w.isDone
  { c.mapWrite write fun w => w.resolve r with given := c.given ++ [⟨write, r, taken⟩] }

/-- Gives writes one and the same result. -/
def resolveAll (c : Connection) (r : WriteResult) (writes : List Nat) : Connection :=
  writes.foldl (fun c w => c.resolve r w) c

/-- Takes the oldest write that a channel carries out of the queue. -/
def takeOldest (c : Connection) (generation : Nat) : Option (Nat × Connection) :=
  match c.queue.find? fun q => q.generation == generation with
  | some q => some (q.write, { c with queue := c.queue.eraseP fun q => q.generation == generation })
  | none => none

/-- Gives the oldest write that a channel carries its result. -/
def answer (c : Connection) (generation : Nat) (r : WriteResult) : Connection :=
  match c.takeOldest generation with
  | some (write, c) => c.resolve r write
  | none => c

/-- Takes writes out of the queue and fails them, oldest first. -/
def failWhere (c : Connection) (p : Queued → Bool) (e : WriteError) : Connection :=
  let writes := (c.queue.filter p).map (·.write)
  { c with queue := c.queue.filter fun q => !p q }.resolveAll (.error e) writes

/-- Fails every write that a channel carries. -/
def failGeneration (c : Connection) (generation : Nat) (e : WriteError) : Connection :=
  c.failWhere (fun q => q.generation == generation) e

/-- Fails every write in the queue. -/
def failAll (c : Connection) (e : WriteError) : Connection :=
  c.failWhere (fun _ => true) e

/-- Publishes an event. -/
def publish (c : Connection) (e : Event) : Connection :=
  { c with published := c.published ++ [e] }

/-- Changes the channel of a generation. -/
def mapChannel (c : Connection) (generation : Nat) (f : Channel → Channel) : Connection :=
  let g := fun ch : Channel => if ch.generation = generation then f ch else ch
  { c with channel := c.channel.map g, past := c.past.map g }

/-- Marks the channel as failed. -/
def tearDown (c : Connection) : Connection :=
  { c with channel := c.channel.map fun ch => { ch with tornDown := true } }

/-- Shuts the channel down. -/
def dropChannel (c : Connection) : Connection :=
  { c with channel := none, past := c.past ++ c.channel.toList.map Channel.shutdown }

/-- Fails every write in the queue and shuts the channel down. -/
def shut (c : Connection) (e : WriteError) : Connection := (c.failAll e).dropChannel

/-! ## Replacing the channel -/

/-- Sends a write on the channel. -/
def transmit (c : Connection) (write : Nat) : Connection :=
  match c.writes[write]? with
  | some w => { c with channel := c.channel.map fun ch => ch.send ⟨write, w.request⟩ }
  | none => c

/-- Gives the writes of a lost channel to the one that took its place, and sends them again, oldest
first. -/
def resend (c : Connection) (lost : Nat) : Connection :=
  let writes := c.carried lost
  writes.foldl transmit { c with queue := c.queue.map fun q => q.retag lost c.generation }

/-- Sends the writes of a lost channel again, or fails them. -/
def handOver (c : Connection) (lost : Nat) (e : WriteError) : Connection :=
  match c.options.inFlightPolicy with
  | .resend => c.resend lost
  | .fail => c.failGeneration lost e

/-- The connection with a fresh channel, after the channels `past`. -/
def openChannel (c : Connection) (past : List Channel) : Connection :=
  let next := c.generation + 1
  { c with generation := next, channel := some { generation := next }, past := past }

/-- Replaces the channel by a fresh one. -/
def reopen (c : Connection) (h : Handover) : Connection :=
  if c.channel.any h.keeps then c.openChannel (c.past ++ c.channel.toList.map Channel.retire)
  else (c.openChannel c.dropChannel.past).handOver c.generation h.loss

/-! ## What a caller does -/

/-- Opens a channel, unless a usable one is there. -/
def connect (c : Connection) : Connection :=
  if c.isOpen then c else c.reopen (.recover none)

/-- A connection to a stream, with an open channel. -/
def create (streamId : String) (options : ConnectionOptions) : Except WriteError Connection :=
  if isHeaderText (routingHeader streamId) then
    .ok (connect { streamId := streamId, options := options })
  else .error (.invalidStreamId streamId)

/-- Replaces the channel by a fresh one for later writes. -/
def reconnect (c : Connection) : Connection := c.reopen .drain

/-- Shuts the channel down and aborts every unanswered write. -/
def close (c : Connection) : Connection :=
  let c := c.shut .aborted
  { c with generation := c.generation + 1 }

/-- What becomes of a connection that nothing holds any more. -/
def release (c : Connection) : Connection :=
  { c.shut .aborted with alive := false }

/-- The request with the stream and the trace id filled in where they are empty. -/
def complete (c : Connection) (r : AppendRequest) : AppendRequest :=
  { r with
    stream := if r.stream = "" then c.streamId else r.stream
    traceId := if r.traceId = "" then c.options.traceId else r.traceId }

/-- Adds a write that is not yet sent. -/
def addWrite (c : Connection) (r : AppendRequest) : Connection :=
  { c with writes := c.writes ++ [{ request := c.complete r }] }

/-- Adds a write that fails at once. -/
def refuse (c : Connection) (r : AppendRequest) : Connection :=
  (c.addWrite r).resolve (.error .connectionClosed) c.writes.length

/-- Adds a write, sends it and puts it into the queue. -/
def accept (c : Connection) (r : AppendRequest) : Connection :=
  let n := c.writes.length
  { (c.addWrite r).transmit n with queue := c.queue ++ [⟨c.generation, n⟩] }

/-- The request of a write gets out: a channel is there whose other side takes it. Where a channel is,
the other side goes away between the calls of a connection only, so `write` finds this true
(`write_cases`). -/
def reaches (c : Connection) : Bool := c.channel.any (·.heard)

/-- Sends a request; its write has the next number. A failed channel is replaced first, so the one
it goes out on takes it. The write fails without a channel; the other refusal stands for a receiver
that goes away within the call, which no run here does. -/
def write (c : Connection) (r : AppendRequest) : Nat × Connection :=
  match c.channel with
  | none => (c.writes.length, c.refuse r)
  | some ch =>
    let c := if ch.isUsable then c else c.reopen (.recover none)
    (c.writes.length, if c.reaches then c.accept r else c.refuse r)

/-! ## What the readers do -/

/-- The result that a response is for its write. -/
def resultOf (r : AppendResponse) : WriteResult :=
  match r.error with
  | some s => .error (.request (Failure.ofStatus s r.rowErrors))
  | none => .ok r

/-- Takes a response of a channel: a new schema is published, and the oldest write that the channel
carries gets its result. -/
def onResponse (c : Connection) (generation : Nat) (r : AppendResponse) : Connection :=
  let c := match r.updatedSchema with
    | some s => { c with latestSchema := some s }.publish (.schemaUpdated s)
    | none => c
  c.answer generation (resultOf r)

/-- The channel failed, and the connection is told. -/
def reportFailure (c : Connection) (f : Failure) : Connection :=
  c.tearDown.publish (.error (.connection f))

/-- The table lacks fields of the writers: everything fails. -/
def onSchemaMismatch (c : Connection) (f : Failure) : Connection :=
  (c.shut (.schemaMismatch f)).publish (.error (.schemaMismatch f))

/-- Takes a failure of the channel; `established` says that its call was open. -/
def onFailure (c : Connection) (f : Failure) (established : Bool) : Connection :=
  let c := if established then c else c.tearDown
  if f.isSchemaMismatch then c.onSchemaMismatch f
  else if f.isTransient then
    if established then c.reopen (.recover (some f)) else c.publish (.error (.connection f))
  else if f.code = .invalidArgument ∧ c.carried c.generation ≠ [] then
    c.answer c.generation (.error (.request f))
  else c.reportFailure f

/-- Takes a failure of a channel that was replaced. -/
def onReplacedFailure (c : Connection) (generation : Nat) (f : Failure) : Connection :=
  if f.code = .invalidArgument ∧ f.isSchemaMismatch = false then
    c.answer generation (.error (.request f))
  else c.failGeneration generation (.ofReplaced f)

/-- The reader of a channel goes on: of the current channel while there is one, of a replaced one
while it carries writes. -/
def readsOn (c : Connection) (generation : Nat) : Bool :=
  if c.generation = generation then c.channel.isSome else !(c.carried generation).isEmpty

/-- Takes a response or a failure of a channel. -/
def onItem (c : Connection) (generation : Nat) (item : Except CallError AppendResponse) :
    Connection :=
  if c.generation = generation then
    match item with
    | .ok r => c.onResponse generation r
    | .error e => c.onFailure (Failure.ofCall e) true
  else if (c.carried generation).isEmpty then c
  else
    match item with
    | .ok r => c.onResponse generation r
    | .error e => c.onReplacedFailure generation (Failure.ofCall e)

/-- The call of a channel could not be opened. -/
def onRefused (c : Connection) (generation : Nat) (e : CallError) : Connection :=
  if c.generation = generation then c.onFailure (Failure.ofCall e) false
  else c.failGeneration generation (.connection (Failure.ofCall e))

/-- The responses of a channel ended. -/
def onEnded (c : Connection) (generation : Nat) : Connection :=
  if c.generation = generation then c.tearDown
  else c.failGeneration generation .connectionClosed

/-- Does what the reader of a channel asks for when it meets something. -/
def handle (c : Connection) (generation : Nat) : Incoming → Connection
  | .opened => c
  | .refused e => c.onRefused generation e
  | .response r => c.onItem generation (.ok r)
  | .failure e => c.onItem generation (.error e)
  | .ended => c.onEnded generation

/-- Takes what the reader of a channel meets. A reader that has stopped meets nothing, and one
whose connection is gone stops at the next item. -/
def receive (c : Connection) (generation : Nat) (i : Incoming) : Connection :=
  match c.channel? generation with
  | none => c
  | some ch =>
    if ch.reader.takes i then
      let c := if c.alive then c.handle generation i else c
      c.mapChannel generation fun ch => ch.meet i (c.alive && c.readsOn generation)
    else c

/-- The other side of a channel no longer takes requests. -/
def hangUp (c : Connection) (generation : Nat) : Connection :=
  c.mapChannel generation fun ch => { ch with heard := false }

end Connection

end RowStream.Stream
