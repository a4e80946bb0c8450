import RowStream.Stream.Client

/-!
# A client and its service on one thread

The world holds a client, the connections it made, and a service in memory that can be told what to
answer on each append call. The readers of channels run in the background, in the order in which
they could: the reader of a new channel as soon as it is there, and a waiting reader when something
arrives for it. A reader that runs takes all that waits for it. A reader that was stopped from
outside still holds its call open until the background runs.

* `World`: everything that the two sides hold.
* `setConnection`, `dropHandle`, `setHandle`: connections and who holds them.
* `send`, `endSession`, `receive`: the two ends of an append call.
* `runAll`, `settle`: the background.

Out of scope: several holders of one connection (the last of them counts, so one handle stands for
all of them), requests that are lost on the way, and time.
-/

namespace RowStream.Simulation

open Service (CallError Memory)
open RowStream.Stream

/-- An open append call as the service sees it: the channel it belongs to, how many of its requests
were taken, and what the service sent that is not yet read. `reads` says that the client still
takes responses, `ended` that no more will come. -/
structure Session where
  connection : Nat
  generation : Nat
  header : String
  taken : Nat := 0
  unread : List Incoming := []
  ended : Bool := false
  reads : Bool := true
deriving Repr, Inhabited

/-- What a name in the hands of the caller stands for. Every connection has one handle: copies of it
would only put off the moment at which nothing holds the connection. -/
inductive Handle where
  | connection (id : Nat)
  | writer (id : Nat) (w : Writer)
  | rowWriter (id : Nat) (w : RowWriter)
deriving Repr, Inhabited

/-- The connection of a handle. -/
def Handle.id : Handle → Nat
  | .connection id | .writer id _ | .rowWriter id _ => id

/-- A reader that can run. -/
structure Task where
  connection : Nat
  generation : Nat
deriving Repr, DecidableEq, Inhabited

/-- The world. Connections, sessions and writes are numbered in the order in which they came to be;
`offered` are the sessions that the service has not accepted, `accepted` those it has, by name, and
`unreported` the writes whose result has not been told. -/
structure World where
  client : Client := {}
  service : Memory := {}
  connections : List Connection := []
  handles : Keyed Handle := []
  sessions : List Session := []
  offered : List Nat := []
  accepted : Keyed Nat := []
  subscribers : Keyed (Nat × Subscription) := []
  writes : List (Nat × Nat) := []
  unreported : List Nat := []
  tasks : List Task := []
deriving Repr, Inhabited

namespace World

/-! ## Connections -/

/-- Puts a connection in its place; the readers of channels it opened since can run. -/
def setConnection (w : World) (id : Nat) (c : Connection) : World :=
  let before := match w.connections[id]? with
    | some old => old.generation
    | none => 0
  let fresh := c.channels.filter fun ch => before < ch.generation
  { w with
    connections := w.connections.set id c
    tasks := w.tasks ++ fresh.map fun ch => ⟨id, ch.generation⟩ }

/-- Adds a connection, whose number comes back. -/
def addConnection (w : World) (c : Connection) : Nat × World :=
  let id := w.connections.length
  (id, { w with
    connections := w.connections ++ [c]
    tasks := w.tasks ++ c.channels.map fun ch => ⟨id, ch.generation⟩ })

/-- Changes a connection. -/
def updateConnection (w : World) (id : Nat) (f : Connection → Connection) : World :=
  match w.connections[id]? with
  | some c => w.setConnection id (f c)
  | none => w

/-- Something still holds the connection. -/
def isAlive (w : World) (id : Nat) : Bool :=
  match w.connections[id]? with
  | some c => c.alive
  | none => false

/-- Takes a handle away, and with it its connection. -/
def dropHandle (w : World) (name : String) : World :=
  match Keyed.get? w.handles name with
  | some h =>
    { w with handles := w.handles.filter fun e => e.1 != name }.updateConnection h.id
      Connection.release
  | none => w

/-- Gives a name to a handle, in place of one that had the name. -/
def setHandle (w : World) (name : String) (h : Handle) : World :=
  let w := w.dropHandle name
  { w with handles := Keyed.put name h w.handles }

/-- Numbers a write of a connection. -/
def addWrite (w : World) (connection write : Nat) : Nat × World :=
  let n := w.writes.length
  (n, { w with writes := w.writes ++ [(connection, write)], unreported := w.unreported ++ [n] })

/-- The write with a number. -/
def write? (w : World) (n : Nat) : Option PendingWrite :=
  match w.writes[n]? with
  | some (connection, write) =>
    match w.connections[connection]? with
    | some c => c.writes[write]?
    | none => none
  | none => none

/-- Changes the write with a number. -/
def updateWrite (w : World) (n : Nat) (f : PendingWrite → PendingWrite) : World :=
  match w.writes[n]? with
  | some (connection, write) => w.updateConnection connection fun c => c.mapWrite write f
  | none => w

/-! ## Sessions -/

/-- The channel of a session. -/
def channel? (w : World) (s : Session) : Option Channel :=
  match w.connections[s.connection]? with
  | some c => c.channel? s.generation
  | none => none

/-- Puts a session in its place. -/
def setSession (w : World) (n : Nat) (s : Session) : World :=
  { w with sessions := w.sessions.set n s }

/-- Lets the reader of a session run. -/
def wake (w : World) (s : Session) : World :=
  let task : Task := ⟨s.connection, s.generation⟩
  if w.tasks.contains task then w else { w with tasks := w.tasks ++ [task] }

/-- Sends something to the client, and says whether the client still takes it. -/
def send (w : World) (n : Nat) (i : Incoming) : Bool × World :=
  match w.sessions[n]? with
  | none => (false, w)
  | some s =>
    if s.reads then (true, (w.setSession n { s with unread := s.unread ++ [i] }).wake s)
    else (false, w)

/-- Ends a session from the side of the service: no more responses come, and requests are no
longer taken. -/
def endSession (w : World) (n : Nat) : World :=
  match w.sessions[n]? with
  | none => w
  | some s =>
    ((w.setSession n { s with ended := true }).wake s).updateConnection s.connection
      fun c => c.hangUp s.generation

/-- Forgets the session with a name, which ends it. -/
def forgetSession (w : World) (name : String) : World :=
  match Keyed.get? w.accepted name with
  | some n => { w with accepted := w.accepted.filter fun e => e.1 != name }.endSession n
  | none => w

/-! ## The background -/

/-- Lets a connection take something on one of its channels. -/
def receive (w : World) (t : Task) (i : Incoming) : World :=
  w.updateConnection t.connection fun c => c.receive t.generation i

/-- The reader of a channel, if its connection is known. -/
def reader (w : World) (t : Task) : Reader :=
  match w.connections[t.connection]? with
  | some c =>
    match c.channel? t.generation with
    | some ch => ch.reader
    | none => .stopped
  | none => .stopped

/-- Opens the call of a channel. -/
def openCall (w : World) (t : Task) : World :=
  match w.service.openAppend with
  | (some e, service) => { w with service := service }.receive t (.refused e)
  | (none, service) =>
    let header := match w.connections[t.connection]? with
      | some c => routingHeader c.streamId
      | none => ""
    let session : Session :=
      { connection := t.connection, generation := t.generation, header := header }
    { w with
      service := service
      sessions := w.sessions ++ [session]
      offered := w.offered ++ [w.sessions.length] }.receive t .opened

/-- Takes what waits for a reader, as long as it reads. -/
def takeAll (w : World) (t : Task) : List Incoming → World
  | [] => w
  | i :: is => if w.reader t = .reading then (w.receive t i).takeAll t is else w

/-- The number of the session of a channel. -/
def sessionOf (w : World) (t : Task) : Option Nat :=
  w.sessions.findIdx? fun s => s.connection == t.connection && s.generation == t.generation

/-- Runs a reader. -/
def run (w : World) (t : Task) : World :=
  match w.reader t with
  | .stopped => w
  | .waiting => w.openCall t
  | .reading =>
    match w.sessionOf t with
    | none => w
    | some n =>
      match w.sessions[n]? with
      | none => w
      | some s =>
        let w := (w.setSession n { s with unread := [] }).takeAll t s.unread
        if s.ended ∧ w.reader t = .reading then w.receive t .ended else w

/-- Runs readers in order, at most `count` of them. -/
def runAll : Nat → World → World
  | 0, w => w
  | count + 1, w =>
    match w.tasks with
    | [] => w
    | t :: ts => runAll count ({ w with tasks := ts }.run t)

/-- How many readers can still run: those in line, and one for each item that may replace a
channel. -/
def workLeft (w : World) : Nat :=
  w.sessions.foldl (fun n s => n + s.unread.length) w.tasks.length

/-- Lets go of the calls whose readers have stopped. -/
def letGo (w : World) : World :=
  { w with sessions := w.sessions.map fun s =>
      if w.reader ⟨s.connection, s.generation⟩ = .stopped then { s with reads := false } else s }

/-- Runs the background until nothing is left to do. -/
def settle (w : World) : World :=
  (runAll w.workLeft w).letGo

end World

end RowStream.Simulation
