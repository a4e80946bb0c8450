import RowStream.Service.Append

/-!
# Channels

One call over which requests go out and responses come back. Every channel of a connection has a
generation of its own, and a reader that takes its responses. A channel that is shut down neither
sends nor reads any more; one that is retired sends nothing more but is read until all that it
carried is answered.

* `send`, `meet`: a request goes out, and a response meets its request.
* `shutdown`, `retire`: the two ways a channel stops sending.
* `isUsable`: the other side still takes requests.

Out of scope: limits on how many requests wait to be sent, of which there are none.
-/

namespace RowStream.Stream

open Service (AppendRequest AppendResponse CallError)

/-- What the reader of a channel does: it waits for the call to open, takes responses, or has
stopped. -/
inductive Reader where
  | waiting
  | reading
  | stopped
deriving Repr, DecidableEq, Inhabited

/-- What the reader of a channel meets: its call opened or could not be opened, a response or a
failure arrived, or the responses ended. -/
inductive Incoming where
  | opened
  | refused (e : CallError)
  | response (r : AppendResponse)
  | failure (e : CallError)
  | ended
deriving Repr

/-- The reader can meet it: the call opens or is refused first, then items arrive until they
end. -/
def Reader.takes : Reader → Incoming → Bool
  | .waiting, .opened | .waiting, .refused _ => true
  | .reading, .response _ | .reading, .failure _ | .reading, .ended => true
  | _, _ => false

/-- A request that went out: the number of its write, and what was sent. -/
structure Sent where
  write : Nat
  request : AppendRequest
deriving Repr, DecidableEq, Inhabited

/-- A channel. `sent` is what went out on it, oldest first. `heard` says that the other side still
takes requests, and `tornDown` that the channel is known to have failed. -/
structure Channel where
  generation : Nat
  sent : List Sent := []
  sending : Bool := true
  heard : Bool := true
  tornDown : Bool := false
  reader : Reader := .waiting
deriving Repr, DecidableEq, Inhabited

namespace Channel

/-- Writes can go out on the channel. -/
def isUsable (c : Channel) : Bool := !c.tornDown && c.heard

/-- Ends sending and reading. -/
def shutdown (c : Channel) : Channel := { c with sending := false, reader := .stopped }

/-- Ends sending only. -/
def retire (c : Channel) : Channel := { c with sending := false }

/-- Sends a request. -/
def send (c : Channel) (s : Sent) : Channel := { c with sent := c.sent ++ [s] }

/-- The channel after its reader met something. A reader that waited reads once the call is open,
and after a response or a failure it stops unless it goes `on`. -/
def meet (c : Channel) (i : Incoming) (on : Bool) : Channel :=
  match i with
  | .opened => if c.reader = .waiting then { c with reader := .reading } else c
  | .refused _ => { c with heard := false, reader := .stopped }
  | .response _ | .failure _ => if on then c else { c with reader := .stopped }
  | .ended => { c with reader := .stopped }

end Channel

end RowStream.Stream
