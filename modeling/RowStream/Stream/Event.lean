import RowStream.Stream.Error

/-!
# Events of connections

A connection publishes new schemas of its table and errors that belong to no single write. A
subscriber takes the events published after it subscribed, in order. Only the latest events are
kept, as many as the capacity rounded up to a power of two; a subscriber that fell further behind
learns once how many it missed and goes on with the oldest one kept.

* `Subscription.drain`: the events since the last look.
* `eventsKept`: how many events are there to be seen.

Out of scope: waiting for an event.
-/

namespace RowStream.Stream

/-- What a connection publishes. -/
inductive Event where
  | schemaUpdated (s : Table.Schema)
  | error (e : WriteError)
deriving Repr, Inhabited

/-- The number of events kept for a capacity: the least power of two that is not below it. -/
def eventsKept (capacity : Nat) : Nat :=
  let rec grow : Nat → Nat → Nat
    | 0, n => n
    | fuel + 1, n => if max capacity 1 ≤ n then n else grow fuel (2 * n)
  grow (max capacity 1).log2.succ 1

/-- A subscriber: how many of the published events it has passed. -/
structure Subscription where
  next : Nat
deriving Repr, DecidableEq, Inhabited

/-- What a subscriber finds: an event, or that it missed some. -/
inductive Received where
  | event (e : Event)
  | lagged (missed : Nat)
deriving Repr, Inhabited

/-- Moves a subscriber that fell behind to the oldest of the last `kept` events, and says how many
it missed. -/
def Subscription.catchUp (s : Subscription) (published : List Event) (kept : Nat) :
    Nat × Subscription :=
  let oldest := published.length - kept
  if s.next < oldest then (oldest - s.next, ⟨oldest⟩) else (0, s)

/-- The events that the subscriber has not passed. -/
def Subscription.ahead (s : Subscription) (published : List Event) : List Event :=
  published.drop s.next

/-- What the subscriber finds until nothing is left. -/
def Subscription.drain (s : Subscription) (published : List Event) (kept : Nat) :
    List Received × Subscription :=
  let (missed, s) := s.catchUp published kept
  let lag := if missed = 0 then [] else [Received.lagged missed]
  (lag ++ (s.ahead published).map .event, ⟨published.length⟩)

end RowStream.Stream
