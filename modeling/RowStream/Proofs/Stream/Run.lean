import RowStream.Stream.Client

/-!
# Runs of a connection

What can happen to a connection, one thing after the other and in any order:

* Whoever holds the connection calls it (`Call`). A writer that changes its descriptor is such a
  caller. The last call is `release`; nothing is called after it.
* The reader of a channel meets something (`receive`). The state of the reader says what it can
  meet, so the items of one channel come in their order: the call opens or is refused, then
  responses and failures arrive, then they end.
* A reader that was stopped from outside may have taken an item just before, and handles it only
  now (`late`). This happens to readers of channels that are not the current one.
* The other side of a channel stops taking requests (`hangUp`).
* Whoever holds a write resolves it or counts a retry (`mark`, `retry`).

An action that cannot happen in a state changes nothing there, so every list of actions is a run.
-/

namespace RowStream.Stream

open Service (AppendRequest Failure Memory)

/-- What those who hold a connection do with it. -/
inductive Connection.Call where
  | connect
  | reconnect
  | close
  | write (r : AppendRequest)
  | flush (m : Memory) (offset : Int64)
  | finalize (m : Memory)
  | setDescriptor (w : Writer) (d : Descriptor.Message)
  | release

/-- What can happen to a connection. -/
inductive Action where
  | call (k : Connection.Call)
  | receive (generation : Nat) (i : Incoming)
  | late (generation : Nat) (i : Incoming)
  | hangUp (generation : Nat)
  | mark (write : Nat) (r : WriteResult)
  | retry (write : Nat)

/-- The connection alone does it: nobody else gives a write its result. -/
def Action.isOwn : Action → Bool
  | .mark _ _ => false
  | _ => true

/-- The result that an item answers a write with: that of a response, or the failure of a single
request. -/
def Incoming.answer? : Incoming → Option WriteResult
  | .response r => some (Connection.resultOf r)
  | .failure e =>
    let f := Failure.ofCall e
    if f.code = .invalidArgument ∧ f.isSchemaMismatch = false then some (.error (.request f))
    else none
  | _ => none

namespace Connection

/-! ## Actions -/

/-- The connection after a call. -/
def call (c : Connection) : Call → Connection
  | .connect => c.connect
  | .reconnect => c.reconnect
  | .close => c.close
  | .write r => (c.write r).2
  | .flush m offset => (c.flush m offset).2.1
  | .finalize m => (c.finalize m).2.1
  | .setDescriptor w d => (w.setDescriptor c d).2.2
  | .release => c.release

/-- The reader of a channel can meet the item, and the connection is there to handle it. -/
def meets (c : Connection) (generation : Nat) (i : Incoming) : Bool :=
  c.alive && (c.channel? generation).any fun ch => ch.reader.takes i

/-- The reader of a channel was stopped from outside, so it may hold an item yet. -/
def stopsLate (c : Connection) (generation : Nat) : Bool :=
  c.alive && c.generation != generation &&
    (c.channel? generation).any fun ch => ch.reader == .stopped

/-- The connection after an action. -/
def act (c : Connection) : Action → Connection
  | .call k => if c.alive then c.call k else c
  | .receive g i => c.receive g i
  | .late g i => if c.stopsLate g then c.handle g i else c
  | .hangUp g => c.hangUp g
  | .mark n r => c.mapWrite n fun w => w.resolve r
  | .retry n => c.mapWrite n PendingWrite.retry

/-- The connection after a run. -/
def run (c : Connection) (as : List Action) : Connection := as.foldl act c

@[simp] theorem run_nil (c : Connection) : c.run [] = c := rfl

@[simp] theorem run_cons (c : Connection) (a : Action) (as : List Action) :
    c.run (a :: as) = (c.act a).run as := rfl

@[simp] theorem run_append (c : Connection) (as bs : List Action) :
    c.run (as ++ bs) = (c.run as).run bs := List.foldl_append

/-- The last action of a run. -/
theorem run_concat (c : Connection) (as : List Action) (a : Action) :
    c.run (as ++ [a]) = (c.run as).act a := run_append c as [a]

/-! ## What a run shows -/

/-- The number of the write that an action hands back to its caller, if it does. -/
def returns (c : Connection) : Action → Option Nat
  | .call (.write r) => if c.alive then some (c.write r).1 else none
  | _ => none

/-- The numbers of the writes that a run handed back, in the order of the calls. -/
def returned (c : Connection) : List Action → List Nat
  | [] => []
  | a :: as => (c.returns a).toList ++ (c.act a).returned as

/-- The result that an action answers a write of a channel with, if the action is an answer. -/
def answers (c : Connection) (generation : Nat) : Action → Option WriteResult
  | .receive g i => if g = generation ∧ c.meets g i then i.answer? else none
  | .late g i => if g = generation ∧ c.stopsLate g then i.answer? else none
  | _ => none

theorem answers_receive {c : Connection} {g : Nat} {i : Incoming} (h : c.meets g i = true) :
    c.answers g (.receive g i) = i.answer? :=
  if_pos ⟨rfl, h⟩

theorem answers_late {c : Connection} {g : Nat} (h : c.stopsLate g = true) (i : Incoming) :
    c.answers g (.late g i) = i.answer? :=
  if_pos ⟨rfl, h⟩

/-- How many answers a run brought on a channel. -/
def answered (c : Connection) (generation : Nat) : List Action → Nat
  | [] => 0
  | a :: as => (c.answers generation a).toList.length + (c.act a).answered generation as

/-- What went out on a channel, oldest first. -/
def sentOn (c : Connection) (generation : Nat) : List Sent :=
  ((c.channel? generation).map (·.sent)).getD []

/-- At no moment of a run did the channel bring more answers than requests went out on it. -/
def Paced (c : Connection) (generation : Nat) (as : List Action) : Prop :=
  ∀ p, p <+: as → c.answered generation p ≤ ((c.run p).sentOn generation).length

theorem paced_iff (c : Connection) (g : Nat) (as : List Action) : Paced c g as ↔
    ∀ n ∈ List.range (as.length + 1),
      c.answered g (as.take n) ≤ ((c.run (as.take n)).sentOn g).length := by
  constructor
  · exact fun h n _ => h (as.take n) (List.take_prefix n as)
  · intro h p hp
    rw [List.prefix_iff_eq_take.mp hp]
    exact h p.length (List.mem_range.mpr (Nat.lt_succ_of_le hp.length_le))

instance (c : Connection) (g : Nat) (as : List Action) : Decidable (Paced c g as) :=
  decidable_of_iff _ (paced_iff c g as).symm

theorem answered_append (c : Connection) (g : Nat) (as bs : List Action) :
    c.answered g (as ++ bs) = c.answered g as + (c.run as).answered g bs := by
  induction as generalizing c with
  | nil => simp [answered]
  | cons a as ih => simp only [List.cons_append, answered, ih, run_cons]; omega

end Connection

end RowStream.Stream
