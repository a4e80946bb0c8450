import RowStream.Proofs.Stream.Closed

/-!
# Runs of a writer

A writer and the connection that it alone uses (`Writing`). What can happen to them, one thing after
the other and in any order:

* Rows are appended, the descriptor is changed, and whoever holds the writer sets what requests say
  of missing values or opens, closes and lets go the connection (`Writer.Call`).
* Everything that happens to a connection without a call: readers, the other sides of channels,
  holders of writes.

Each of these is one action of the connection or none (`step_connection`). So the connection of a
writer is one that a run of a new connection comes to (`Reachable`), and all that is known of such
runs holds of it.
-/

namespace RowStream.Stream

open Service (AppendRequest MissingValue Memory)

/-- Somebody who holds the connection does it. -/
def Action.isCall : Action → Bool
  | .call _ => true
  | _ => false

/-! ## Connections that a run comes to -/

namespace Connection

variable {c : Connection}

/-- A run of a new connection comes to it. -/
def Reachable (c : Connection) : Prop :=
  ∃ id o c₀ as, create id o = .ok c₀ ∧ c = c₀.run as

theorem reachable_created {id : String} {o : Config.ConnectionOptions} (h : create id o = .ok c) :
    c.Reachable :=
  ⟨id, o, c, [], h, rfl⟩

theorem Reachable.run (h : c.Reachable) (as : List Action) : (c.run as).Reachable := by
  obtain ⟨id, o, c₀, bs, hnew, rfl⟩ := h
  exact ⟨id, o, c₀, bs ++ as, hnew, (run_append ..).symm⟩

theorem Reachable.act (h : c.Reachable) (a : Action) : (c.act a).Reachable := h.run [a]

theorem Reachable.coherent (h : c.Reachable) : Coherent c := by
  obtain ⟨id, o, c₀, as, hnew, rfl⟩ := h
  exact coherent_run hnew as

theorem Reachable.logged (h : c.Reachable) : Logged c := by
  obtain ⟨id, o, c₀, as, hnew, rfl⟩ := h
  exact logged_run hnew as

theorem Reachable.halts (h : c.Reachable) : Halts c := by
  obtain ⟨id, o, c₀, as, hnew, rfl⟩ := h
  exact halts_run hnew as

end Connection

/-! ## Writers at work -/

/-- What is done with a writer and its connection besides appending and changing the descriptor. -/
inductive Writer.Control where
  | setDefaultMissingValue (m : MissingValue)
  | setMissingValues (ms : Keyed MissingValue)
  | connect
  | reconnect
  | close
  | flush (m : Memory) (offset : Int64)
  | finalize (m : Memory)
  | release

namespace Writer.Control

/-- The call of the connection that it is, if it is one. -/
def call? : Control → Option Connection.Call
  | .setDefaultMissingValue _ | .setMissingValues _ => none
  | .connect => some .connect
  | .reconnect => some .reconnect
  | .close => some .close
  | .flush m offset => some (.flush m offset)
  | .finalize m => some (.finalize m)
  | .release => some .release

/-- The writer after it. -/
def adjust (k : Control) (w : Writer) : Writer :=
  match k with
  | .setDefaultMissingValue m => { w with defaultMissingValue := some m }
  | .setMissingValues ms => { w with missingValues := ms }
  | _ => w

@[simp] theorem adjust_descriptor (k : Control) (w : Writer) :
    (k.adjust w).descriptor = w.descriptor := by
  cases k <;> rfl

/-- No control hands a request to the connection. -/
theorem call?_ne_write (k : Control) (r : AppendRequest) : k.call? ≠ some (.write r) := by
  cases k <;> simp [call?]

end Writer.Control

/-- What is done with a writer. -/
inductive Writer.Call where
  | append (rows : List (List UInt8)) (offset : Option Int64)
  | setDescriptor (d : Descriptor.Message)
  | control (k : Writer.Control)

/-- A writer and the connection that it alone uses. -/
structure Writing where
  writer : Writer
  connection : Connection

namespace Writing

/-- What can happen to a writer and its connection. -/
inductive Event where
  | call (k : Writer.Call)
  | other (a : Action)

/-- The writer and its connection after a control. -/
def control (s : Writing) (k : Writer.Control) : Writing where
  writer := k.adjust s.writer
  connection := (k.call?.map s.connection.call).getD s.connection

/-- The writer and its connection after a call. -/
def call (s : Writing) : Writer.Call → Writing
  | .append rows offset => { s with connection := (s.writer.append s.connection rows offset).2 }
  | .setDescriptor d =>
    let (_, w, c) := s.writer.setDescriptor s.connection d
    ⟨w, c⟩
  | .control k => s.control k

/-- The writer and its connection after an event. Nothing is called once the connection was let
go. -/
def step (s : Writing) : Event → Writing
  | .call k => if s.connection.alive then s.call k else s
  | .other a => if a.isCall then s else { s with connection := s.connection.act a }

/-- The writer and its connection after a run. -/
def run (s : Writing) (es : List Event) : Writing := es.foldl step s

@[simp] theorem run_nil (s : Writing) : s.run [] = s := rfl

@[simp] theorem run_cons (s : Writing) (e : Event) (es : List Event) :
    s.run (e :: es) = (s.step e).run es := rfl

@[simp] theorem run_append (s : Writing) (es fs : List Event) :
    s.run (es ++ fs) = (s.run es).run fs := List.foldl_append

/-! ## Writers and the runs of their connections -/

/-- The action of the connection that an event is, if it is one. -/
def action? (s : Writing) : Event → Option Action
  | .call (.append rows offset) =>
    some (.call (.write (s.writer.request s.connection.streamId rows offset)))
  | .call (.setDescriptor d) => some (.call (.setDescriptor s.writer d))
  | .call (.control k) => k.call?.map .call
  | .other a => if a.isCall then none else some a

/-- **An event is one action of the connection, or none.** -/
theorem step_connection (s : Writing) (e : Event) :
    (s.step e).connection = ((s.action? e).map s.connection.act).getD s.connection := by
  cases e with
  | other a =>
    simp only [step, action?]
    split <;> rfl
  | call k =>
    simp only [step]
    split
    · rename_i ha
      cases k with
      | append rows offset => simp [action?, Connection.act, ha, call, Connection.call, Writer.append]
      | setDescriptor d => simp [action?, Connection.act, ha, call, Connection.call]
      | control k =>
        simp only [action?, call, control]
        cases k.call? with
        | none => rfl
        | some k => simp [Connection.act, ha]
    · rename_i ha
      cases h : s.action? (.call k) with
      | none => rfl
      | some a =>
        have hcall : ∃ k', a = .call k' := by
          cases k with
          | append rows offset => exact ⟨_, (Option.some.inj h).symm⟩
          | setDescriptor d => exact ⟨_, (Option.some.inj h).symm⟩
          | control k =>
            obtain ⟨k', -, rfl⟩ := Option.map_eq_some_iff.mp h
            exact ⟨k', rfl⟩
        obtain ⟨k', rfl⟩ := hcall
        simp [Connection.act, ha]

/-- The connection of a writer is one that a run comes to. -/
theorem reachable_step {s : Writing} (h : s.connection.Reachable) (e : Event) :
    (s.step e).connection.Reachable := by
  rw [step_connection]
  cases s.action? e with
  | none => exact h
  | some a => exact h.act a

theorem reachable_run {s : Writing} (h : s.connection.Reachable) (es : List Event) :
    (s.run es).connection.Reachable := by
  induction es generalizing s with
  | nil => exact h
  | cons e es ih => exact ih (reachable_step h e)

/-- The options of a connection stay. -/
theorem run_options {s : Writing} (h : s.connection.Reachable) (es : List Event) :
    (s.run es).connection.options = s.connection.options := by
  induction es generalizing s with
  | nil => rfl
  | cons e es ih =>
    refine (ih (reachable_step h e)).trans ?_
    rw [step_connection]
    cases s.action? e with
    | none => rfl
    | some a => exact h.coherent.act_options a

end Writing

end RowStream.Stream
