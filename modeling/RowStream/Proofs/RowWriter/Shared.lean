import RowStream.Proofs.Fallible
import RowStream.Proofs.RowWriter.Run

/-!
# Row writers on shared connections

The connection of a row writer can be held by others too, who write on it, replace its channel and close
it as they like. A row writer that was made on such a connection, and all that happens to both, is a
shared run.

* `Reachable.connection`, `Reachable.extends`: the connection is still one that a run comes to, and
  keeps its writes.
* `Reachable.agrees`: encoder and writer hold the same descriptor, whatever happened and whatever
  failed.
* `Reachable.written`: the write that an append hands back carries the rows, encoded by the descriptor
  that the request says.
-/

namespace RowStream.Stream

namespace RowWriter

variable {w w' : RowWriter} {c c' : Connection} {d : Descriptor.Message}

/-! ## What taking up schemas keeps -/

theorem applyAll_induct {P : RowWriter → Prop}
    (hplace : ∀ w s, P w → P { w with subscription := s })
    (hswitch : ∀ w c t w' c', w.setTableSchema c t = .ok (w', c') → P w → P w')
    (h : P w) (es : List Event) : P (w.applyAll c es).2.1 := by
  induction es generalizing w c with
  | nil => exact h
  | cons e es ih =>
    have hpassed : P w.advance := hplace w _ h
    cases e with
    | error e => exact ih hpassed
    | schemaUpdated t =>
      cases ht : w.advance.setTableSchema c t with
      | error e => simpa only [applyAll, ht] using hpassed
      | ok r =>
        simp only [applyAll, ht]
        exact ih (hswitch _ _ _ _ _ ht hpassed)

/-- What another place among the events keeps and a switch to a schema keeps, taking up schemas
keeps. -/
theorem applyEvents_induct {P : RowWriter → Prop}
    (hplace : ∀ w s, P w → P { w with subscription := s })
    (hswitch : ∀ w c t w' c', w.setTableSchema c t = .ok (w', c') → P w → P w')
    (h : P w) : P (w.applyEvents c).2.1 := by
  simp only [applyEvents]
  generalize w.subscription.catchUp c.published c.kept = caught
  obtain ⟨missed, s⟩ := caught
  have hpassed := applyAll_induct hplace hswitch (hplace w s h) (c := c) (s.ahead c.published)
  generalize applyAll { w with subscription := s } c (s.ahead c.published) = r at hpassed
  obtain ⟨fault, w', c'⟩ := r
  cases fault with
  | some e => exact hpassed
  | none =>
    simp only
    split
    · exact hpassed
    · unfold applyLatest
      cases c'.latestSchema with
      | none => exact hpassed
      | some t =>
        simp only
        cases ht : w'.setTableSchema c' t with
        | error e => exact hpassed
        | ok r => exact hswitch _ _ _ _ _ ht hpassed

/-! ## Encoder and writer -/

/-- Encoder and writer hold the same descriptor. -/
def Agrees (w : RowWriter) : Prop := Shape.ofDescriptor w.writer.descriptor = .ok w.encoder.shape

theorem agrees_create (h : create c d = .ok w) : w.Agrees := by
  obtain ⟨shape, hs, rfl⟩ := map_eq_ok.mp h
  exact hs

theorem agrees_setDescriptor (h : w.setDescriptor c d = .ok (w', c')) : w'.Agrees := by
  obtain ⟨shape, hs, rfl, -⟩ := setDescriptor_eq_ok.mp h
  simp only [Agrees, Writer.setDescriptor]
  split
  · rename_i heq
    rwa [← heq]
  · exact hs

theorem Agrees.applyEvents (h : w.Agrees) : (w.applyEvents c).2.1.Agrees := by
  refine applyEvents_induct (P := Agrees) (fun _ _ hw => hw) (fun w c t w' c' ht _ => ?_) h
  obtain ⟨d, -, hd⟩ := setTableSchema_eq_ok.mp ht
  exact agrees_setDescriptor hd

/-- Schemas that are taken up do not change what becomes of dates. -/
theorem applyEvents_convertDates (w : RowWriter) (c : Connection) :
    (w.applyEvents c).2.1.encoder.convertDates = w.encoder.convertDates := by
  refine applyEvents_induct (P := fun w' => w'.encoder.convertDates = w.encoder.convertDates)
    (fun _ _ hw => hw) (fun w₁ c₁ t w₂ c₂ ht hw => ?_) rfl
  obtain ⟨d, -, hd⟩ := setTableSchema_eq_ok.mp ht
  obtain ⟨shape, -, rfl, -⟩ := setDescriptor_eq_ok.mp hd
  exact hw

/-! ## Appends that send -/

/-- **An append hands back a write** if the schemas can be taken up and the rows be encoded: the writer
inside sends them. -/
theorem append_eq_ok {rows : List Row} {offset : Option Int64} {n : Nat}
    (h : (w.append c rows offset).1 = .ok n) :
    (w.applyEvents c).1 = none ∧ ∃ bytes, (w.applyEvents c).2.1.encoder.encode rows = .ok bytes ∧
      (n, (w.append c rows offset).2.2) =
        (w.applyEvents c).2.1.writer.append (w.applyEvents c).2.2 bytes offset := by
  simp only [append] at h ⊢
  generalize w.applyEvents c = applied at h ⊢
  obtain ⟨fault, w', c'⟩ := applied
  cases fault with
  | some e => simp at h
  | none =>
    cases hrows : w'.encoder.encode rows with
    | error e => simp [hrows] at h
    | ok bytes =>
      simp only [hrows, Except.ok.injEq] at h
      exact ⟨rfl, bytes, rfl, by simp only [hrows, ← h]⟩

end RowWriter

/-! ## What a write carries -/

namespace Connection

variable {c c' : Connection} {n : Nat} {d : Descriptor.Message} {bytes : List (List UInt8)}

/-- The request of a write says the descriptor and holds the rows. -/
def Carries (c : Connection) (n : Nat) (d : Descriptor.Message) (bytes : List (List UInt8)) : Prop :=
  (c.writes[n]?).map (·.request.data) = some (some { schema := some ⟨some d⟩, rows := some ⟨bytes⟩ })

theorem Extends.carries (h : Extends c c') (hc : c.Carries n d bytes) : c'.Carries n d bytes := by
  obtain ⟨p, hp, hdata⟩ := Option.map_eq_some_iff.mp hc
  obtain ⟨p', hp', hrequest, -⟩ := h n p hp
  rw [Carries, hp', Option.map_some, hrequest, hdata]

/-- A request is stored under the number that comes back, sent or refused, with the rows that it has. -/
theorem write_data (c : Connection) (r : Service.AppendRequest) :
    ((c.write r).2.writes[(c.write r).1]?).map (·.request.data) = some r.data := by
  rcases c.write_cases r with ⟨-, heq⟩ | ⟨c₁, ch, -, hch, heq⟩ <;> rw [heq]
  · simp [refuse, resolve, mapWrite, addWrite, complete, PendingWrite.resolve]
  · rw [accept_eq hch]
    simp [complete]

theorem carries_append (w : Writer) (c : Connection) (bytes : List (List UInt8))
    (offset : Option Int64) :
    (w.append c bytes offset).2.Carries (w.append c bytes offset).1 w.descriptor bytes :=
  write_data c _

/-- **What goes out is the request of its write**, with the descriptor and the rows that it carries. -/
theorem Carries.sent (h : c.Carries n d bytes) (hr : c.Reachable) {g : Nat} {x : Sent}
    (hx : x ∈ c.sentOn g) (hn : x.write = n) :
    x.request.data = some { schema := some ⟨some d⟩, rows := some ⟨bytes⟩ } := by
  obtain ⟨l, hl, -, hsent⟩ := mem_sentOn hx
  rw [hsent] at hx
  have hrequest := hr.logged.faithful l hl x hx
  rw [hn] at hrequest
  obtain ⟨p, hp, hpr⟩ := Option.map_eq_some_iff.mp hrequest
  rw [Carries, hp] at h
  rw [← hpr]
  exact Option.some.inj h

end Connection

/-! ## Shared runs -/

theorem Writing.run_extends {s : Writing} (h : s.connection.Reachable) (es : List Writing.Event) :
    s.connection.Extends (s.run es).connection := by
  induction es generalizing s with
  | nil => exact .of_writes rfl
  | cons e es ih =>
    refine Connection.Extends.trans ?_ (ih (Writing.reachable_step h e))
    rw [Writing.step_connection]
    cases s.action? e with
    | none => exact .of_writes rfl
    | some a => exact h.coherent.act_extends a

/-- The rows that a call appends, if it does. -/
def RowWriter.Call.rows? : RowWriter.Call → Option (List Row)
  | .append rows _ => some rows
  | .appendJson vs _ => (RowWriter.rowsOfJson 0 vs).toOption
  | _ => none

namespace RowWriting

variable {s : RowWriting} {k : RowWriter.Call} {n : Nat}

/-- The row writer and its connection after an event, where others hold the connection too and call
it. -/
def stepShared (s : RowWriting) : Event → RowWriting
  | .call k => if s.connection.alive then s.call k else s
  | .other a => { s with connection := s.connection.act a }

/-- The row writer and its connection after a shared run. -/
def runShared (s : RowWriting) (es : List Event) : RowWriting := es.foldl stepShared s

@[simp] theorem runShared_nil (s : RowWriting) : s.runShared [] = s := rfl

@[simp] theorem runShared_cons (s : RowWriting) (e : Event) (es : List Event) :
    s.runShared (e :: es) = (s.stepShared e).runShared es := rfl

/-- A shared run of a row writer comes to it, from when it was made on a connection. -/
inductive Reachable : RowWriting → Prop
  | create {w : RowWriter} {c : Connection} {d : Descriptor.Message} (h : c.Reachable)
    (hw : RowWriter.create c d = .ok w) : Reachable ⟨w, c⟩
  | step {s : RowWriting} (h : Reachable s) (e : Event) : Reachable (s.stepShared e)

theorem Reachable.called (h : s.Reachable) (ha : s.connection.alive = true) (k : RowWriter.Call) :
    (s.call k).Reachable := by
  have hstep := h.step (.call k)
  rwa [stepShared, if_pos ha] at hstep

theorem Reachable.run (h : s.Reachable) (es : List Event) : (s.runShared es).Reachable := by
  induction es generalizing s with
  | nil => exact h
  | cons e es ih => exact ih (h.step e)

/-- A shared event keeps the connection one that a run comes to, and its writes. -/
theorem stepShared_connection (h : s.connection.Reachable) (e : Event) :
    (s.stepShared e).connection.Reachable ∧
      s.connection.Extends (s.stepShared e).connection := by
  cases e with
  | other a => exact ⟨h.act a, h.coherent.act_extends a⟩
  | call k =>
    refine ⟨reachable_step h (.call k), ?_⟩
    obtain ⟨es, hes⟩ := s.step_connection (.call k)
    change s.connection.Extends (s.step (.call k)).connection
    rw [hes]
    exact Writing.run_extends (s := s.plain) h es

theorem Reachable.connection (h : s.Reachable) : s.connection.Reachable := by
  induction h with
  | create h _ => exact h
  | step _ e ih => exact (stepShared_connection ih e).1

/-- Writes keep their requests in every shared run. -/
theorem Reachable.extends (h : s.Reachable) (es : List Event) :
    s.connection.Extends (s.runShared es).connection := by
  induction es generalizing s with
  | nil => exact .of_writes rfl
  | cons e es ih => exact (stepShared_connection h.connection e).2.trans (ih (h.step e))

/-- An append that hands back a write is one of rows. -/
theorem written_eq_some (h : s.written k = some n) : s.connection.alive = true ∧
    ∃ rows offset, k.rows? = some rows ∧
      (s.call k).writer = (s.writer.append s.connection rows offset).2.1 ∧
      (s.call k).connection = (s.writer.append s.connection rows offset).2.2 ∧
      (s.writer.append s.connection rows offset).1 = .ok n := by
  cases ha : s.connection.alive with
  | false => simp [written, ha] at h
  | true =>
    refine ⟨rfl, ?_⟩
    simp only [written, ha, if_true] at h
    cases k with
    | append rows offset => exact ⟨rows, offset, rfl, rfl, rfl, toOption_eq_some.mp h⟩
    | appendJson vs offset =>
      cases hrows : RowWriter.rowsOfJson 0 vs with
      | error m => simp [RowWriter.appendJson_of_error hrows, Except.toOption] at h
      | ok rows =>
        simp only [RowWriter.appendJson_of_ok hrows] at h
        refine ⟨rows, offset, by rw [RowWriter.Call.rows?, hrows]; rfl, ?_, ?_,
          toOption_eq_some.mp h⟩ <;>
          simp only [call, RowWriter.appendJson_of_ok hrows]
    | _ => simp at h

/-- **Encoder and writer hold the same descriptor** in every shared run. -/
theorem Reachable.agrees (h : s.Reachable) : s.writer.Agrees := by
  induction h with
  | create _ hw => exact RowWriter.agrees_create hw
  | @step s _ e ih =>
    cases e with
    | other a => exact ih
    | call k =>
      simp only [stepShared]
      split
      swap
      · exact ih
      have happend (rows : List Row) (offset : Option Int64) :
          (s.writer.append s.connection rows offset).2.1.Agrees := by
        rw [RowWriter.append_writer]
        exact ih.applyEvents
      have hset (d : Descriptor.Message) :
          (s.settle (s.writer.setDescriptor s.connection d)).writer.Agrees := by
        cases hd : s.writer.setDescriptor s.connection d with
        | error e => exact ih
        | ok r => exact RowWriter.agrees_setDescriptor hd
      cases k with
      | append rows offset => exact happend rows offset
      | appendJson vs offset =>
        rcases s.call_appendJson vs offset with heq | ⟨rows, heq⟩ <;> rw [heq]
        · exact ih
        · exact happend rows offset
      | setTableSchema t =>
        simp only [call]
        cases ht : s.writer.setTableSchema s.connection t with
        | error e => exact ih
        | ok r =>
          obtain ⟨d, -, hd⟩ := RowWriter.setTableSchema_eq_ok.mp ht
          exact RowWriter.agrees_setDescriptor hd
      | setDescriptor d => exact hset d
      | convertDates enabled => exact ih
      | control k =>
        simp only [call, RowWriter.Agrees, plain, Writing.control, Writer.Control.adjust_descriptor]
        exact ih

/-- **The write that an append hands back** carries the rows of the call, encoded by the descriptor that
the request says, which is the one that the row writer has then. -/
theorem Reachable.written (h : s.Reachable) (hn : s.written k = some n) :
    ∃ rows shape bytes, k.rows? = some rows ∧
      Shape.ofDescriptor (s.call k).writer.writer.descriptor = .ok shape ∧
      Encoder.encode ⟨shape, s.writer.encoder.convertDates⟩ rows = .ok bytes ∧
      (s.call k).connection.Carries n (s.call k).writer.writer.descriptor bytes := by
  obtain ⟨-, rows, offset, hrows, hwriter, hconn, hok⟩ := written_eq_some hn
  obtain ⟨-, bytes, henc, hsent⟩ := RowWriter.append_eq_ok hok
  rw [RowWriter.append_writer] at hwriter
  rw [← hconn, Prod.mk.injEq] at hsent
  obtain ⟨hnumber, hwrite⟩ := hsent
  rw [hwriter, hwrite, hnumber]
  refine ⟨rows, (s.writer.applyEvents s.connection).2.1.encoder.shape, bytes, hrows,
    h.agrees.applyEvents, ?_, Connection.carries_append _ _ _ _⟩
  rw [← henc, ← RowWriter.applyEvents_convertDates s.writer s.connection]

end RowWriting

end RowStream.Stream
