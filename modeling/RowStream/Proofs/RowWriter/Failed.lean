import Mathlib
import RowStream.Proofs.RowWriter.Reported

/-!
# Calls of a row writer that fail

A call of a row writer can fail half way: an append takes up the schemas that were reported, one after
the other, before it looks at its rows, and stops at the first schema that cannot be used. By then the
descriptor may have changed several times, and each change replaced the channel. What carries the
argument is that a replaced channel adds nothing to its connection (`AddsNothing`): no write is made, and
all that goes out are writes of the queue, with the requests that they have.

* `configured`: how dates are treated is what was configured last.
* `failed_addsNothing`: a call that fails adds nothing to the connection, and changes nothing at all
  unless it is an append of rows.
* `agrees_through_failures`: encoder and writer hold the same descriptor, whatever failed.
-/

namespace RowStream.Stream

/-! ## Connections that nothing is added to -/

namespace Connection

variable {c c' c'' : Connection}

/-- No write is made and none comes into the queue, and all that goes out is writes that were in the
queue, with the requests that they had. -/
structure AddsNothing (c c' : Connection) : Prop where
  made : c'.writes.length = c.writes.length
  kept : Extends c c'
  queued : (c'.queue.map (·.write)).Sublist (c.queue.map (·.write))
  sent : Adds (fun _ x => x.write ∈ c.queue.map (·.write) ∧
    (c.writes[x.write]?).map (·.request) = some x.request) c c'

theorem AddsNothing.refl (c : Connection) : AddsNothing c c :=
  ⟨rfl, .of_writes rfl, .refl _, adds_of_logs rfl⟩

theorem AddsNothing.trans (h : AddsNothing c c') (h' : AddsNothing c' c'') : AddsNothing c c'' := by
  refine ⟨h'.made.trans h.made, h.kept.trans h'.kept, h'.queued.trans h.queued,
    h.sent.trans (h'.sent.mono fun _ x hx => ⟨h.queued.subset hx.1, ?_⟩)⟩
  -- the write was there before, since none was made in between, and kept its request
  obtain ⟨p', hp', hr⟩ := Option.map_eq_some_iff.mp hx.2
  have hlt : x.write < c.writes.length := h.made ▸ (List.getElem?_eq_some_iff.mp hp').1
  obtain ⟨q, hq, hrequest, -⟩ := h.kept x.write _ (List.getElem?_eq_getElem hlt)
  rw [List.getElem?_eq_getElem hlt, Option.map_some, ← hrequest, ← hr,
    Option.some.inj (hq.symm.trans hp')]

/-- A channel that takes the place of another sends at most what was in the queue. -/
theorem Coherent.addsNothing_reopen (h : Coherent c) (hd : Handover) :
    AddsNothing c (c.reopen hd) := by
  refine ⟨reopen_length c hd, extends_reopen c hd, reopen_sublist c hd,
    (h.adds_reopen hd).mono fun _ x hx => ?_⟩
  obtain ⟨-, -, hcarried, hrequest⟩ := mem_resent hx.2
  exact ⟨List.mem_map_of_mem (mem_carried.mp hcarried), hrequest⟩

end Connection

/-- Changes of the descriptor add nothing. -/
theorem Writing.switchAll_addsNothing {s : Writing} (h : s.connection.Coherent)
    (ha : s.connection.alive = true) (ds : List Descriptor.Message) :
    s.connection.AddsNothing (s.switchAll ds).connection := by
  have hall : (s.switchAll ds).connection.alive = true ∧ (s.switchAll ds).connection.Coherent ∧
      s.connection.AddsNothing (s.switchAll ds).connection :=
    switchAll_induct (P := fun c => c.alive = true ∧ c.Coherent ∧ s.connection.AddsNothing c)
      (fun c ⟨ha, hc, hadds⟩ => ⟨(Connection.reopen_alive c .drain).trans ha, hc.reopen ha .drain,
        hadds.trans (hc.addsNothing_reopen .drain)⟩)
      ⟨ha, h, .refl _⟩ ds
  exact hall.2.2

/-! ## What is configured -/

namespace RowWriting

variable {s : RowWriting} {k : RowWriter.Call} {e : RowWriterError}

/-- How an event configures dates to be treated, if it does. -/
def configures (s : RowWriting) : Event → Option Bool
  | .call (.convertDates enabled) => if s.connection.alive then some enabled else none
  | _ => none

/-- How a shared run configures dates to be treated, one setting after the other. -/
def configured (s : RowWriting) : List Event → List Bool
  | [] => []
  | e :: es => (s.configures e).toList ++ (s.stepShared e).configured es

theorem call_convertDates (s : RowWriting) (k : RowWriter.Call)
    (hk : ∀ enabled, k ≠ .convertDates enabled) :
    (s.call k).writer.encoder.convertDates = s.writer.encoder.convertDates := by
  have happend (rows : List Row) (offset : Option Int64) :
      (s.call (.append rows offset)).writer.encoder.convertDates =
        s.writer.encoder.convertDates := by
    simp only [call, RowWriter.append_writer, RowWriter.applyEvents_convertDates]
  have hset (d : Descriptor.Message) :
      (s.settle (s.writer.setDescriptor s.connection d)).writer.encoder.convertDates =
        s.writer.encoder.convertDates := by
    cases hd : s.writer.setDescriptor s.connection d with
    | error e => rfl
    | ok r =>
      obtain ⟨shape, -, hwriter, -⟩ := RowWriter.setDescriptor_eq_ok.mp hd
      simp only [settle, hwriter]
  cases k with
  | append rows offset => exact happend rows offset
  | appendJson vs offset =>
    rcases s.call_appendJson vs offset with heq | ⟨rows, heq⟩ <;> rw [heq]
    exact happend rows offset
  | setTableSchema t =>
    simp only [call, RowWriter.setTableSchema]
    cases Shape.writerDescriptor t rootScope .proto2 with
    | error e => rfl
    | ok d => exact hset d
  | setDescriptor d => exact hset d
  | convertDates enabled => exact absurd rfl (hk enabled)
  | control k => rfl

theorem stepShared_convertDates (s : RowWriting) (e : Event) :
    (s.stepShared e).writer.encoder.convertDates =
      (s.configures e).getD s.writer.encoder.convertDates := by
  cases e with
  | other a => rfl
  | call k =>
    simp only [stepShared]
    cases ha : s.connection.alive with
    | false => cases k <;> simp [configures, ha]
    | true =>
      by_cases hk : ∃ enabled, k = .convertDates enabled
      · obtain ⟨enabled, rfl⟩ := hk
        simp only [configures, ha, if_true, Option.getD_some]
        rfl
      · push Not at hk
        have hnone : s.configures (.call k) = none := by
          cases k with
          | convertDates enabled => exact absurd rfl (hk enabled)
          | _ => rfl
        simp only [if_true, hnone, Option.getD_none]
        exact call_convertDates s k hk

/-- The last call of a shared run. -/
theorem runShared_call (es : List Event) (ha : (s.runShared es).connection.alive = true) :
    s.runShared (es ++ [.call k]) = (s.runShared es).call k := by
  rw [runShared, List.foldl_append]
  exact if_pos ha

/-- **Dates are treated as it was configured last.** -/
theorem runShared_convertDates (s : RowWriting) (es : List Event) :
    (s.runShared es).writer.encoder.convertDates =
      (s.configured es).getLast?.getD s.writer.encoder.convertDates := by
  induction es generalizing s with
  | nil => rfl
  | cons e es ih =>
    rw [runShared_cons, ih, stepShared_convertDates, configured, List.getLast?_append]
    cases ((s.stepShared e).configured es).getLast? <;> cases s.configures e <;> rfl

/-! ## Calls that fail -/

/-- The fault of what failed. -/
def fault? {ε α : Type} : Except ε α → Option ε
  | .ok _ => none
  | .error e => some e

/-- Why a call fails to switch the descriptor or to send rows. -/
def failure (s : RowWriting) : RowWriter.Call → Option RowWriterError
  | .append rows offset => fault? (s.writer.append s.connection rows offset).1
  | .appendJson vs offset => fault? (s.writer.appendJson s.connection vs offset).1
  | .setTableSchema t => (fault? (s.writer.setTableSchema s.connection t)).map .shape
  | .setDescriptor d => (fault? (s.writer.setDescriptor s.connection d)).map .shape
  | .convertDates _ | .control _ => none

theorem fault?_eq_some {ε α : Type} {x : Except ε α} {e : ε} :
    fault? x = some e ↔ x = .error e := by
  cases x <;> simp [fault?]

theorem settle_of_fault {r : Except Shape.Error (RowWriter × Connection)}
    (h : (fault? r).map RowWriterError.shape = some e) : s.settle r = s := by
  obtain ⟨f, hf, -⟩ := Option.map_eq_some_iff.mp h
  rw [fault?_eq_some.mp hf, settle]

/-- A call that fails before it has rows to append changes nothing. -/
theorem call_of_failure (h : s.failure k = some e) (hk : k.rows? = none) : s.call k = s := by
  cases k with
  | append rows offset => simp [RowWriter.Call.rows?] at hk
  | appendJson vs offset =>
    cases hrows : RowWriter.rowsOfJson 0 vs with
    | error n => simp only [call, RowWriter.appendJson_of_error hrows]
    | ok rows => simp [RowWriter.Call.rows?, hrows, Except.toOption] at hk
  | setTableSchema t => exact settle_of_fault h
  | setDescriptor d => exact settle_of_fault h
  | convertDates enabled => simp [failure] at h
  | control k => simp [failure] at h

/-- An append that fails has only changed the descriptor, perhaps several times. -/
theorem append_addsNothing (hc : s.connection.Coherent) (ha : s.connection.alive = true)
    {rows : List Row} {offset : Option Int64}
    (h : (s.writer.append s.connection rows offset).1 = .error e) :
    s.connection.AddsNothing (s.writer.append s.connection rows offset).2.2 := by
  rcases s.writer.append_cases s.connection rows offset with ⟨-, heq⟩ | ⟨bytes, hok, -⟩
  · have hconn := congrArg Writing.connection heq
    rw [show (s.writer.append s.connection rows offset).2.2 = _ from hconn]
    exact Writing.switchAll_addsNothing (s := s.plain) hc ha _
  · rw [h] at hok
    exact absurd hok (by simp)

/-- **A call that fails adds nothing to the connection.** -/
theorem failed_addsNothing (hc : s.connection.Coherent) (ha : s.connection.alive = true)
    (h : s.failure k = some e) : s.connection.AddsNothing (s.call k).connection := by
  cases hk : k.rows? with
  | none =>
    rw [call_of_failure h hk]
    exact .refl _
  | some rows =>
    cases k with
    | append rows offset => exact append_addsNothing hc ha (fault?_eq_some.mp h)
    | appendJson vs offset =>
      cases hrows : RowWriter.rowsOfJson 0 vs with
      | error n => simp [RowWriter.Call.rows?, hrows, Except.toOption] at hk
      | ok rows =>
        simp only [failure, call, RowWriter.appendJson_of_ok hrows] at h ⊢
        exact append_addsNothing hc ha (fault?_eq_some.mp h)
    | _ => simp [RowWriter.Call.rows?] at hk

/-- **Encoder and writer agree, whatever fails.** After every shared run of a row writer, with all the
calls in it that failed,

* the encoder has the shape of the descriptor that the writer has;
* dates are treated as it was configured last;
* a call that fails makes no write, puts none into the queue and sends no rows but those of writes that
  were in the queue; and if it is a switch of the descriptor, or an append of values that are no rows, it
  changes nothing at all. -/
theorem agrees_through_failures {start : RowWriting} {d : Descriptor.Message}
    (hc : start.connection.Reachable) (hw : RowWriter.create start.connection d = .ok start.writer)
    (es : List Event) :
    let s := start.runShared es
    Shape.ofDescriptor s.writer.writer.descriptor = .ok s.writer.encoder.shape ∧
      s.writer.encoder.convertDates = (start.configured es).getLast?.getD false ∧
      ∀ k e, s.connection.alive = true → s.failure k = some e →
        (k.rows? = none → s.call k = s) ∧ s.connection.AddsNothing (s.call k).connection := by
  intro s
  have hr : s.Reachable := (RowWriting.Reachable.create hc hw).run es
  have hnew : start.writer.encoder.convertDates = false := by
    obtain ⟨shape, -, hwriter⟩ := map_eq_ok.mp hw
    rw [← hwriter]
  refine ⟨hr.agrees, ?_, fun k e ha h => ⟨call_of_failure h, ?_⟩⟩
  · rw [← hnew]
    exact runShared_convertDates _ es
  · exact failed_addsNothing hr.connection.coherent ha h

/-- A row writer of rows without columns, made on a new connection that keeps two events. -/
def roomy : RowWriting :=
  ⟨atStart.writer, (Connection.blank "s" { eventCapacity := 2 }).connect⟩

/-- A schema with a column of a type that has no form on the wire. -/
def unwritableSchema : Table.Schema where
  columns := [{ name := "span", type := 14 }]

/-- Dates are to be converted. Three rows are sent, and the answers to the first two report a schema each,
the second of which cannot be used. Then the service takes no more requests on the channel. -/
def reportedTwice : List Event :=
  [.call (.convertDates true), .other (.receive 1 .opened), .call (.append [[]] none),
    .call (.append [[]] none), .call (.append [[]] none),
    .other (.receive 1 (.response { updatedSchema := some reportedSchema })),
    .other (.receive 1 (.response { updatedSchema := some unwritableSchema })), .other (.hangUp 1)]

/-- An append takes up the first schema, sends the third row again on the channel that it opens, and fails
at the second schema. -/
theorem agrees_half_way :
    let k := RowWriter.Call.append [[("x", .int 7)]] none
    let s := roomy.runShared reportedTwice
    let t := roomy.runShared (reportedTwice ++ [.call k])
    s.connection.alive = true ∧
      s.failure k = some (.shape (.unsupported (.type "span" "INTERVAL"))) ∧
      t.writer.writer.descriptor.name = some "root" ∧
      (t.connection.sentOn 2).map (·.write) = [2] ∧
      Shape.ofDescriptor t.writer.writer.descriptor = .ok t.writer.encoder.shape ∧
      t.writer.encoder.convertDates = true ∧ s.connection.AddsNothing t.connection := by
  have hagain : let t := roomy.runShared (reportedTwice ++ [.call (.append [[("x", .int 7)]] none)])
      t.writer.writer.descriptor.name = some "root" ∧
        (t.connection.sentOn 2).map (·.write) = [2] := by cbv
  intro k s t
  have hnew : Connection.create "s" { eventCapacity := 2 } = .ok roomy.connection :=
    Connection.create_eq (by decide)
  have hc : roomy.connection.Reachable := Connection.reachable_created hnew
  have hw : RowWriter.create roomy.connection { name := some "old" } = .ok roomy.writer := by cbv
  have ha : s.connection.alive = true := by cbv
  have hfail : s.failure k = some (.shape (.unsupported (.type "span" "INTERVAL"))) := by cbv
  obtain ⟨-, -, hnothing⟩ := agrees_through_failures hc hw reportedTwice
  obtain ⟨hagrees, hdates, -⟩ := agrees_through_failures hc hw (reportedTwice ++ [.call k])
  have hset : roomy.configured (reportedTwice ++ [.call k]) = [true] := by cbv
  rw [hset] at hdates
  have hlast : t = s.call k := runShared_call _ ha
  refine ⟨ha, hfail, hagain.1, hagain.2, hagrees, hdates, ?_⟩
  rw [hlast]
  exact (hnothing k _ ha hfail).2

end RowWriting

end RowStream.Stream
