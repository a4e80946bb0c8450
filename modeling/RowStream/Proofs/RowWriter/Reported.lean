import Mathlib
import RowStream.Proofs.RowWriter.Shared

/-!
# Reported schemas and row writers

The schemas that a connection reported after a row writer last looked are undelivered (`undelivered`),
those included whose events are not kept any more. An append takes up what is kept, and the latest schema
of the connection where it missed something. What it missed may have been errors alone, and the latest
schema one that the row writer has taken up long ago.

* `news_getLast?`: the last undelivered schema is the last that is taken up.
* `appended_as_reported`: an append that sends has switched to the last undelivered schema.
* `applied_without_schema`: what an append does to the descriptor where no schema is undelivered.
* `errors_bring_back`: errors alone, and an old schema replaces the descriptor.
-/

namespace RowStream.Stream

theorem Connection.Reachable.told {c : Connection} (h : c.Reachable) : c.Told := by
  obtain ⟨id, o, c₀, as, hnew, rfl⟩ := h
  exact Connection.latestSchema_run hnew as

/-- A change of the descriptor leaves the writer with it. -/
theorem Writing.call_setDescriptor_descriptor (s : Writing) (d : Descriptor.Message) :
    (s.call (.setDescriptor d)).writer.descriptor = d := by
  by_cases hd : d = s.writer.descriptor
  · rw [call_setDescriptor_self hd, hd]
  · rw [call_setDescriptor_of_ne hd]

namespace RowWriter

variable {w : RowWriter} {c : Connection} {t : Table.Schema} {d : Descriptor.Message}

/-- The schemas among the events that the row writer has not passed, kept or not. -/
def undelivered (w : RowWriter) (c : Connection) : List Table.Schema :=
  (w.subscription.ahead c.published).filterMap Event.schema?

/-- Events that the row writer has not passed are not kept any more. -/
def Missed (w : RowWriter) (c : Connection) : Prop :=
  w.subscription.next + c.kept < c.published.length

theorem catchUp_of_missed (h : w.Missed c) : w.subscription.catchUp c.published c.kept =
    (c.published.length - c.kept - w.subscription.next, ⟨c.published.length - c.kept⟩) := by
  simp only [Missed] at h
  rw [Subscription.catchUp, if_pos (by omega)]

theorem catchUp_of_not_missed (h : ¬ w.Missed c) :
    w.subscription.catchUp c.published c.kept = (0, w.subscription) := by
  simp only [Missed] at h
  rw [Subscription.catchUp, if_neg (by omega)]

/-! ## Schemas that wait -/

/-- **The last undelivered schema is the last that is taken up**: it is the latest of the connection,
whether its event is kept or not. -/
theorem news_getLast? (hc : c.Told) (h : (w.undelivered c).getLast? = some t) :
    (w.news c).getLast? = some t := by
  by_cases hm : w.Missed c
  · have hlatest : c.latestSchema = some t := by
      rw [hc, ← List.take_append_drop w.subscription.next c.published, List.filterMap_append,
        List.getLast?_append]
      simp only [undelivered, Subscription.ahead] at h
      rw [h, Option.some_or]
    have hne : c.published.length - c.kept - w.subscription.next ≠ 0 := by
      simp only [Missed] at hm
      omega
    simp only [news, catchUp_of_missed hm, if_neg hne, hlatest]
    simp
  · simp only [news, catchUp_of_not_missed hm, if_true, List.append_nil]
    exact h

theorem descriptorOf?_eq_some : descriptorOf? t = some d ↔
    Shape.writerDescriptor t rootScope .proto2 = .ok d ∧
      ∃ shape, Shape.ofDescriptor d = .ok shape := by
  rw [descriptorOf?, Option.map_eq_some_iff]
  simp only [toOption_eq_some, compile]
  cases Shape.writerDescriptor t rootScope .proto2 with
  | error e => simp
  | ok d' =>
    simp only [map_eq_ok, Except.ok.injEq]
    constructor
    · rintro ⟨-, ⟨shape, hs, rfl⟩, rfl⟩
      exact ⟨rfl, shape, hs⟩
    · rintro ⟨rfl, shape, hs⟩
      exact ⟨_, ⟨shape, hs, rfl⟩, rfl⟩

/-- Schemas are taken up without a fault exactly if each of them can be used. -/
theorem applyEvents_eq_none :
    (w.applyEvents c).1 = none ↔ ∀ t ∈ w.news c, descriptorOf? t ≠ none := by
  simp only [applyEvents, news]
  generalize w.subscription.catchUp c.published c.kept = caught
  obtain ⟨missed, s⟩ := caught
  obtain ⟨hplain, hnone⟩ := applyAll_plain { w with subscription := s } c (s.ahead c.published)
  generalize applyAll { w with subscription := s } c (s.ahead c.published) = r at hplain hnone
  obtain ⟨fault, w', c'⟩ := r
  have hlatest : c'.latestSchema = c.latestSchema := by
    simpa using congrArg (·.connection.latestSchema) hplain
  rw [List.forall_mem_append, ← hnone]
  cases fault with
  | some e => simp
  | none =>
    by_cases hm : missed = 0
    · simp [hm]
    · simp only [hm, if_false, true_and, applyLatest, hlatest]
      cases c.latestSchema with
      | none => simp
      | some t =>
        cases ht : descriptorOf? t with
        | none =>
          obtain ⟨e, he⟩ := setTableSchema_of_none w' c' ht
          simp [he, ht]
        | some d =>
          obtain ⟨w'', c'', hok, -⟩ := setTableSchema_of_some w' c' ht
          simp [hok, ht]

/-- Without a fault the descriptor is that of the last schema that is taken up. -/
theorem applyEvents_descriptor (h : (w.applyEvents c).1 = none)
    (ht : (w.news c).getLast? = some t) :
    descriptorOf? t = some (w.applyEvents c).2.1.writer.descriptor := by
  have husable := applyEvents_eq_none.mp h
  obtain ⟨ts, hts⟩ := List.getLast?_eq_some_iff.mp ht
  rw [hts] at husable
  obtain ⟨d, hd⟩ := Option.ne_none_iff_exists'.mp (husable t (by simp))
  have htakes : w.takes c = taken ts ++ [d] := by
    rw [takes, hts, taken_append_of_usable fun t ht => husable t (by simp [ht])]
    simp [taken, hd]
  have hplain := congrArg (·.writer.descriptor) (applyEvents_plain w c)
  rw [htakes, Writing.switchAll_append, Writing.switchAll_cons, Writing.switchAll_nil] at hplain
  rw [hd, ← Writing.call_setDescriptor_descriptor ((w.plain c).switchAll (taken ts)) d]
  exact congrArg some hplain.symm

/-! ## Errors alone -/

/-- To pass errors is only to go on among the events. -/
theorem applyAll_of_errors {es : List Event} (h : es.filterMap Event.schema? = []) :
    ∃ place, w.applyAll c es = (none, { w with subscription := place }, c) := by
  induction es generalizing w with
  | nil => exact ⟨w.subscription, rfl⟩
  | cons e es ih =>
    cases e with
    | schemaUpdated t => simp [Event.schema?] at h
    | error e => exact ih (w := w.advance) h

/-- Where no schema waits and nothing was missed, nothing is taken up. -/
theorem applyEvents_of_kept (hu : w.undelivered c = []) (hm : ¬ w.Missed c) :
    ∃ place, w.applyEvents c = (none, { w with subscription := place }, c) := by
  obtain ⟨place, hall⟩ := applyAll_of_errors (w := w) (c := c) hu
  refine ⟨place, ?_⟩
  simp only [applyEvents, catchUp_of_not_missed hm, hall, if_true]

/-- Where no schema waits and something was missed, the latest schema is taken up. -/
theorem applyEvents_of_missed (hu : w.undelivered c = []) (hm : w.Missed c) :
    ∃ place, w.applyEvents c = applyLatest { w with subscription := place } c := by
  have hlt : w.subscription.next + c.kept < c.published.length := hm
  have hnone : (c.published.drop w.subscription.next).filterMap Event.schema? = [] := hu
  have hsub := (List.drop_sublist_drop_left c.published
    (show w.subscription.next ≤ c.published.length - c.kept by omega)).filterMap Event.schema?
  rw [hnone, List.sublist_nil] at hsub
  obtain ⟨place, hall⟩ := applyAll_of_errors (c := c)
    (w := { w with subscription := ⟨c.published.length - c.kept⟩ }) hsub
  refine ⟨place, ?_⟩
  simp only [applyEvents, catchUp_of_missed hm, Subscription.ahead, hall]
  rw [if_neg (by omega)]

/-- A switch to a schema that can be used. -/
theorem setTableSchema_of_usable (w : RowWriter) (c : Connection) (h : descriptorOf? t = some d) :
    ∃ shape, Shape.ofDescriptor d = .ok shape ∧ w.setTableSchema c t =
      .ok ({ w with writer := (w.writer.setDescriptor c d).2.1,
                    encoder := { w.encoder with shape := shape } },
        (w.writer.setDescriptor c d).2.2) := by
  obtain ⟨hd, shape, hs⟩ := descriptorOf?_eq_some.mp h
  refine ⟨shape, hs, ?_⟩
  rw [setTableSchema_eq hd]
  exact setDescriptor_eq_ok.mpr ⟨shape, hs, rfl, rfl⟩

end RowWriter

namespace RowWriting

open RowWriter (descriptorOf?)

variable {s : RowWriting} {k : RowWriter.Call} {n : Nat} {t : Table.Schema}

/-! ## Connections that keep one event -/

/-- A row writer of rows without columns, made on a new connection that keeps one event. -/
def atStart : RowWriting :=
  let m : Pool.Message := ⟨"old", [], { name := some "old" }⟩
  ⟨⟨{ descriptor := m.descriptor }, { shape := ⟨⟨[m], []⟩, m⟩ }, ⟨0⟩⟩,
    (Connection.blank "s" { eventCapacity := 1 }).connect⟩

theorem reachable_atStart : atStart.Reachable :=
  .create (Connection.reachable_created (Connection.create_eq (by decide)))
    (d := { name := some "old" }) (by cbv)

/-- The schema of the column `x`. -/
def reportedSchema : Table.Schema where
  columns := [{ name := "x", type := 2 }]

/-- A row is sent, and its answer reports the schema. -/
def report : List Event :=
  [.other (.receive 1 .opened), .call (.append [[]] none),
    .other (.receive 1 (.response { updatedSchema := some reportedSchema }))]

/-- The service refuses the caller. -/
def denied : Service.CallError := ⟨.permissionDenied, "", []⟩

/-! ## Appends -/

/-- **A reported schema reaches the next append.** Where a schema is undelivered, kept or not, an append
that sends has switched to the last one: the request says its descriptor, and the rows are encoded by
it. -/
theorem appended_as_reported (h : s.Reachable)
    (ht : (s.writer.undelivered s.connection).getLast? = some t) (hn : s.written k = some n) :
    ∃ d shape rows bytes, k.rows? = some rows ∧
      Shape.writerDescriptor t rootScope .proto2 = .ok d ∧ Shape.ofDescriptor d = .ok shape ∧
      Encoder.encode ⟨shape, s.writer.encoder.convertDates⟩ rows = .ok bytes ∧
      (s.call k).connection.Carries n d bytes := by
  obtain ⟨rows, shape, bytes, hrows, hshape, henc, hcarries⟩ := h.written hn
  obtain ⟨-, rows', offset, -, hwriter, -, hok⟩ := written_eq_some hn
  have hnews := RowWriter.news_getLast? h.connection.told ht
  have hd := RowWriter.applyEvents_descriptor (RowWriter.append_eq_ok hok).1 hnews
  rw [← RowWriter.append_writer s.writer s.connection rows' offset, ← hwriter] at hd
  exact ⟨_, shape, rows, bytes, hrows, (RowWriter.descriptorOf?_eq_some.mp hd).1, hshape, henc,
    hcarries⟩

/-- The channel fails after the report, so that only its failure is kept; the next append sends a row with
the column all the same. -/
theorem appended_after_failure :
    let s := atStart.runShared (report ++ [.other (.receive 1 (.failure denied))])
    s.Reachable ∧ (s.writer.undelivered s.connection).getLast? = some reportedSchema ∧
      s.writer.Missed s.connection ∧ s.written (.append [[("x", .int 7)]] none) = some 1 ∧
      ∃ d shape rows bytes, some [[("x", .int 7)]] = some rows ∧
        Shape.writerDescriptor reportedSchema rootScope .proto2 = .ok d ∧
        Shape.ofDescriptor d = .ok shape ∧ Encoder.encode ⟨shape, false⟩ rows = .ok bytes ∧
        (s.call (.append [[("x", .int 7)]] none)).connection.Carries 1 d bytes := by
  intro s
  have hr : s.Reachable := reachable_atStart.run _
  have hlast : (s.writer.undelivered s.connection).getLast? = some reportedSchema := by cbv
  have hn : s.written (.append [[("x", .int 7)]] none) = some 1 := by cbv
  exact ⟨hr, hlast, by cbv, hn, appended_as_reported hr hlast hn⟩

/-- Nothing became of a look at the events: writer, encoder and connection are what they were. -/
def Untouched (s : RowWriting) (w : RowWriter) (c : Connection) : Prop :=
  w.writer = s.writer.writer ∧ w.encoder = s.writer.encoder ∧ c = s.connection

/-- **Where no schema is undelivered**, however many errors are, an append first does this to the row
writer and its connection:

* nothing, if all that it has not passed is kept, or if the connection never reported a schema, or if
  the latest one cannot be used, which is a fault, or has the descriptor that the row writer has;
* else it switches encoder and writer to the latest schema and replaces the channel. -/
theorem applied_without_schema (h : s.Reachable)
    (hu : s.writer.undelivered s.connection = []) :
    let r := s.writer.applyEvents s.connection
    (¬ s.writer.Missed s.connection → r.1 = none ∧ s.Untouched r.2.1 r.2.2) ∧
    (s.writer.Missed s.connection →
      (s.connection.latestSchema = none → r.1 = none ∧ s.Untouched r.2.1 r.2.2) ∧
      ∀ t, s.connection.latestSchema = some t →
        (descriptorOf? t = none → r.1 ≠ none ∧ s.Untouched r.2.1 r.2.2) ∧
        ∀ d, descriptorOf? t = some d → r.1 = none ∧
          (d = s.writer.writer.descriptor → s.Untouched r.2.1 r.2.2) ∧
          (d ≠ s.writer.writer.descriptor →
            r.2.1.writer = { s.writer.writer with descriptor := d } ∧
            Shape.ofDescriptor d = .ok r.2.1.encoder.shape ∧
            r.2.1.encoder.convertDates = s.writer.encoder.convertDates ∧
            r.2.2 = s.connection.reconnect)) := by
  intro r
  constructor
  · intro hm
    obtain ⟨place, heq⟩ := RowWriter.applyEvents_of_kept hu hm
    simp only [r, heq]
    exact ⟨trivial, rfl, rfl, rfl⟩
  · intro hm
    obtain ⟨place, heq⟩ := RowWriter.applyEvents_of_missed hu hm
    simp only [r, heq, RowWriter.applyLatest]
    refine ⟨fun hl => ?_, fun t hl => ⟨fun ht => ?_, fun d hd => ?_⟩⟩ <;> simp only [hl]
    · exact ⟨trivial, rfl, rfl, rfl⟩
    · obtain ⟨e, he⟩ := RowWriter.setTableSchema_of_none
        { s.writer with subscription := place } s.connection ht
      simp only [he]
      exact ⟨by simp, rfl, rfl, rfl⟩
    · obtain ⟨shape, hs, hset⟩ := RowWriter.setTableSchema_of_usable
        { s.writer with subscription := place } s.connection hd
      simp only [hset, Writer.setDescriptor]
      refine ⟨trivial, fun hsame => ?_, fun hother => ?_⟩
      · have hshape : shape = s.writer.encoder.shape := by
          have hagrees : Shape.ofDescriptor s.writer.writer.descriptor =
            .ok s.writer.encoder.shape := h.agrees
          rw [← hsame, hs] at hagrees
          exact Except.ok.inj hagrees
        rw [if_pos hsame, hshape]
        exact ⟨rfl, rfl, rfl⟩
      · rw [if_neg hother]
        exact ⟨rfl, hs, trivial, rfl⟩

/-- The schema is taken up and another descriptor set; then the channel and the one that is opened for it
are refused. -/
def refusedTwice : List Event :=
  [.call (.append [[]] none), .call (.setDescriptor { name := some "new" }),
    .other (.receive 3 (.refused denied)), .call (.control .connect),
    .other (.receive 4 (.refused denied))]

/-- One refusal alone is kept, and the descriptor stays. -/
theorem descriptor_stays :
    let s := atStart.runShared (report ++ refusedTwice.take 3)
    s.Reachable ∧ s.writer.undelivered s.connection = [] ∧
      s.connection.latestSchema = some reportedSchema ∧
      s.Untouched (s.writer.applyEvents s.connection).2.1
        (s.writer.applyEvents s.connection).2.2 := by
  intro s
  have hr : s.Reachable := reachable_atStart.run _
  have hu : s.writer.undelivered s.connection = [] := by cbv
  have hkept : ¬ s.writer.Missed s.connection := by
    have hplace : s.writer.subscription.next = 1 ∧ s.connection.kept = 1 ∧
      s.connection.published.length = 2 := by cbv
    rw [RowWriter.Missed]
    omega
  obtain ⟨hstay, -⟩ := applied_without_schema hr hu
  exact ⟨hr, hu, by cbv, (hstay hkept).2⟩

/-- **Two refusals bring back the schema**: nothing but errors was published since the descriptor was
set, one of them is not kept, and the next look at the events sets the descriptor of the schema again and
replaces the channel. -/
theorem errors_bring_back :
    let s := atStart.runShared (report ++ refusedTwice)
    let r := s.writer.applyEvents s.connection
    s.Reachable ∧ s.writer.undelivered s.connection = [] ∧
      s.writer.writer.descriptor = { name := some "new" } ∧ r.1 = none ∧
      Shape.writerDescriptor reportedSchema rootScope .proto2 = .ok r.2.1.writer.descriptor ∧
      r.2.1.writer.descriptor.name = some "root" ∧
      s.connection.generation = 4 ∧ r.2.2.generation = 5 :=
  ⟨reachable_atStart.run _, by cbv⟩

end RowWriting

end RowStream.Stream
