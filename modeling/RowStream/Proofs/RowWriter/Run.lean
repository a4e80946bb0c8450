import RowStream.Proofs.Stream.Reports
import RowStream.Proofs.Writer.Run
import RowStream.Stream.RowWriter

/-!
# Runs of a row writer

A row writer is a writer with an encoder. It gets other descriptors without being told to: before it
appends, it takes up the schemas that its connection has reported since (`RowWriter.news`), one after
the other up to the first that cannot be used (`taken`).

* `applyEvents_plain`: to take up schemas is to change the descriptor to each of theirs.
* `append_cases`: an append is that, and then an append of the writer inside unless the rows cannot
  be encoded.
* `step_plain`: what happens to a row writer is a run of the writer inside.
-/

namespace RowStream.Stream

/-! ## Changes of the descriptor -/

namespace Writing

variable {s : Writing} {d : Descriptor.Message} {ds : List Descriptor.Message}

/-- The writer and its connection after changes of the descriptor. -/
def switchAll (s : Writing) (ds : List Descriptor.Message) : Writing :=
  ds.foldl (fun s d => s.call (.setDescriptor d)) s

@[simp] theorem switchAll_nil (s : Writing) : s.switchAll [] = s := rfl

@[simp] theorem switchAll_cons (s : Writing) (d : Descriptor.Message)
    (ds : List Descriptor.Message) :
    s.switchAll (d :: ds) = (s.call (.setDescriptor d)).switchAll ds := rfl

theorem switchAll_append (s : Writing) (ds ds' : List Descriptor.Message) :
    s.switchAll (ds ++ ds') = (s.switchAll ds).switchAll ds' := List.foldl_append

theorem call_setDescriptor_self (h : d = s.writer.descriptor) :
    s.call (.setDescriptor d) = s := by
  simp [call, Writer.setDescriptor, h]

theorem call_setDescriptor_of_ne (h : d ≠ s.writer.descriptor) : s.call (.setDescriptor d) =
    ⟨{ s.writer with descriptor := d }, s.connection.reconnect⟩ := by
  simp [call, Writer.setDescriptor, h]

/-- The descriptor that a writer has already changes nothing. -/
theorem switchAll_self (h : ∀ d ∈ ds, d = s.writer.descriptor) : s.switchAll ds = s := by
  induction ds with
  | nil => rfl
  | cons d ds ih =>
    rw [switchAll_cons, call_setDescriptor_self (h d List.mem_cons_self)]
    exact ih fun d hd => h d (List.mem_cons_of_mem _ hd)

/-- What a replacement of the channel keeps, changes of the descriptor keep. -/
theorem switchAll_induct {P : Connection → Prop} (hstep : ∀ c, P c → P c.reconnect)
    (h : P s.connection) (ds : List Descriptor.Message) : P (s.switchAll ds).connection := by
  induction ds generalizing s with
  | nil => exact h
  | cons d ds ih =>
    rw [switchAll_cons]
    refine ih ?_
    by_cases hd : d = s.writer.descriptor
    · rwa [call_setDescriptor_self hd]
    · rw [call_setDescriptor_of_ne hd]
      exact hstep _ h

@[simp] theorem switchAll_alive (s : Writing) (ds : List Descriptor.Message) :
    (s.switchAll ds).connection.alive = s.connection.alive :=
  switchAll_induct (P := fun c => c.alive = s.connection.alive)
    (fun c hc => (Connection.reopen_alive c .drain).trans hc) rfl ds

@[simp] theorem switchAll_latestSchema (s : Writing) (ds : List Descriptor.Message) :
    (s.switchAll ds).connection.latestSchema = s.connection.latestSchema :=
  switchAll_induct (P := fun c => c.latestSchema = s.connection.latestSchema)
    (fun c hc => (Connection.reopen_latestSchema c .drain).trans hc) rfl ds

/-- Where a channel is, one stays. -/
theorem switchAll_channel_ne (h : s.connection.channel ≠ none) (ds : List Descriptor.Message) :
    (s.switchAll ds).connection.channel ≠ none :=
  switchAll_induct (P := fun c => c.channel ≠ none)
    (fun c _ => Connection.reopen_channel_ne c .drain) h ds

/-- Changes of the descriptor are a run. -/
theorem switchAll_eq_run (h : s.connection.alive = true) (ds : List Descriptor.Message) :
    s.switchAll ds = s.run (ds.map fun d => .call (.setDescriptor d)) := by
  induction ds generalizing s with
  | nil => rfl
  | cons d ds ih =>
    have halive : (s.call (.setDescriptor d)).connection.alive = true :=
      (switchAll_alive s [d]).trans h
    rw [switchAll_cons, ih halive, List.map_cons, run_cons, step, if_pos h]

/-- **Another descriptor opens a channel**, also where there was none. -/
theorem switchAll_opens (h : ∃ d ∈ ds, d ≠ s.writer.descriptor) :
    (s.switchAll ds).connection.channel ≠ none := by
  induction ds with
  | nil => obtain ⟨d, hd, -⟩ := h; exact absurd hd List.not_mem_nil
  | cons d ds ih =>
    rw [switchAll_cons]
    by_cases hd : d = s.writer.descriptor
    · rw [call_setDescriptor_self hd]
      obtain ⟨d', hmem, hne⟩ := h
      refine ih ⟨d', (List.mem_cons.mp hmem).resolve_left ?_, hne⟩
      rintro rfl
      exact hne hd
    · rw [call_setDescriptor_of_ne hd]
      exact switchAll_channel_ne (Connection.reopen_channel_ne _ _) ds

end Writing

/-! ## Schemas that are taken up -/

namespace RowWriter

/-- What a row writer makes of a schema: the descriptor, and the shape of its rows. -/
def compile (t : Table.Schema) : Except Shape.Error (Descriptor.Message × Shape) :=
  match Shape.writerDescriptor t rootScope .proto2 with
  | .ok d => (Shape.ofDescriptor d).map fun shape => (d, shape)
  | .error e => .error e

/-- The descriptor of a schema, if it can be used. -/
def descriptorOf? (t : Table.Schema) : Option Descriptor.Message := (compile t).toOption.map (·.1)

/-- The descriptors of schemas, up to the first that cannot be used. -/
def taken : List Table.Schema → List Descriptor.Message
  | [] => []
  | t :: ts =>
    match descriptorOf? t with
    | some d => d :: taken ts
    | none => []

/-- The schemas that a row writer has yet to take up: those that wait, and the latest where it
missed some. -/
def news (w : RowWriter) (c : Connection) : List Table.Schema :=
  let (missed, s) := w.subscription.catchUp c.published c.kept
  (s.ahead c.published).filterMap Event.schema? ++
    if missed = 0 then [] else c.latestSchema.toList

/-- The descriptors that the next append changes to. -/
def takes (w : RowWriter) (c : Connection) : List Descriptor.Message := taken (w.news c)

variable {w : RowWriter} {c : Connection} {t : Table.Schema}

theorem mem_taken {d : Descriptor.Message} {ts : List Table.Schema} (h : d ∈ taken ts) :
    ∃ t ∈ ts, descriptorOf? t = some d := by
  induction ts with
  | nil => exact absurd h List.not_mem_nil
  | cons t ts ih =>
    cases ht : descriptorOf? t with
    | none => simp [taken, ht] at h
    | some d' =>
      simp only [taken, ht, List.mem_cons] at h
      rcases h with rfl | h
      · exact ⟨t, List.mem_cons_self, ht⟩
      · obtain ⟨t', hmem, heq⟩ := ih h
        exact ⟨t', List.mem_cons_of_mem _ hmem, heq⟩

theorem taken_append_of_usable {ts : List Table.Schema} (h : ∀ t ∈ ts, descriptorOf? t ≠ none)
    (us : List Table.Schema) : taken (ts ++ us) = taken ts ++ taken us := by
  induction ts with
  | nil => rfl
  | cons t ts ih =>
    obtain ⟨d, hd⟩ := Option.ne_none_iff_exists'.mp (h t List.mem_cons_self)
    simp only [List.cons_append, taken, hd,
      ih fun t ht => h t (List.mem_cons_of_mem _ ht)]

theorem taken_append_of_unusable {ts : List Table.Schema} (h : ∃ t ∈ ts, descriptorOf? t = none)
    (us : List Table.Schema) : taken (ts ++ us) = taken ts := by
  induction ts with
  | nil => obtain ⟨t, ht, -⟩ := h; exact absurd ht List.not_mem_nil
  | cons t ts ih =>
    cases ht : descriptorOf? t with
    | none => simp only [List.cons_append, taken, ht]
    | some d =>
      obtain ⟨t', hmem, hnone⟩ := h
      have hrest : t' ∈ ts := (List.mem_cons.mp hmem).resolve_left (by rintro rfl; simp_all)
      simp only [List.cons_append, taken, ht, ih ⟨t', hrest, hnone⟩]

/-- The writer inside a row writer, with its connection. -/
abbrev plain (w : RowWriter) (c : Connection) : Writing := ⟨w.writer, c⟩

/-! ## To take up schemas -/

/-- Switching to a schema is switching to its descriptor. -/
theorem setTableSchema_eq {d : Descriptor.Message}
    (hd : Shape.writerDescriptor t rootScope .proto2 = .ok d) (w : RowWriter) (c : Connection) :
    w.setTableSchema c t = w.setDescriptor c d := by
  rw [setTableSchema, hd]

theorem setDescriptor_eq_ok {w' : RowWriter} {c' : Connection} {d : Descriptor.Message} :
    w.setDescriptor c d = .ok (w', c') ↔ ∃ shape, Shape.ofDescriptor d = .ok shape ∧
      w' = { w with writer := (w.writer.setDescriptor c d).2.1,
                    encoder := { w.encoder with shape := shape } } ∧
      c' = (w.writer.setDescriptor c d).2.2 := by
  unfold setDescriptor
  cases Shape.ofDescriptor d with
  | error e => simp [Except.map]
  | ok shape => simp [Except.map, eq_comm]

theorem setTableSchema_eq_ok {w' : RowWriter} {c' : Connection} :
    w.setTableSchema c t = .ok (w', c') ↔ ∃ d,
      Shape.writerDescriptor t rootScope .proto2 = .ok d ∧ w.setDescriptor c d = .ok (w', c') := by
  unfold setTableSchema
  cases Shape.writerDescriptor t rootScope .proto2 with
  | error e => simp
  | ok d => simp

/-- A schema that can be used changes the descriptor of the writer inside. -/
theorem setTableSchema_of_some (w : RowWriter) (c : Connection) {d : Descriptor.Message}
    (h : descriptorOf? t = some d) : ∃ w' c', w.setTableSchema c t = .ok (w', c') ∧
      w'.plain c' = (w.plain c).call (.setDescriptor d) ∧ w'.subscription = w.subscription := by
  simp only [descriptorOf?, compile] at h
  simp only [setTableSchema]
  cases hd : Shape.writerDescriptor t rootScope .proto2 with
  | error e => simp [hd, Except.toOption] at h
  | ok d' =>
    cases hs : Shape.ofDescriptor d' with
    | error e => simp [hd, hs, Except.map, Except.toOption] at h
    | ok shape =>
      obtain rfl : d' = d := by simpa [hd, hs, Except.map, Except.toOption] using h
      simp only [setDescriptor, hs, Except.map]
      exact ⟨_, _, rfl, rfl, rfl⟩

theorem setTableSchema_of_none (w : RowWriter) (c : Connection) (h : descriptorOf? t = none) :
    ∃ e, w.setTableSchema c t = .error e := by
  simp only [descriptorOf?, compile] at h
  simp only [setTableSchema]
  cases hd : Shape.writerDescriptor t rootScope .proto2 with
  | error e => exact ⟨e, rfl⟩
  | ok d =>
    cases hs : Shape.ofDescriptor d with
    | error e => exact ⟨e, by simp [setDescriptor, hs, Except.map]⟩
    | ok shape => simp [hd, hs, Except.map, Except.toOption] at h

/-- To pass events is to change to the descriptors of their schemas, and fails at the first that
cannot be used. -/
theorem applyAll_plain (w : RowWriter) (c : Connection) (es : List Event) :
    (w.applyAll c es).2.1.plain (w.applyAll c es).2.2 =
        (w.plain c).switchAll (taken (es.filterMap Event.schema?)) ∧
      ((w.applyAll c es).1 = none ↔ ∀ t ∈ es.filterMap Event.schema?, descriptorOf? t ≠ none) := by
  induction es generalizing w c with
  | nil => simp [applyAll, taken]
  | cons e es ih =>
    cases e with
    | error e =>
      exact ih w.advance c
    | schemaUpdated t =>
      simp only [List.filterMap_cons, Event.schema?]
      cases ht : descriptorOf? t with
      | none =>
        obtain ⟨e, he⟩ := setTableSchema_of_none w.advance c ht
        simp only [applyAll, he, taken, ht, Writing.switchAll_nil, List.forall_mem_cons]
        exact ⟨rfl, by simp⟩
      | some d =>
        obtain ⟨w', c', hok, hplain, -⟩ := setTableSchema_of_some w.advance c ht
        simp only [applyAll, hok, taken, ht, Writing.switchAll_cons, List.forall_mem_cons]
        obtain ⟨hrest, hnone⟩ := ih w' c'
        rw [hplain] at hrest
        exact ⟨hrest, by simp [hnone]⟩

/-- The latest schema is taken up like any other. -/
theorem applyLatest_plain (w : RowWriter) (c : Connection) :
    (w.applyLatest c).2.1.plain (w.applyLatest c).2.2 =
      (w.plain c).switchAll (taken c.latestSchema.toList) := by
  cases hl : c.latestSchema with
  | none => simp [applyLatest, hl, taken]
  | some t =>
    simp only [applyLatest, hl, Option.toList_some, taken]
    cases ht : descriptorOf? t with
    | none =>
      obtain ⟨e, he⟩ := setTableSchema_of_none w c ht
      simp [he]
    | some d =>
      obtain ⟨w', c', hok, hplain, -⟩ := setTableSchema_of_some w c ht
      simpa only [hok, Writing.switchAll_cons, Writing.switchAll_nil] using hplain

/-- **To take up schemas is to change to their descriptors.** -/
theorem applyEvents_plain (w : RowWriter) (c : Connection) :
    (w.applyEvents c).2.1.plain (w.applyEvents c).2.2 = (w.plain c).switchAll (w.takes c) := by
  simp only [applyEvents, takes, news]
  generalize w.subscription.catchUp c.published c.kept = caught
  obtain ⟨missed, s⟩ := caught
  obtain ⟨hplain, hnone⟩ := applyAll_plain { w with subscription := s } c (s.ahead c.published)
  generalize applyAll { w with subscription := s } c (s.ahead c.published) = r at hplain hnone
  obtain ⟨fault, w', c'⟩ := r
  simp only at hplain hnone ⊢
  cases fault with
  | some e =>
    have hbad : ∃ t ∈ (s.ahead c.published).filterMap Event.schema?, descriptorOf? t = none := by
      by_contra hno
      push Not at hno
      exact absurd (hnone.mpr hno) (by simp)
    rw [taken_append_of_unusable hbad]
    exact hplain
  | none =>
    have hgood := hnone.mp rfl
    rw [taken_append_of_usable hgood, Writing.switchAll_append]
    have hlatest : c'.latestSchema = c.latestSchema := by
      have := congrArg (·.connection.latestSchema) hplain
      simpa using this
    by_cases hm : missed = 0
    · simpa [hm, taken] using hplain
    · simp only [hm, if_false]
      rw [applyLatest_plain, hlatest]
      exact congrArg (fun s => s.switchAll (taken c.latestSchema.toList)) hplain

/-- **An append takes up schemas, and then the writer inside appends** unless the rows cannot be
encoded, or a schema cannot be used. -/
theorem append_cases (w : RowWriter) (c : Connection) (rows : List Row) (offset : Option Int64) :
    let r := w.append c rows offset
    let t := (w.plain c).switchAll (w.takes c)
    (∃ e, r.1 = .error e) ∧ r.2.1.plain r.2.2 = t ∨
      ∃ bytes, r.1 = .ok (t.writer.append t.connection bytes offset).1 ∧
        r.2.1.plain r.2.2 = t.call (.append bytes offset) := by
  rw [← applyEvents_plain]
  simp only [append]
  generalize w.applyEvents c = applied
  obtain ⟨fault, w', c'⟩ := applied
  cases fault with
  | some e => exact .inl ⟨⟨_, rfl⟩, rfl⟩
  | none =>
    cases hrows : w'.encoder.encode rows with
    | error e => exact .inl ⟨⟨.encode e, by simp [hrows]⟩, by simp [hrows]⟩
    | ok bytes =>
      refine .inr ⟨bytes, ?_, ?_⟩
      · simp [hrows]
      · simp [hrows, Writing.call]

/-! ## The place among the events -/

/-- Events are passed, never gone back to. -/
theorem applyAll_next (w : RowWriter) (c : Connection) (es : List Event) :
    w.subscription.next ≤ (w.applyAll c es).2.1.subscription.next := by
  induction es generalizing w c with
  | nil => exact Nat.le_refl _
  | cons e es ih =>
    have hadvance : w.subscription.next ≤ w.advance.subscription.next := Nat.le_succ _
    cases e with
    | error e => exact hadvance.trans (ih w.advance c)
    | schemaUpdated t =>
      cases ht : descriptorOf? t with
      | none =>
        obtain ⟨e, he⟩ := setTableSchema_of_none w.advance c ht
        simpa only [applyAll, he] using hadvance
      | some d =>
        obtain ⟨w', c', hok, -, hsub⟩ := setTableSchema_of_some w.advance c ht
        simp only [applyAll, hok]
        rw [← hsub] at hadvance
        exact hadvance.trans (ih w' c')

theorem applyLatest_subscription (w : RowWriter) (c : Connection) :
    (w.applyLatest c).2.1.subscription = w.subscription := by
  cases hl : c.latestSchema with
  | none => simp [applyLatest, hl]
  | some t =>
    simp only [applyLatest, hl]
    cases ht : descriptorOf? t with
    | none =>
      obtain ⟨e, he⟩ := setTableSchema_of_none w c ht
      simp [he]
    | some d =>
      obtain ⟨w', c', hok, -, hsub⟩ := setTableSchema_of_some w c ht
      simpa only [hok] using hsub

/-- After it took up schemas a row writer has caught up with its connection. -/
theorem applyEvents_next (w : RowWriter) (c : Connection) :
    (w.subscription.catchUp c.published c.kept).2.next ≤
      (w.applyEvents c).2.1.subscription.next := by
  simp only [applyEvents]
  generalize w.subscription.catchUp c.published c.kept = caught
  obtain ⟨missed, s⟩ := caught
  have hnext := applyAll_next { w with subscription := s } c (s.ahead c.published)
  generalize applyAll { w with subscription := s } c (s.ahead c.published) = r at hnext
  obtain ⟨fault, w', c'⟩ := r
  cases fault with
  | some e => exact hnext
  | none =>
    simp only
    split
    · exact hnext
    · rwa [applyLatest_subscription]

/-- An append changes the row writer only by taking up schemas. -/
theorem append_writer (w : RowWriter) (c : Connection) (rows : List Row) (offset : Option Int64) :
    (w.append c rows offset).2.1 = (w.applyEvents c).2.1 := by
  simp only [append]
  generalize w.applyEvents c = applied
  obtain ⟨fault, w', c'⟩ := applied
  cases fault with
  | some e => rfl
  | none => cases hrows : w'.encoder.encode rows <;> simp [hrows]

/-- JSON values are appended as the rows that they are. -/
theorem appendJson_of_ok {vs : List Json} {rows : List Row} (h : rowsOfJson 0 vs = .ok rows)
    (offset : Option Int64) : w.appendJson c vs offset = w.append c rows offset := by
  simp [appendJson, h]

theorem appendJson_of_error {vs : List Json} {n : Nat} (h : rowsOfJson 0 vs = .error n)
    (offset : Option Int64) : w.appendJson c vs offset = (.error (.notAnObject n), w, c) := by
  simp [appendJson, h]

end RowWriter

/-! ## Row writers at work -/

/-- What is done with a row writer. -/
inductive RowWriter.Call where
  | append (rows : List Row) (offset : Option Int64)
  | appendJson (rows : List Json) (offset : Option Int64)
  | setTableSchema (t : Table.Schema)
  | setDescriptor (d : Descriptor.Message)
  | convertDates (enabled : Bool)
  | control (k : Writer.Control)

/-- A row writer and the connection that it alone uses. -/
structure RowWriting where
  writer : RowWriter
  connection : Connection

namespace RowWriting

/-- What can happen to a row writer and its connection. -/
inductive Event where
  | call (k : RowWriter.Call)
  | other (a : Action)

/-- The writer inside, with the connection. -/
def plain (s : RowWriting) : Writing := s.writer.plain s.connection

/-- What a change leaves, if it can be made. -/
def settle (s : RowWriting) : Except Shape.Error (RowWriter × Connection) → RowWriting
  | .ok (w, c) => ⟨w, c⟩
  | .error _ => s

/-- The row writer and its connection after a call. -/
def call (s : RowWriting) : RowWriter.Call → RowWriting
  | .append rows offset =>
    let r := s.writer.append s.connection rows offset
    ⟨r.2.1, r.2.2⟩
  | .appendJson rows offset =>
    let r := s.writer.appendJson s.connection rows offset
    ⟨r.2.1, r.2.2⟩
  | .setTableSchema t => s.settle (s.writer.setTableSchema s.connection t)
  | .setDescriptor d => s.settle (s.writer.setDescriptor s.connection d)
  | .convertDates enabled => { s with writer := s.writer.withDateConversion enabled }
  | .control k =>
    let t := s.plain.control k
    { writer := { s.writer with writer := t.writer }, connection := t.connection }

/-- The row writer and its connection after an event. Nothing is called once the connection was let
go. -/
def step (s : RowWriting) : Event → RowWriting
  | .call k => if s.connection.alive then s.call k else s
  | .other a => if a.isCall then s else { s with connection := s.connection.act a }

/-- The row writer and its connection after a run. -/
def run (s : RowWriting) (es : List Event) : RowWriting := es.foldl step s

@[simp] theorem run_nil (s : RowWriting) : s.run [] = s := rfl

@[simp] theorem run_cons (s : RowWriting) (e : Event) (es : List Event) :
    s.run (e :: es) = (s.step e).run es := rfl

@[simp] theorem run_append (s : RowWriting) (es fs : List Event) :
    s.run (es ++ fs) = (s.run es).run fs := List.foldl_append

/-- The number of the write that a call hands back, if it does. -/
def written (s : RowWriting) (k : RowWriter.Call) : Option Nat :=
  if s.connection.alive then
    match k with
    | .append rows offset => (s.writer.append s.connection rows offset).1.toOption
    | .appendJson rows offset => (s.writer.appendJson s.connection rows offset).1.toOption
    | _ => none
  else none

/-! ## Row writers and the writers inside -/

variable {s : RowWriting}

/-- An append of rows or JSON values is an append of rows, or nothing. -/
theorem call_appendJson (s : RowWriting) (vs : List Json) (offset : Option Int64) :
    s.call (.appendJson vs offset) = s ∨
      ∃ rows, s.call (.appendJson vs offset) = s.call (.append rows offset) := by
  simp only [call]
  cases h : RowWriter.rowsOfJson 0 vs with
  | error n => exact .inl (by rw [RowWriter.appendJson_of_error h])
  | ok rows => exact .inr ⟨rows, by rw [RowWriter.appendJson_of_ok h]⟩

theorem append_plain (ha : s.connection.alive = true) (rows : List Row) (offset : Option Int64) :
    ∃ es, (s.call (.append rows offset)).plain = s.plain.run es := by
  have hcases := s.writer.append_cases s.connection rows offset
  have hrun := Writing.switchAll_eq_run (s := s.plain) ha (s.writer.takes s.connection)
  simp only [call, plain] at hrun hcases ⊢
  rcases hcases with ⟨-, heq⟩ | ⟨bytes, -, heq⟩
  · exact ⟨_, heq.trans hrun⟩
  · have halive : ((s.writer.plain s.connection).switchAll
        (s.writer.takes s.connection)).connection.alive = true := by
      rw [Writing.switchAll_alive]
      exact ha
    refine ⟨(s.writer.takes s.connection).map (fun d => .call (.setDescriptor d)) ++
      [.call (.append bytes offset)], ?_⟩
    rw [heq, Writing.run_append, ← hrun, Writing.run_cons, Writing.run_nil, Writing.step,
      if_pos halive]

/-- **What happens to a row writer is a run of the writer inside.** -/
theorem step_plain (s : RowWriting) (e : Event) : ∃ es, (s.step e).plain = s.plain.run es := by
  cases e with
  | other a =>
    refine ⟨[.other a], ?_⟩
    simp only [step, Writing.run_cons, Writing.step, plain]
    split <;> rfl
  | call k =>
    simp only [step]
    split
    swap
    · exact ⟨[], rfl⟩
    rename_i ha
    have hswitch (d : Descriptor.Message) :
        s.plain.call (.setDescriptor d) = s.plain.run [.call (.setDescriptor d)] :=
      Writing.switchAll_eq_run ha [d]
    cases k with
    | append rows offset => exact append_plain ha rows offset
    | appendJson vs offset =>
      rcases s.call_appendJson vs offset with heq | ⟨rows, heq⟩ <;> rw [heq]
      · exact ⟨[], rfl⟩
      · exact append_plain ha rows offset
    | setTableSchema t =>
      simp only [call]
      cases ht : RowWriter.descriptorOf? t with
      | none =>
        obtain ⟨e, he⟩ := s.writer.setTableSchema_of_none s.connection ht
        exact ⟨[], by rw [he]; rfl⟩
      | some d =>
        obtain ⟨w', c', hok, hplain, -⟩ := s.writer.setTableSchema_of_some s.connection ht
        refine ⟨[.call (.setDescriptor d)], ?_⟩
        rw [hok]
        exact hplain.trans (hswitch d)
    | setDescriptor d =>
      simp only [call, RowWriter.setDescriptor]
      cases Shape.ofDescriptor d with
      | error e => exact ⟨[], rfl⟩
      | ok shape => exact ⟨_, hswitch d⟩
    | convertDates enabled => exact ⟨[], rfl⟩
    | control k =>
      refine ⟨[.call (.control k)], ?_⟩
      have halive : s.plain.connection.alive = true := ha
      simp only [Writing.run_cons, Writing.run_nil, Writing.step, halive, if_true]
      rfl

theorem step_connection (s : RowWriting) (e : Event) :
    ∃ es, (s.step e).connection = (s.plain.run es).connection := by
  obtain ⟨es, hes⟩ := s.step_plain e
  exact ⟨es, congrArg Writing.connection hes⟩

/-- The connection of a row writer is one that a run comes to. -/
theorem reachable_step (h : s.connection.Reachable) (e : Event) :
    (s.step e).connection.Reachable := by
  obtain ⟨es, hconn⟩ := s.step_connection e
  rw [hconn]
  exact Writing.reachable_run h es

theorem reachable_run (h : s.connection.Reachable) (es : List Event) :
    (s.run es).connection.Reachable := by
  induction es generalizing s with
  | nil => exact h
  | cons e es ih => exact ih (reachable_step h e)

theorem step_options (h : s.connection.Reachable) (e : Event) :
    (s.step e).connection.options = s.connection.options := by
  obtain ⟨es, hconn⟩ := s.step_connection e
  rw [hconn]
  exact Writing.run_options h es

end RowWriting

end RowStream.Stream
