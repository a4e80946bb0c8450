import Mathlib.Data.List.Permutation
import RowStream.Proofs.RowWriter.Run

/-!
# A closed row writer

A row writer takes up the schemas that wait for it when it appends, whether its connection is open
or not. Another descriptor replaces the channel, and on a closed connection that opens one. So a
schema that was reported before a close, and that nothing was appended since, opens the connection
again and the rows go out.

* `append_opens_iff`: when an append on a closed connection opens a channel.
* `Sealed.step`: where every schema that waits has the descriptor of the writer (`UpToDate`), a
  closed connection stays closed.
* `closed_unless_outdated`: a row writer that was closed, in every run.
* `closed_row_writer_sends`: one that sends.
-/

namespace RowStream.Stream

open Service (AppendRequest)

/-- It closes the connection. -/
def Writer.Control.closes : Writer.Control → Bool
  | .close | .flush _ _ | .finalize _ => true
  | _ => false

/-- Where a channel is, a write leaves one. -/
theorem Connection.write_channel_ne {c : Connection} (h : c.channel ≠ none) (r : AppendRequest) :
    (c.write r).2.channel ≠ none := by
  rcases c.write_cases r with ⟨hnone, -⟩ | ⟨c₁, ch, -, hch, heq⟩
  · exact absurd hnone h
  · rw [heq]
    simp [accept_eq hch]

namespace RowWriter

/-- Every schema that it has yet to take up has the descriptor that it has, if it can be used. -/
def UpToDate (w : RowWriter) (c : Connection) : Prop :=
  ∀ d ∈ (w.news c).filterMap descriptorOf?, d = w.writer.descriptor

variable {w w' : RowWriter} {c c' : Connection}

/-- Nothing new comes to a row writer while its connection publishes nothing. -/
theorem news_subset (hs : c.Still c') (ho : c'.options = c.options)
    (hn : w'.subscription = w.subscription ∨
      (w.subscription.catchUp c.published c.kept).2.next ≤ w'.subscription.next) :
    w'.news c' ⊆ w.news c := by
  have hk : c'.kept = c.kept := by rw [Connection.kept, Connection.kept, ho]
  rcases hn with hn | hn
  · rw [news, news, hn, hs.published, hs.latestSchema, hk]
    exact List.Subset.refl _
  · -- it has caught up, so it misses none, and what waits waited before
    rw [news, hs.published, hs.latestSchema, hk]
    have holdest : c.published.length - c.kept ≤ w'.subscription.next := by
      refine Nat.le_trans ?_ hn
      rw [Subscription.catchUp]
      split
      · exact Nat.le_refl _
      · rename_i h
        exact Nat.le_of_not_lt h
    have hcaught : w'.subscription.catchUp c.published c.kept = (0, w'.subscription) := by
      rw [Subscription.catchUp]
      exact if_neg (Nat.not_lt.mpr holdest)
    rw [hcaught, news]
    simp only [if_true, List.append_nil]
    refine List.subset_append_of_subset_left _ (List.filterMap_subset _ ?_)
    exact List.drop_subset_drop_left _ hn

theorem UpToDate.of_news (h : w.UpToDate c) (hn : w'.news c' ⊆ w.news c)
    (hd : w'.writer.descriptor = w.writer.descriptor) : w'.UpToDate c' := by
  intro d hmem
  rw [hd]
  exact h d (List.filterMap_subset _ hn hmem)

theorem UpToDate.takes (h : w.UpToDate c) {d : Descriptor.Message} (hd : d ∈ w.takes c) :
    d = w.writer.descriptor := by
  obtain ⟨t, ht, htd⟩ := mem_taken hd
  exact h d (List.mem_filterMap.mpr ⟨t, ht, htd⟩)

end RowWriter

namespace RowWriting

open Connection

variable {s : RowWriting} {e : Event}

/-- Somebody asks for a channel: the holder of the connection, or who changes the descriptor. -/
def Event.asks : Event → Bool
  | .call (.setTableSchema _) | .call (.setDescriptor _) => true
  | .call (.control .connect) | .call (.control .reconnect) => true
  | _ => false

/-! ## One append -/

/-- **An append on a closed connection opens a channel exactly if it takes up another
descriptor.** -/
theorem append_opens_iff (hc : s.connection.channel = none) (ha : s.connection.alive = true)
    (rows : List Row) (offset : Option Int64) :
    (s.step (.call (.append rows offset))).connection.channel ≠ none ↔
      ∃ d ∈ s.writer.takes s.connection, d ≠ s.writer.writer.descriptor := by
  have hcases := s.writer.append_cases s.connection rows offset
  simp only [step, ha, if_true, call]
  generalize s.writer.append s.connection rows offset = r at hcases
  constructor
  · contrapose!
    intro hsame
    rw [Writing.switchAll_self hsame] at hcases
    rcases hcases with ⟨-, heq⟩ | ⟨bytes, -, heq⟩
    · exact (congrArg (·.connection.channel) heq).trans hc
    · refine (congrArg (·.connection.channel) heq).trans ?_
      simp only [Writing.call, Writer.append, write_of_none hc]
      exact hc
  · intro hother
    have hopen := Writing.switchAll_opens (s := s.writer.plain s.connection) hother
    generalize (s.writer.plain s.connection).switchAll _ = t at hcases hopen
    rcases hcases with ⟨-, heq⟩ | ⟨bytes, -, heq⟩
    · rw [congrArg (·.connection.channel) heq]
      exact hopen
    · rw [congrArg (·.connection.channel) heq]
      exact write_channel_ne hopen _

/-! ## Closed and up to date -/

/-- The connection is closed, and every schema that waits has the descriptor of the writer. -/
structure Sealed (s : RowWriting) : Prop where
  reachable : s.connection.Reachable
  channel : s.connection.channel = none
  upToDate : s.writer.UpToDate s.connection

/-- What an append on a closed connection does, if no other descriptor waits: the write that comes
back has failed. -/
theorem Sealed.append_cases (h : s.Sealed) (rows : List Row) (offset : Option Int64) :
    let r := s.writer.append s.connection rows offset
    r.2.1.writer = s.writer.writer ∧
      ((∃ e, r.1 = .error e) ∧ r.2.2 = s.connection ∨
        ∃ q, r.1 = .ok s.connection.writes.length ∧ r.2.2 = s.connection.refuse q) := by
  have hcases := s.writer.append_cases s.connection rows offset
  rw [Writing.switchAll_self fun d hd => h.upToDate.takes hd] at hcases
  generalize s.writer.append s.connection rows offset = r at hcases
  rcases hcases with ⟨herr, heq⟩ | ⟨bytes, hok, heq⟩
  · exact ⟨congrArg (·.writer) heq, .inl ⟨herr, congrArg (·.connection) heq⟩⟩
  · simp only [Writing.call, Writer.append, write_of_none h.channel] at hok heq
    exact ⟨congrArg (·.writer) heq, .inr ⟨_, hok, congrArg (·.connection) heq⟩⟩

/-- A row writer stays closed and up to date when its connection stays closed and its descriptor and
its place among the events stay, or it catches up. -/
theorem Sealed.of_keeps (h : s.Sealed) (hk : Keeps s.connection (s.step e).connection)
    (hd : (s.step e).writer.writer.descriptor = s.writer.writer.descriptor)
    (hn : (s.step e).writer.subscription = s.writer.subscription ∨
      (s.writer.subscription.catchUp s.connection.published s.connection.kept).2.next ≤
        (s.step e).writer.subscription.next) :
    Sealed (s.step e) ∧ Keeps s.connection (s.step e).connection := by
  have hopt := step_options h.reachable e
  exact ⟨⟨reachable_step h.reachable e, hk.channel,
    h.upToDate.of_news (RowWriter.news_subset hk.still hopt hn) hd⟩, hk⟩

theorem Sealed.of_same (h : s.Sealed) (heq : s.step e = s) :
    Sealed (s.step e) ∧ Keeps s.connection (s.step e).connection := by
  rw [heq]
  exact ⟨h, keeps_refl h.channel⟩

theorem Sealed.append (h : s.Sealed) (rows : List Row) (offset : Option Int64) :
    Sealed (s.step (.call (.append rows offset))) ∧
      Keeps s.connection (s.step (.call (.append rows offset))).connection := by
  cases ha : s.connection.alive with
  | false => exact h.of_same (by simp [step, ha])
  | true =>
    obtain ⟨hwriter, hconn⟩ := h.append_cases rows offset
    refine h.of_keeps ?_ ?_ (.inr ?_) <;> simp only [step, ha, if_true, call]
    · rcases hconn with ⟨-, heq⟩ | ⟨q, -, heq⟩ <;> rw [heq]
      · exact keeps_refl h.channel
      · exact ⟨h.channel, rfl, rfl, rfl⟩
    · rw [hwriter]
    · rw [RowWriter.append_writer]
      exact RowWriter.applyEvents_next _ _

/-- **A closed row writer that is up to date stays so and still**, whatever happens to it but a
request for a channel. -/
theorem Sealed.step (h : s.Sealed) (he : e.asks = false) :
    Sealed (s.step e) ∧ Keeps s.connection (s.step e).connection := by
  have hcoh := h.reachable.coherent
  cases e with
  | other a =>
    cases hcall : a.isCall with
    | true => exact h.of_same (by simp [RowWriting.step, hcall])
    | false =>
      have hopens : a.opens = false := by
        cases a with
        | call k => exact absurd hcall (by simp [Action.isCall])
        | _ => rfl
      have hkeeps := hcoh.act_sealed h.reachable.halts h.channel hopens
      exact h.of_keeps (by simpa [RowWriting.step, hcall] using hkeeps)
        (by simp [RowWriting.step, hcall]) (.inl (by simp [RowWriting.step, hcall]))
  | call k =>
    cases ha : s.connection.alive with
    | false => exact h.of_same (by simp [RowWriting.step, ha])
    | true =>
      have hstep : s.step (.call k) = s.call k := by rw [RowWriting.step, if_pos ha]
      cases k with
      | append rows offset => exact h.append rows offset
      | appendJson vs offset =>
        rcases s.call_appendJson vs offset with heq | ⟨rows, heq⟩
        · exact h.of_same (hstep.trans heq)
        · have hrows : s.step (.call (.appendJson vs offset)) =
              s.step (.call (.append rows offset)) := by
            rw [hstep, heq, RowWriting.step, if_pos ha]
          rw [hrows]
          exact h.append rows offset
      | setTableSchema t => exact absurd he (by simp [Event.asks])
      | setDescriptor d => exact absurd he (by simp [Event.asks])
      | convertDates enabled =>
        exact h.of_keeps (by rw [hstep]; exact keeps_refl h.channel) (by rw [hstep]; rfl)
          (.inl (by rw [hstep]; rfl))
      | control k =>
        refine h.of_keeps ?_ ?_ (.inl (by rw [hstep]; rfl)) <;> rw [hstep]
        · have hq := hcoh.closed h.channel
          simp only [call, plain, Writing.control]
          cases k with
          | setDefaultMissingValue m => exact keeps_refl h.channel
          | setMissingValues ms => exact keeps_refl h.channel
          | connect => exact absurd he (by simp [Event.asks])
          | reconnect => exact absurd he (by simp [Event.asks])
          | close => exact keeps_call h.channel hq (k := .close) rfl
          | flush m offset => exact keeps_call h.channel hq (k := .flush m offset) rfl
          | finalize m => exact keeps_call h.channel hq (k := .finalize m) rfl
          | release => exact keeps_call h.channel hq (k := .release) rfl
        · simp [call, plain, Writing.control]

theorem Sealed.run (h : s.Sealed) {es : List Event} (he : ∀ e ∈ es, e.asks = false) :
    Sealed (s.run es) ∧ Keeps s.connection (s.run es).connection := by
  induction es generalizing s with
  | nil => exact ⟨h, keeps_refl h.channel⟩
  | cons e es ih =>
    obtain ⟨hsealed, hkeeps⟩ := h.step (he e List.mem_cons_self)
    obtain ⟨hrun, hrest⟩ := ih hsealed fun e hmem => he e (List.mem_cons_of_mem _ hmem)
    exact ⟨hrun, hkeeps.trans hrest⟩

/-- Every write that comes back has failed, because the connection is closed. -/
theorem Sealed.written (h : s.Sealed) {k : RowWriter.Call} {n : Nat} (hn : s.written k = some n) :
    (s.step (.call k)).connection.result? n = some (.error .connectionClosed) := by
  have happend {rows : List Row} {offset : Option Int64}
      (hn : (s.writer.append s.connection rows offset).1.toOption = some n) :
      (s.writer.append s.connection rows offset).2.2.result? n =
        some (.error .connectionClosed) := by
    obtain ⟨-, ⟨⟨e, herr⟩, -⟩ | ⟨q, hok, heq⟩⟩ := h.append_cases rows offset
    · exact absurd hn (by simp [herr, Except.toOption])
    · obtain rfl : s.connection.writes.length = n := by simpa [hok, Except.toOption] using hn
      rw [heq]
      exact refuse_result _ _
  cases ha : s.connection.alive with
  | false => exact absurd hn (by simp [RowWriting.written, ha])
  | true =>
    simp only [RowWriting.written, ha, if_true] at hn
    simp only [RowWriting.step, ha, if_true]
    cases k with
    | append rows offset =>
      simp only [call]
      exact happend hn
    | appendJson vs offset =>
      cases hrows : RowWriter.rowsOfJson 0 vs with
      | error m =>
        exact absurd hn (by simp [RowWriter.appendJson_of_error hrows, Except.toOption])
      | ok rows =>
        simp only [call, RowWriter.appendJson_of_ok hrows] at hn ⊢
        exact happend hn
    | _ => exact absurd hn (by simp)

/-! ## Runs -/

/-- What closes leaves no channel. -/
theorem channel_of_closes (h : s.connection.Reachable) {k : Writer.Control}
    (hk : k.closes = true) : (s.step (.call (.control k))).connection.channel = none := by
  obtain ⟨k', hcall, hends⟩ : ∃ k', k.call? = some k' ∧
      s.connection.ends (.call k') = true := by
    cases k with
    | close => exact ⟨_, rfl, rfl⟩
    | flush m offset => exact ⟨_, rfl, rfl⟩
    | finalize m => exact ⟨_, rfl, rfl⟩
    | _ => exact absurd hk (by simp [Writer.Control.closes])
  have hnone := h.coherent.channel_of_ends hends
  cases ha : s.connection.alive with
  | false => simpa [step, ha] using h.coherent.held ha
  | true => simpa [step, ha, call, plain, Writing.control, hcall, Connection.act] using hnone

/-- **A closed row writer does not send, unless a schema of another descriptor waits.** After a
close, a flush or a finalization, in every run of a row writer that alone uses its connection

* there is no channel;
* if every schema that waits has the descriptor of the writer or cannot be used, none is opened and
  nothing goes out until somebody asks for it, and every write that an append hands back has failed
  because the connection is closed;
* while there is no channel, an append opens one exactly if it takes up another descriptor. -/
theorem closed_unless_outdated {id : String} {o : Config.ConnectionOptions} {c : Connection}
    (h : Connection.create id o = .ok c) (w : RowWriter) (es : List Event) {k : Writer.Control}
    (hk : k.closes = true) :
    let s := RowWriting.run ⟨w, c⟩ (es ++ [.call (.control k)])
    s.connection.channel = none ∧
    (s.writer.UpToDate s.connection → ∀ fs, (∀ f ∈ fs, f.asks = false) →
      (s.run fs).connection.channel = none ∧
      (s.run fs).connection.generations = s.connection.generations ∧
      (∀ g, (s.run fs).connection.sentOn g = s.connection.sentOn g) ∧
      ∀ a n, (s.run fs).written a = some n →
        (s.run (fs ++ [.call a])).connection.result? n = some (.error .connectionClosed)) ∧
    ∀ fs, (s.run fs).connection.channel = none → (s.run fs).connection.alive = true →
      ∀ rows offset, (s.run (fs ++ [.call (.append rows offset)])).connection.channel ≠ none ↔
        ∃ d ∈ (s.run fs).writer.takes (s.run fs).connection,
          d ≠ (s.run fs).writer.writer.descriptor := by
  intro s
  have hbefore : (RowWriting.run ⟨w, c⟩ es).connection.Reachable :=
    reachable_run (reachable_created h) es
  have hr : s.connection.Reachable := reachable_run (reachable_created h) _
  have hnone : s.connection.channel = none := by
    simp only [s, run_append, run_cons, run_nil]
    exact channel_of_closes hbefore hk
  refine ⟨hnone, fun hup fs hfs => ?_, fun fs hfs ha rows offset => ?_⟩
  · obtain ⟨hsealed, hkeeps⟩ := (Sealed.mk hr hnone hup).run hfs
    obtain ⟨hgens, hsent⟩ := hkeeps.still.sentOn
    refine ⟨hkeeps.channel, hgens, hsent, fun a n hn => ?_⟩
    rw [run_append]
    exact hsealed.written hn
  · rw [run_append]
    exact append_opens_iff hfs ha rows offset

/-- A row writer of rows without columns. -/
def bare (name : String) : RowWriter :=
  let m : Pool.Message := ⟨name, [], { name := some name }⟩
  ⟨{ descriptor := m.descriptor }, { shape := ⟨⟨[m], []⟩, m⟩ }, ⟨0⟩⟩

/-- A row is sent, and its answer reports a schema without columns. -/
def reported : List Event :=
  [.other (.receive 1 .opened), .call (.append [[]] none),
    .other (.receive 1 (.response { updatedSchema := some {} }))]

/-- The row writer is closed before it takes up the schema. -/
def closedBare (name : String) : RowWriting :=
  RowWriting.run ⟨bare name, (blank "s" {}).connect⟩ (reported ++ [.call (.control .close)])

/-- The schema that waits has the descriptor of the row writer, so the next append fails. -/
theorem closed_up_to_date :
    let c := (blank "s" {}).connect
    let s := closedBare "root"
    Connection.create "s" {} = .ok c ∧
      RowWriter.create c { name := some "root" } = .ok (bare "root") ∧
      s.writer.takes s.connection = [{ name := some "root" }] ∧
      s.written (.append [[]] none) = some 1 ∧
      (s.run [.call (.append [[]] none)]).connection.channel = none ∧
      (s.run [.call (.append [[]] none)]).connection.result? 1 =
        some (.error .connectionClosed) := by
  have hnew : Connection.create "s" {} = .ok (blank "s" {}).connect := create_eq (by decide)
  obtain ⟨hmade, htakes, hnumber, hnews⟩ :
      RowWriter.create (blank "s" {}).connect { name := some "root" } = .ok (bare "root") ∧
      (closedBare "root").writer.takes (closedBare "root").connection =
        [{ name := some "root" }] ∧
      (closedBare "root").written (.append [[]] none) = some 1 ∧
      ((closedBare "root").writer.news (closedBare "root").connection).filterMap
        RowWriter.descriptorOf? = [(closedBare "root").writer.writer.descriptor] := by
    cbv
  obtain ⟨-, hsealed, -⟩ :=
    closed_unless_outdated hnew (bare "root") reported (k := .close) rfl
  change RowWriter.UpToDate (closedBare "root").writer (closedBare "root").connection → _ at hsealed
  intro c s
  have hup : s.writer.UpToDate s.connection := by
    intro d hd
    rw [hnews] at hd
    exact List.mem_singleton.mp hd
  obtain ⟨-, -, -, hwritten⟩ := hsealed hup [] (by simp)
  obtain ⟨hchannel, -⟩ := hsealed hup [.call (.append [[]] none)] (by simp [Event.asks])
  exact ⟨hnew, hmade, htakes, hnumber, hchannel, hwritten (.append [[]] none) 1 hnumber⟩

/-- The schema that waits has another descriptor, so the next append opens a channel, and the rows go
out on it. -/
theorem closed_row_writer_sends :
    let c := (blank "s" {}).connect
    let s := closedBare "old"
    let t := s.run [.call (.append [[]] none)]
    Connection.create "s" {} = .ok c ∧
      RowWriter.create c { name := some "old" } = .ok (bare "old") ∧
      s.connection.channel = none ∧ s.connection.generations = [1] ∧
      s.written (.append [[]] none) = some 1 ∧ t.connection.generations = [1, 3] ∧
      (t.connection.sentOn 3).map (·.write) = [1] ∧ t.connection.result? 1 = none := by
  cbv

end RowWriting

end RowStream.Stream
