import RowStream.Proofs.Stream.Resolution
import RowStream.Proofs.Stream.Transmission

/-!
# A closed connection stays closed

A connection without a channel has nothing queued, and nothing happens to it by itself. Two things
could still come: an item of a replaced channel, which carries nothing any more and changes nothing,
and an item of the channel that was current last. The reader of that one has stopped (`Halts`): a
schema mismatch leaves the generation as it is, but its reader stops for it; a close counts the
generation on, and no channel has the new one.

So until somebody asks for a channel (`Action.opens`) nothing is opened, sent, published or learned
(`Still`), and a write fails at once.

* `Coherent.act_sealed`: one action on a connection without a channel.
* `closed_stays_closed`: closed connections along every run.
-/

namespace RowStream.Stream

open Service (AppendRequest)

/-- The action asks for a fresh channel. A writer does when it gets another descriptor. -/
def Action.opens : Action → Bool
  | .call .connect | .call .reconnect => true
  | .call (.setDescriptor w d) => d != w.descriptor
  | _ => false

/-- A reader that has stopped does not read again. -/
theorem Channel.meet_reader_stopped {ch : Channel} (h : ch.reader = .stopped) (i : Incoming)
    (on : Bool) : (ch.meet i on).reader = .stopped := by
  cases i with
  | opened => simp [meet, h]
  | refused e => rfl
  | response r =>
    simp only [meet]
    split
    · exact h
    · rfl
  | failure e =>
    simp only [meet]
    split
    · exact h
    · rfl
  | ended => rfl

namespace Connection

variable {c c' c'' : Connection} {g : Nat}

/-! ## The reader of the last channel -/

/-- Without a channel the reader of the latest generation has stopped. -/
def Halts (c : Connection) : Prop :=
  c.channel = none → ∀ ch ∈ c.past, ch.generation = c.generation → ch.reader = .stopped

/-- Changing channels does not wake a reader that has stopped. -/
theorem Halts.of_map (h : Halts c) {f k : Channel → Channel}
    (hk : ∀ ch, (k ch).generation = ch.generation)
    (hr : ∀ ch, ch.reader = .stopped → (k ch).reader = .stopped) :
    Halts { c with channel := c.channel.map f, past := c.past.map k } := by
  intro hnone ch hch hgen
  obtain ⟨old, hold, rfl⟩ := List.mem_map.mp hch
  rw [hk] at hgen
  exact hr old (h (Option.map_eq_none_iff.mp hnone) old hold hgen)

theorem Halts.shut (h : Halts c) (hc : Coherent c) (e : WriteError) : Halts (c.shut e) := by
  intro _ ch hch hgen
  rw [shut_past] at hch
  rw [shut_generation] at hgen
  rcases List.mem_append.mp hch with hold | hlast
  · cases hcur : c.channel with
    | none => exact h hcur ch hold hgen
    | some cur =>
      have hlt := hc.past_lt hcur hold
      omega
  · obtain ⟨old, -, rfl⟩ := List.mem_map.mp hlast
    rfl

theorem Halts.quiet (h : Halts c) (hc : Coherent c) (q : Quiet c c') : Halts c' := by
  cases q with
  | publish e => exact h
  | learn s => exact h
  | fail g e => simpa [Halts, failGeneration] using h
  | shut e => exact h.shut hc e
  | bump hnone =>
    -- no channel has a generation that is yet to come
    intro _ ch hch hgen
    have hle := hc.bounded ch.generation (mem_generations (mem_channels.mpr (.inl hch)))
    simp only at hgen
    omega
  | letGo hnone => exact h
  | tearDown =>
    have hmap := h.of_map (f := fun ch => { ch with tornDown := true }) (k := id) (fun _ => rfl)
      fun _ hr => hr
    rwa [List.map_id] at hmap
  | hangUp g =>
    refine h.of_map (fun ch => ?_) fun ch hr => ?_
    · split <;> rfl
    · split <;> exact hr
  | meet g i on =>
    refine h.of_map (fun ch => ?_) fun ch hr => ?_
    · split <;> simp
    · split
      · exact Channel.meet_reader_stopped hr i on
      · exact hr

theorem Halts.move (h : Halts c) (hc : Coherent c) (m : Move c c') : Halts c' := by
  cases m with
  | quiet q => exact h.quiet hc q
  | answer g r => simpa [Halts] using h
  | reopen hd => exact fun hnone => absurd hnone (reopen_channel_ne c hd)
  | accept r ho =>
    obtain ⟨ch, hch⟩ := Option.ne_none_iff_exists'.mp ho
    rw [accept_eq hch]
    exact fun hnone => absurd hnone (by simp)
  | refuse r => exact h

theorem Halts.act (h : Halts c) (hc : Coherent c) (a : Action) : Halts (c.act a) :=
  hc.act_induct a (fun hc hh m => hh.move hc m) (fun _ _ _ hh => hh) h

theorem halts_run {id : String} {o : Config.ConnectionOptions} (h : create id o = .ok c)
    (as : List Action) : Halts (c.run as) :=
  run_induct h (fun a _ _ hc hh => hh.act hc a) fun _ _ hch => absurd hch List.not_mem_nil

/-! ## What changes nothing -/

/-- A channel that carries nothing has nothing to fail. -/
theorem failGeneration_of_nil (h : c.carried g = []) (e : WriteError) :
    c.failGeneration g e = c := by
  have hkeep : (c.queue.filter fun q => !(q.generation == g)) = c.queue := by
    rw [List.filter_eq_self]
    simpa using carried_eq_nil.mp h
  rw [failGeneration, failWhere, hkeep]
  simp only [carried] at h
  rw [h]
  rfl

/-- **An item of a replaced channel that carries nothing changes nothing.** -/
theorem handle_of_nil (hg : c.generation ≠ g) (h : c.carried g = []) (i : Incoming) :
    c.handle g i = c := by
  cases i with
  | opened => rfl
  | refused e => rw [handle, onRefused, if_neg hg, failGeneration_of_nil h]
  | response r => rw [handle, onItem, if_neg hg, if_pos (by simp [h])]
  | failure e => rw [handle, onItem, if_neg hg, if_pos (by simp [h])]
  | ended => rw [handle, onEnded, if_neg hg, failGeneration_of_nil h]

/-- Shutting a connection that has nothing leaves it as it is. -/
theorem shut_of_none (hc : c.channel = none) (hq : c.queue = []) (e : WriteError) :
    c.shut e = c := by
  have hfail : c.failAll e = c := by
    simp only [failAll, failWhere, hq, List.filter_nil, List.map_nil, resolveAll, List.foldl_nil]
    rw [← hq]
  rw [shut, hfail, dropChannel, hc, Option.toList_none, List.map_nil, List.append_nil, ← hc]

/-! ## Nothing is opened, sent, published or learned -/

/-- No channel was opened, no request sent, no event published and no schema learned. -/
structure Still (c c' : Connection) : Prop where
  logs : c'.logs = c.logs
  published : c'.published = c.published
  latestSchema : c'.latestSchema = c.latestSchema

theorem Still.refl (c : Connection) : Still c c := ⟨rfl, rfl, rfl⟩

theorem Still.trans (h : Still c c') (h' : Still c' c'') : Still c c'' :=
  ⟨h'.logs.trans h.logs, h'.published.trans h.published, h'.latestSchema.trans h.latestSchema⟩

/-- The channels that were opened are the same, and so is what went out on each. -/
theorem Still.sentOn (h : Still c c') : c'.generations = c.generations ∧
    ∀ g, c'.sentOn g = c.sentOn g :=
  ⟨generations_of_logs h.logs, fun g => by rw [sentOn_eq, sentOn_eq, h.logs]⟩

theorem mapChannel_logs {f : Channel → Channel} (hf : ∀ ch, (f ch).log = ch.log) :
    (c.mapChannel g f).logs = c.logs := by
  refine logs_of_map ?_ ?_ <;>
  · intro ch
    split
    · exact hf ch
    · rfl

/-- A connection without a channel stays so and still. -/
structure Keeps (c c' : Connection) : Prop where
  channel : c'.channel = none
  still : Still c c'

theorem keeps_refl (hc : c.channel = none) : Keeps c c := ⟨hc, .refl c⟩

theorem Keeps.trans (h : Keeps c c') (h' : Keeps c' c'') : Keeps c c'' :=
  ⟨h'.channel, h.still.trans h'.still⟩

theorem keeps_mapChannel (hc : c.channel = none) {f : Channel → Channel}
    (hf : ∀ ch, (f ch).log = ch.log) : Keeps c (c.mapChannel g f) :=
  ⟨by simp [mapChannel, hc], mapChannel_logs hf, rfl, rfl⟩

theorem keeps_close (hc : c.channel = none) (hq : c.queue = []) : Keeps c c.close := by
  rw [close, shut_of_none hc hq]
  exact ⟨hc, rfl, rfl, rfl⟩

/-- A call that does not ask for a channel. -/
theorem keeps_call (hc : c.channel = none) (hq : c.queue = []) {k : Call}
    (hk : (Action.call k).opens = false) : Keeps c (c.call k) := by
  have hclose := keeps_close hc hq
  cases k with
  | connect => exact absurd hk (by simp [Action.opens])
  | reconnect => exact absurd hk (by simp [Action.opens])
  | close => exact hclose
  | write r =>
    rw [call, write_of_none hc]
    exact ⟨hc, rfl, rfl, rfl⟩
  | flush m offset =>
    simp only [call, flush]
    split
    · exact hclose
    · split <;> exact hclose
  | finalize m =>
    simp only [call, finalize]
    split
    · exact hclose
    · split <;> exact hclose
  | setDescriptor w d =>
    have hsame : d = w.descriptor := by simpa [Action.opens] using hk
    rw [call, Writer.setDescriptor, if_pos hsame]
    exact keeps_refl hc
  | release =>
    rw [call, release, shut_of_none hc hq]
    exact ⟨hc, rfl, rfl, rfl⟩

/-- What a reader meets: that of the last channel has stopped, and the others have nothing to
answer. -/
theorem Coherent.keeps_receive (h : Coherent c) (hh : Halts c) (hc : c.channel = none)
    (i : Incoming) : Keeps c (c.receive g i) := by
  have hlog (ch : Channel) (on : Bool) : (ch.meet i on).log = ch.log := by
    simp [Channel.log]
  cases hm : c.meets g i with
  | false =>
    rcases receive_of_not_meets hm with heq | ⟨-, heq⟩ <;> rw [heq]
    · exact keeps_refl hc
    · exact keeps_mapChannel hc fun ch => hlog ch _
  | true =>
    have hg : c.generation ≠ g := by
      rintro rfl
      rw [meets, Bool.and_eq_true, Option.any_eq_true] at hm
      obtain ⟨-, ch, hch, htakes⟩ := hm
      obtain ⟨hmem, hgen⟩ := channel?_some hch
      have hpast : ch ∈ c.past := (mem_channels.mp hmem).resolve_right (by simp [hc])
      rw [hh hc ch hpast hgen] at htakes
      exact absurd htakes (by cases i <;> simp [Reader.takes])
    rw [receive_of_meets hm, handle_of_nil hg (carried_of_queue_nil (h.closed hc) g)]
    exact keeps_mapChannel hc fun ch => hlog ch _

/-- **A connection without a channel stays so and still**, whatever happens to it but a request for
a channel. -/
theorem Coherent.act_sealed (h : Coherent c) (hh : Halts c) (hc : c.channel = none) {a : Action}
    (ha : a.opens = false) : Keeps c (c.act a) := by
  have hq := h.closed hc
  cases a with
  | call k =>
    simp only [Connection.act]
    split
    · exact keeps_call hc hq ha
    · exact keeps_refl hc
  | receive g i => exact h.keeps_receive hh hc i
  | late g i =>
    simp only [Connection.act]
    split
    · rename_i hlate
      have hg : c.generation ≠ g := by
        simp only [stopsLate, Bool.and_eq_true, bne_iff_ne] at hlate
        exact hlate.1.2
      rw [handle_of_nil hg (carried_of_queue_nil hq g)]
      exact keeps_refl hc
    · exact keeps_refl hc
  | hangUp g => exact keeps_mapChannel hc fun _ => rfl
  | mark n r => exact ⟨hc, rfl, rfl, rfl⟩
  | retry n => exact ⟨hc, rfl, rfl, rfl⟩

theorem Coherent.run_sealed (h : Coherent c) (hh : Halts c) (hc : c.channel = none)
    {as : List Action} (has : ∀ a ∈ as, a.opens = false) : Keeps c (c.run as) := by
  induction as generalizing c with
  | nil => exact keeps_refl hc
  | cons a as ih =>
    have hstep := h.act_sealed hh hc (has a List.mem_cons_self)
    exact hstep.trans (ih (h.act a) (hh.act h a) hstep.channel
      fun b hb => has b (List.mem_cons_of_mem a hb))

/-! ## Writes that fail at once -/

/-- A write that is refused has its result when it is handed back. -/
theorem refuse_result (c : Connection) (r : AppendRequest) :
    (c.refuse r).result? c.writes.length = some (.error .connectionClosed) := by
  simp [result?, refuse, resolve, mapWrite, addWrite, PendingWrite.resolve]

/-- **Without a channel a write is handed back failed.** -/
theorem result_of_returns (hc : c.channel = none) {r : AppendRequest} {n : Nat}
    (hn : c.returns (.call (.write r)) = some n) :
    (c.act (.call (.write r))).result? n = some (.error .connectionClosed) := by
  cases ha : c.alive with
  | false => exact absurd hn (by simp [returns, ha])
  | true =>
    simp only [returns, ha, if_true, write_of_none hc, Option.some.injEq] at hn
    simp only [act, ha, if_true, call, write_of_none hc]
    rw [← hn]
    exact refuse_result c r

/-! ## Closed connections along a run -/

/-- What ends a connection leaves it without a channel. -/
theorem Coherent.channel_of_ends (h : Coherent c) {a : Action} (ha : c.ends a = true) :
    (c.act a).channel = none := by
  have hcall {k : Call} (hk : (c.call k).channel = none) : (c.act (.call k)).channel = none := by
    simp only [Connection.act]
    split
    · exact hk
    · rename_i hal
      exact h.held (by simpa using hal)
  cases a with
  | call k =>
    cases k with
    | close => exact hcall rfl
    | release => exact hcall rfl
    | flush m offset =>
      refine hcall ?_
      simp only [call, flush]
      split
      · rfl
      · split <;> rfl
    | finalize m =>
      refine hcall ?_
      simp only [call, finalize]
      split
      · rfl
      · split <;> rfl
    | _ => exact absurd ha (by simp [ends])
  | receive g i =>
    simp only [ends, Bool.and_eq_true, beq_iff_eq] at ha
    obtain ⟨⟨rfl, hm⟩, hi⟩ := ha
    simp only [Connection.act]
    rw [receive_of_meets hm]
    have hnone : (c.handle c.generation i).channel = none := by
      cases i with
      | failure e =>
        rw [handle, onItem, if_pos rfl]
        simp [onFailure, hi, onSchemaMismatch, publish]
      | refused e =>
        rw [handle, onRefused, if_pos rfl]
        simp [onFailure, hi, onSchemaMismatch, publish]
      | _ => exact absurd hi (by simp)
    simp [mapChannel, hnone]
  | _ => exact absurd ha (by simp [ends])

/-- **Closed stays closed.** In every run

* a connection that was closed, flushed or finalized, or whose current channel brought a schema
  mismatch, has no channel;
* while there is no channel nothing is queued, and whatever comes but a request for a channel, none
  is opened, no request goes out on any, no event is published, the latest schema stays, and every
  write is handed back failed because the connection is closed. -/
theorem closed_stays_closed {id : String} {o : Config.ConnectionOptions} (h : create id o = .ok c)
    (as : List Action) :
    (∀ a, (c.run as).ends a = true → (c.run (as ++ [a])).channel = none) ∧
    ((c.run as).channel = none → (c.run as).queue = [] ∧
      ∀ bs, (∀ b ∈ bs, b.opens = false) →
        ((c.run (as ++ bs)).channel = none ∧
          (c.run (as ++ bs)).generations = (c.run as).generations ∧
          (∀ g, (c.run (as ++ bs)).sentOn g = (c.run as).sentOn g) ∧
          (c.run (as ++ bs)).published = (c.run as).published ∧
          (c.run (as ++ bs)).latestSchema = (c.run as).latestSchema) ∧
        ∀ r n, (c.run (as ++ bs)).returns (.call (.write r)) = some n →
          (c.run (as ++ bs ++ [.call (.write r)])).result? n =
            some (.error .connectionClosed)) := by
  have hcoh := coherent_run h as
  refine ⟨fun a ha => ?_, fun hc => ⟨hcoh.closed hc, fun bs hbs => ?_⟩⟩
  · rw [run_append]
    exact hcoh.channel_of_ends ha
  · have hkeeps := hcoh.run_sealed (halts_run h as) hc hbs
    simp only [run_append, run_cons, run_nil]
    obtain ⟨hgens, hsent⟩ := hkeeps.still.sentOn
    exact ⟨⟨hkeeps.channel, hgens, hsent, hkeeps.still.published, hkeeps.still.latestSchema⟩,
      fun r n hn => result_of_returns hkeeps.channel hn⟩

/-- A connection that was closed while its first channel, replaced before, still carried a write: a
response with a new schema comes too late, and a write is handed back failed. -/
theorem closed_after_reconnect :
    let c := (blank "s" {}).connect
    let as : List Action := [.call (.write {}), .receive 1 .opened, .call .reconnect, .call .close]
    let bs : List Action := [.late 2 .opened, .receive 1 (.response { updatedSchema := some {} })]
    (∀ b ∈ bs, b.opens = false) ∧ (c.run (as ++ bs)).channel = none ∧
      (c.run (as ++ bs)).published.length = 0 ∧
      (c.run (as ++ bs ++ [.call (.write {})])).result? 1 = some (.error .connectionClosed) := by
  intro c as bs
  have hnew : create "s" {} = .ok c := create_eq (by decide)
  have hbs : ∀ b ∈ bs, b.opens = false := by decide
  obtain ⟨-, hclosed⟩ := closed_stays_closed hnew as
  obtain ⟨-, hrun⟩ := hclosed (by decide)
  obtain ⟨⟨hchannel, -, -, hpublished, -⟩, hwrite⟩ := hrun bs hbs
  refine ⟨hbs, hchannel, ?_, hwrite {} 1 (by decide)⟩
  rw [hpublished]
  decide

end Connection

end RowStream.Stream
