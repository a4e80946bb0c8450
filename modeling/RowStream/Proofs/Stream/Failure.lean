import RowStream.Proofs.Service.Failure
import RowStream.Proofs.Stream.Handover
import RowStream.Proofs.Stream.Reports

/-!
# What a failure of the current channel comes to

A failure of the current channel is of one of four kinds (`FailureKind`): the table lacks fields of the
schema, the call is worth making again, a single request was refused, or none of these. Only the third
looks at the connection, which has to carry a write that can be refused.

Each kind has an aftermath of its own (`Aftermath`), and the four exclude each other: after a mismatch there
is no channel, a transient failure alone opens one, and of the other two only the last publishes an event.

* `existsUnique_isKind`: every failure is of one kind.
* `Coherent.aftermath`: what a failure of each kind comes to.
* `failure_of_one_kind`: both, for every failure that comes in any run.
-/

namespace RowStream.Stream

open Service (CallError Failure)

/-- What a failure of the current channel is to the connection. -/
inductive FailureKind where
  | mismatch
  | transient
  | request
  | other
deriving DecidableEq

namespace Connection

variable {c c' : Connection} {ch : Channel} {f : Failure} {e : CallError} {k k' : FailureKind}

/-! ## Kinds of failures -/

/-- The failure is of the kind. A request can be refused only if the current channel carries a write. -/
def IsKind (c : Connection) (f : Failure) : FailureKind → Prop
  | .mismatch => f.code = .invalidArgument ∧ f.SaysExtraFields
  | .transient => f.code ∈ Failure.transientCodes
  | .request =>
    f.code = .invalidArgument ∧ ¬f.SaysExtraFields ∧ c.carried c.generation ≠ []
  | .other => f.code ∉ Failure.transientCodes ∧
    (f.code = .invalidArgument → ¬f.SaysExtraFields ∧ c.carried c.generation = [])

/-- The kind of a failure, in the order in which the connection asks. -/
def kindOf (c : Connection) (f : Failure) : FailureKind :=
  if f.isSchemaMismatch then .mismatch
  else if f.isTransient then .transient
  else if f.code = .invalidArgument ∧ c.carried c.generation ≠ [] then .request
  else .other

theorem isKind_iff : IsKind c f k ↔ kindOf c f = k := by
  have hmismatch := Failure.isSchemaMismatch_iff (f := f)
  have htransient := Failure.isTransient_iff (f := f)
  -- the code of a refused request is none of the transient ones
  have hcode : f.code ∈ Failure.transientCodes → f.code ≠ .invalidArgument := by
    cases f.code <;> decide
  unfold kindOf
  split_ifs with hm ht hr <;> cases k <;> simp only [IsKind, reduceCtorEq, iff_false, iff_true] <;> grind

/-- **Every failure is of exactly one kind.** -/
theorem existsUnique_isKind (c : Connection) (f : Failure) : ∃! k, IsKind c f k :=
  ⟨kindOf c f, isKind_iff.mpr rfl, fun _ hk => (isKind_iff.mp hk).symm⟩

/-! ## What becomes of the connection -/

/-- Every write in the queue failed, of whatever channel, and the current channel was shut down. -/
structure ShutDown (c : Connection) (e : WriteError) (c' : Connection) : Prop where
  gives : Gives c (c.queue.map (·.write)) (.error e) c'
  queue : c'.queue = []
  channel : c'.channel = none
  generation : c'.generation = c.generation
  past : ∃ last, c'.past = c.past ++ [last] ∧ last.generation = c.generation ∧
    last.sending = false ∧ last.reader = .stopped
  /-- No channel was opened, and nothing was sent on any. -/
  logs : c'.logs = c.logs
  published : c'.published = c.published ++ [.error e]

/-- The oldest write of the current channel failed, and left the queue. -/
structure Refuses (c : Connection) (e : WriteError) (c' : Connection) : Prop where
  oldest : ∃ n ns, c.carried c.generation = n :: ns ∧ Gives c [n] (.error e) c' ∧
    c.queue = c.earlier ++ ⟨c.generation, n⟩ :: ns.map (fun m => ⟨c.generation, m⟩) ∧
    c'.queue = c.earlier ++ ns.map fun m => ⟨c.generation, m⟩
  channel : c'.channel = c.channel
  generation : c'.generation = c.generation
  past : c'.past = c.past
  published : c'.published = c.published

/-- The current channel is known to have failed, and everything else is as before. -/
structure BreaksDown (c : Connection) (e : WriteError) (c' : Connection) : Prop where
  gives : Gives c [] (.error e) c'
  queue : c'.queue = c.queue
  channel : c'.channel = c.channel.map fun ch => { ch with tornDown := true }
  closed : c'.isOpen = false
  generation : c'.generation = c.generation
  past : c'.past = c.past
  published : c'.published = c.published ++ [.error e]

/-- What becomes of the connection that meets a failure of the kind. -/
def Aftermath (c : Connection) (f : Failure) (c' : Connection) : FailureKind → Prop
  | .mismatch => ShutDown c (.schemaMismatch f) c'
  | .transient => HandedOver c [] (.transient f) c' ∧ c'.published = c.published
  | .request => Refuses c (.request f) c'
  | .other => BreaksDown c (.connection f) c'

theorem HandedOver.replaced {own : List Nat} {e : WriteError} (h : HandedOver c own e c') :
    ∃ again, Replaced c again own c' := by
  cases hp : c.options.inFlightPolicy with
  | resend => exact ⟨_, (h.resend hp).1⟩
  | fail => exact ⟨_, (h.fail hp).1⟩

/-- What tells the kinds apart afterwards: the channel, the generation and the events. -/
theorem Aftermath.tells (h : Aftermath c f c' k) (hch : c.channel = some ch) :
    (c'.channel = none ↔ k = .mismatch) ∧ (c'.generation = c.generation ↔ k ≠ .transient) ∧
      (c'.published = c.published ↔ k = .transient ∨ k = .request) := by
  cases k with
  | mismatch => simp [h.channel, h.generation, h.published]
  | transient =>
    obtain ⟨again, hr⟩ := h.1.replaced
    obtain ⟨next, hnext, -⟩ := hr.fresh
    simp [hnext, hr.generation, h.2]
  | request => simp [h.channel, hch, h.generation, h.published]
  | other => simp [h.channel, hch, h.generation, h.published]

theorem Aftermath.unique (h : Aftermath c f c' k) (h' : Aftermath c f c' k') (hch : c.channel = some ch) :
    k = k' := by
  obtain ⟨hchannel, hgeneration, hpublished⟩ := h.tells hch
  obtain ⟨hchannel', hgeneration', hpublished'⟩ := h'.tells hch
  rw [hchannel] at hchannel'
  rw [hgeneration] at hgeneration'
  rw [hpublished] at hpublished'
  cases k <;> cases k' <;> simp_all

/-! ## One lemma for each kind -/

/-- What changes the current channel alone leaves those before as they are. -/
theorem Coherent.map_past (h : Coherent c) (hch : c.channel = some ch) (f : Channel → Channel) :
    (c.past.map fun x => if x.generation = c.generation then f x else x) = c.past :=
  (List.map_congr_left fun _ hx => if_neg (Nat.ne_of_lt (h.past_lt hch hx))).trans (List.map_id _)

/-- A reader of the current channel that goes on after a failure changes nothing. -/
theorem Coherent.mapChannel_current (h : Coherent c) (hch : c.channel = some ch) :
    (c.mapChannel c.generation fun ch => ch.meet (.failure e) true) = c := by
  rw [mapChannel, h.map_past hch, hch]
  simp [Channel.meet, ← hch]

/-- A mismatch fails the writes and shuts the channel down. -/
theorem shutDown_onSchemaMismatch (hn : Numbered c) (hch : c.channel = some ch)
    (hgen : ch.generation = c.generation) (f : Failure) :
    ShutDown c (.schemaMismatch f) (c.onSchemaMismatch f) := by
  have hgives := gives_failWhere hn (fun _ => true) (.schemaMismatch f)
  rw [List.filter_eq_self.mpr fun _ _ => rfl] at hgives
  refine ⟨hgives.congr rfl rfl, shut_queue c _, rfl, shut_generation c _, ?_, ?_, ?_⟩
  · refine ⟨ch.shutdown, ?_, hgen, rfl, rfl⟩
    rw [onSchemaMismatch, publish, shut_past, hch]
    rfl
  · rw [logs_eq, logs_eq, onSchemaMismatch, publish, shut_past, hch]
    simp [Channel.log, Channel.shutdown]
  · exact congrArg (· ++ [_]) (shut_published c _)

/-- That its reader stops does not concern a channel that is shut down. -/
theorem ShutDown.mapChannel {e : WriteError} (hs : ShutDown c e c') (h : Coherent c)
    (hch : c.channel = some ch) (i : Incoming) (on : Bool) :
    ShutDown c e (c'.mapChannel c.generation fun ch => ch.meet i on) := by
  obtain ⟨last, hpast, hgen, hsending, hreader⟩ := hs.past
  refine ⟨hs.gives.congr rfl rfl, hs.queue, ?_, hs.generation, ⟨last.meet i on, ?_, ?_, ?_, ?_⟩, ?_,
    hs.published⟩
  · simp [Connection.mapChannel, hs.channel]
  · simp only [Connection.mapChannel, hpast, List.map_append, h.map_past hch, List.map_cons, List.map_nil,
      hgen, if_true]
  · rw [Channel.meet_generation, hgen]
  · rw [Channel.meet_sending, hsending]
  · exact Channel.meet_reader_stopped hreader i on
  · rw [mapChannel_logs fun ch => by simp [Channel.log], hs.logs]

theorem gives_answer (hn : Numbered c) {g n : Nat} {ns : List Nat} (hcons : c.carried g = n :: ns)
    (r : WriteResult) : Gives c [n] r (c.answer g r) := by
  have hknown : ∀ m ∈ [n], m < c.writes.length := by
    intro m hm
    rw [List.mem_singleton.mp hm]
    exact hn.carried_known n (hcons ▸ List.mem_cons_self)
  rw [answer_of_cons r hcons]
  exact (gives_resolveAll hknown r).congr rfl rfl

/-- The failure of a request fails the oldest write. -/
theorem refuses_answer (hr : Ranked c) (h : Coherent c) (hn : Numbered c)
    (hc : c.carried c.generation ≠ []) (e : WriteError) :
    Refuses c e (c.answer c.generation (.error e)) := by
  obtain ⟨n, ns, hcons⟩ := List.exists_cons_of_ne_nil hc
  have hqueue := hr.queue_eq h
  refine ⟨⟨n, ns, hcons, gives_answer hn hcons _, ?_, ?_⟩, answer_channel c _ _, answer_generation c _ _,
    answer_past c _ _, answer_published c _ _⟩
  · rw [hqueue, hcons]
    rfl
  · have hearlier : ∀ q ∈ c.earlier, ¬(q.generation == c.generation) = true := fun q hq => by
      simpa using (List.mem_filter.mp hq).2
    rw [answer_queue, hqueue, hcons, List.eraseP_append_right _ hearlier, List.map_cons,
      List.eraseP_cons_of_pos (by simp)]

theorem isOpen_eq_false : c.isOpen = false ↔ ∀ ch, c.channel = some ch → ch.isUsable = false := by
  unfold isOpen
  cases c.channel with
  | none => simp
  | some ch => simp

/-- Any other failure marks the channel. -/
theorem breaksDown_reportFailure (c : Connection) (f : Failure) :
    BreaksDown c (.connection f) (c.reportFailure f) := by
  refine ⟨?_, rfl, rfl, isOpen_eq_false.mpr fun _ => isUsable_tearDown, rfl, rfl, rfl⟩
  refine .of_same ?_ ?_ _ <;> rfl

/-! ## Every failure of the current channel -/

theorem result_of_isUnresolved {n : Nat} (h : c.isUnresolved n = true) : c.result? n = none := by
  obtain ⟨w, hw, hnot⟩ := (Option.any_eq_true _ _).mp h
  simpa [result?, hw, PendingWrite.isDone] using hnot

theorem handle_failure (c : Connection) (e : CallError) :
    c.handle c.generation (.failure e) = c.onFailure (Failure.ofCall e) true := if_pos rfl

/-- A reader of the current channel goes on as long as the channel stays. -/
theorem Coherent.receive_failure (h : Coherent c) (hch : c.channel = some ch)
    (hm : c.meets ch.generation (.failure e) = true)
    (hstays : (c.onFailure (Failure.ofCall e) true).channel ≠ none)
    (hgen : (c.onFailure (Failure.ofCall e) true).generation = c.generation) :
    c.receive ch.generation (.failure e) = c.onFailure (Failure.ofCall e) true := by
  have hcoh := h.moves ((handled c ch.generation (.failure e)).moves (alive_of_meets hm))
  rw [receive_of_meets hm]
  rw [h.current ch hch, handle_failure] at hcoh ⊢
  obtain ⟨next, hnext⟩ := Option.ne_none_iff_exists'.mp hstays
  have halive : (c.onFailure (Failure.ofCall e) true).alive = true := by
    by_contra hdead
    exact hstays (hcoh.held (by simpa using hdead))
  have hreads : (c.onFailure (Failure.ofCall e) true).readsOn c.generation = true := by
    rw [readsOn, if_pos hgen, hnext]
    rfl
  rw [halive, hreads, ← hgen]
  exact hcoh.mapChannel_current hnext

/-- **Each kind of failure has its aftermath.** -/
theorem Coherent.aftermath (h : Coherent c) (hn : Numbered c) (hr : Ranked c) (hch : c.channel = some ch)
    (hm : c.meets ch.generation (.failure e) = true) :
    Aftermath c (Failure.ofCall e) (c.receive ch.generation (.failure e))
      (kindOf c (Failure.ofCall e)) := by
  have hgen := h.current ch hch
  have hstays : c.channel ≠ none := by simp [hch]
  unfold kindOf
  split_ifs with hmismatch ht hreq
  · rw [receive_of_meets hm, hgen, handle_failure]
    simp only [onFailure, hmismatch]
    exact (shutDown_onSchemaMismatch hn hch hgen _).mapChannel h hch _ _
  · refine ⟨h.hands_over hn hr hch (.failure hm ht), ?_⟩
    rw [receive_of_meets hm, hgen, handle_transient ht]
    exact reopen_published c _
  · have heq : c.onFailure (Failure.ofCall e) true =
        c.answer c.generation (.error (.request (Failure.ofCall e))) := by
      simp [onFailure, hmismatch, ht, hreq]
    rw [h.receive_failure hch hm (by rwa [heq, answer_channel]) (by rw [heq, answer_generation]), heq]
    exact refuses_answer hr h hn hreq.2 _
  · have heq : c.onFailure (Failure.ofCall e) true = c.reportFailure (Failure.ofCall e) := by
      simp [onFailure, hmismatch, ht, hreq]
    have hbreaks := breaksDown_reportFailure c (Failure.ofCall e)
    rw [h.receive_failure hch hm (by rw [heq, hbreaks.channel, hch]; simp)
      (by rw [heq, hbreaks.generation]), heq]
    exact hbreaks

/-- No kind of failure reports a schema. -/
theorem Aftermath.published (h : Aftermath c f c' k) :
    ∃ es : List WriteError, c'.published = c.published ++ es.map .error := by
  cases k with
  | mismatch => exact ⟨[.schemaMismatch f], h.published⟩
  | transient => exact ⟨[], h.2.trans (List.append_nil _).symm⟩
  | request => exact ⟨[], (Refuses.published h).trans (List.append_nil _).symm⟩
  | other => exact ⟨[.connection f], h.published⟩

/-- What published errors alone has learned no schema. -/
theorem Tells.latestSchema (h : Tells c c') {es : List WriteError}
    (hes : c'.published = c.published ++ es.map .error) : c'.latestSchema = c.latestSchema := by
  obtain ⟨added, hadded, hlatest⟩ := h
  obtain rfl := List.append_cancel_left (hadded.symm.trans hes)
  have hnone : (es.map Event.error).filterMap Event.schema? = [] := by
    simp [List.filterMap_map, Function.comp_def, Event.schema?]
  rw [hlatest, hnone]
  rfl

/-- **A failure of the current channel is of one kind, and comes to just what this kind does.** Its code,
its text and its error of the storage service are those of the call that failed. In every run

* a mismatch fails every queued write, of whatever channel, shuts the channel down and is published;
* a transient failure replaces the channel, which hands its writes over, and publishes nothing;
* the refusal of a request, while the channel carries a write, fails its oldest and changes nothing else;
* any other failure resolves no write, marks the channel as failed and is published;
* none of them changes the latest schema, and where only the connection gives results, every queued write
  had none before. -/
theorem failure_of_one_kind {id : String} {o : Config.ConnectionOptions} (h : create id o = .ok c)
    (as : List Action) (hch : (c.run as).channel = some ch)
    (hm : (c.run as).meets ch.generation (.failure e) = true) :
    let s := c.run as
    let s' := c.run (as ++ [.receive ch.generation (.failure e)])
    let f := Failure.ofCall e
    f.TakenFrom e ∧ (∃! k, IsKind s f k) ∧ (∀ k, Aftermath s f s' k ↔ IsKind s f k) ∧
      s'.latestSchema = s.latestSchema ∧
      ((∀ a ∈ as, a.isOwn = true) → ∀ q ∈ s.queue, s.result? q.write = none) := by
  intro s s' f
  have hs' : s' = s.act (.receive ch.generation (.failure e)) := run_concat c as _
  have hafter : Aftermath s f s' (kindOf s f) := by
    rw [hs']
    exact (coherent_run h as).aftermath (numbered_run h as) (ranked_run h as) hch hm
  have htells : Tells s s' := by
    rw [hs']
    exact tells_act s _
  obtain ⟨es, hes⟩ := hafter.published
  refine ⟨Failure.takenFrom_iff.mpr rfl, existsUnique_isKind s f, fun k => ?_,
    htells.latestSchema hes, fun hown q hq => ?_⟩
  · rw [isKind_iff]
    constructor
    · exact fun hk => hafter.unique hk hch
    · rintro rfl
      exact hafter
  · have hwaits := ((settled_run h hown).waits_iff q.write).mp (List.mem_map_of_mem hq)
    exact result_of_isUnresolved hwaits

/-- The current channel brings an `InvalidArgument` while a replaced one carries the only write: it is not
the refusal of a request. -/
theorem broken_by_invalidArgument :
    let c := (blank "s" {}).connect
    let as : List Action := [.receive 1 .opened, .call (.write {}), .call .reconnect, .receive 2 .opened]
    let e : CallError := ⟨.invalidArgument, "no such field", []⟩
    let s' := c.run (as ++ [.receive 2 (.failure e)])
    create "s" {} = .ok c ∧ (c.run as).queue = [⟨1, 0⟩] ∧ s'.queue = [⟨1, 0⟩] ∧ s'.isOpen = false ∧
      s'.published.length = 1 := by
  intro c as e s'
  have hnew : create "s" {} = .ok c := create_eq (by decide)
  obtain ⟨ch, hch, hgen⟩ : ∃ ch, (c.run as).channel = some ch ∧ ch.generation = 2 := ⟨_, rfl, rfl⟩
  have hm : (c.run as).meets ch.generation (.failure e) = true := by
    rw [hgen]
    decide
  obtain ⟨-, -, hafter, -, -⟩ := failure_of_one_kind hnew as hch hm
  have hother : IsKind (c.run as) (Failure.ofCall e) .other := isKind_iff.mpr (by decide)
  have hbreaks : BreaksDown (c.run as) _ _ := (hafter .other).mpr hother
  rw [hgen] at hbreaks
  have hqueue : (c.run as).queue = [⟨1, 0⟩] := by decide
  exact ⟨hnew, hqueue, hbreaks.queue.trans hqueue, hbreaks.closed, by rw [hbreaks.published]; decide⟩

end Connection

end RowStream.Stream
