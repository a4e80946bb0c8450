import RowStream.Proofs.Service.Failure
import RowStream.Proofs.Stream.Carrier
import RowStream.Proofs.Stream.Closed

/-!
# Replaced channels are isolated

The reader of a channel that is not the current one shares the queue, the events and the latest schema
with the current channel. What it meets is handled for the writes of its own channel and touches nothing
else (`Isolated`): the current channel and the generation stay, no channel is opened, nothing is sent, and
the only events are new schemas.

Which of the writes it resolves depends on the item (`Settles`): an answer resolves the oldest, a failure
of the channel or its end all of them. A write that its holder resolved before keeps that result.

* `Numbered.handle_replaced`: what an item of such a reader leaves as it was, and what it resolves.
* `Settles.of_failure`: the writes that a failure resolves, by its code and what it says.
* `replaced_channel_isolated`: both, for every item that comes in any run.
-/

namespace RowStream.Stream

open Service (AppendResponse CallError Failure)

theorem PendingWrite.resolve_resolve (w : PendingWrite) (r : WriteResult) :
    (w.resolve r).resolve r = w.resolve r := by
  cases hw : w.result <;> simp [resolve, hw]

/-- The first result of a write stays. -/
theorem PendingWrite.resolve_result (w : PendingWrite) (r : WriteResult) :
    (w.resolve r).result = some (w.result.getD r) := by
  cases hw : w.result <;> simp [resolve, hw]

namespace Connection

variable {c c' c'' : Connection} {g : Nat} {i : Incoming}

/-- The action brings an item of the reader of a channel, and the connection handles it. -/
inductive Brings (c : Connection) (g : Nat) (i : Incoming) : Action → Prop
  | meets (h : c.meets g i = true) : Brings c g i (.receive g i)
  | late (h : c.stopsLate g = true) : Brings c g i (.late g i)

/-! ## What stays as it was -/

/-- Nothing changed but the writes that a channel carries, what the readers do, and the new schemas. -/
structure Isolated (c : Connection) (g : Nat) (c' : Connection) : Prop where
  channel : c'.channel = c.channel
  generation : c'.generation = c.generation
  /-- No channel was opened, and nothing was sent on any. -/
  logs : c'.logs = c.logs
  /-- No error was published. -/
  events : ∃ schemas : List Table.Schema,
    c'.published = c.published ++ schemas.map .schemaUpdated
  /-- Entries of the channel left the queue, and no others. -/
  queue : c'.queue.Sublist c.queue ∧
    c'.queue.filter (fun q => q.generation != g) = c.queue.filter fun q => q.generation != g
  /-- Writes of the channel were resolved, and no others. -/
  writes : ∀ n, n ∉ c.carried g → c'.writes[n]? = c.writes[n]?
  given : ∃ added : List Given, c'.given = c.given ++ added ∧ ∀ x ∈ added, x.write ∈ c.carried g

theorem Isolated.carried_subset (h : Isolated c g c') : c'.carried g ⊆ c.carried g :=
  fun _ hn => mem_carried.mpr (h.queue.1.subset (mem_carried.mp hn))

theorem Isolated.refl (c : Connection) (g : Nat) : Isolated c g c :=
  ⟨rfl, rfl, rfl, ⟨[], by simp⟩, ⟨.refl _, rfl⟩, fun _ _ => rfl, ⟨[], by simp⟩⟩

theorem Isolated.trans (h : Isolated c g c') (h' : Isolated c' g c'') : Isolated c g c'' := by
  obtain ⟨ss, hss⟩ := h.events
  obtain ⟨ss', hss'⟩ := h'.events
  obtain ⟨gs, hgs, hmem⟩ := h.given
  obtain ⟨gs', hgs', hmem'⟩ := h'.given
  refine ⟨h'.channel.trans h.channel, h'.generation.trans h.generation, h'.logs.trans h.logs,
    ⟨ss ++ ss', by rw [hss', hss, List.map_append, List.append_assoc]⟩,
    ⟨h'.queue.1.trans h.queue.1, h'.queue.2.trans h.queue.2⟩, fun n hn => ?_,
    ⟨gs ++ gs', by rw [hgs', hgs, List.append_assoc], fun x hx => ?_⟩⟩
  · exact (h'.writes n fun hmem => hn (h.carried_subset hmem)).trans (h.writes n hn)
  · rcases List.mem_append.mp hx with hx | hx
    · exact hmem x hx
    · exact h.carried_subset (hmem' x hx)

/-- Nothing that is looked at changed but the readers. -/
theorem Isolated.of_logs (hc : c'.channel = c.channel) (hg : c'.generation = c.generation)
    (hl : c'.logs = c.logs) (hp : c'.published = c.published) (hq : c'.queue = c.queue)
    (hw : c'.writes = c.writes) (hgiven : c'.given = c.given) : Isolated c g c' :=
  ⟨hc, hg, hl, ⟨[], by simp [hp]⟩, by rw [hq]; exact ⟨.refl _, rfl⟩, fun _ _ => by rw [hw],
    ⟨[], by simp [hgiven]⟩⟩

/-- A new schema is published. -/
theorem isolated_learn (c : Connection) (g : Nat) (s : Table.Schema) :
    Isolated c g (publish { c with latestSchema := some s } (.schemaUpdated s)) :=
  ⟨rfl, rfl, rfl, ⟨[s], rfl⟩, ⟨.refl _, rfl⟩, fun _ _ => rfl, ⟨[], (List.append_nil _).symm, by simp⟩⟩

/-! ## Which writes are resolved -/

/-- The channel no longer carries the writes `ns`, its oldest. Each of them got the result, unless it
had one, and no other write changed. -/
structure Settles (c : Connection) (g : Nat) (ns : List Nat) (r : WriteResult) (c' : Connection) :
    Prop where
  carried : c.carried g = ns ++ c'.carried g
  resolved : ∀ n ∈ ns, c'.result? n = some ((c.result? n).getD r)
  others : ∀ n ∉ ns, c'.writes[n]? = c.writes[n]?

theorem Settles.congr {c₁ c₂ : Connection} {r : WriteResult} {ns : List Nat}
    (h : Settles c₁ g ns r c₂) (hq : c₁.queue = c.queue) (hw : c₁.writes = c.writes)
    (hq' : c'.queue = c₂.queue) (hw' : c'.writes = c₂.writes) : Settles c g ns r c' := by
  obtain ⟨hcarried, hresolved, hothers⟩ := h
  refine ⟨?_, ?_, ?_⟩
  · rw [carried_congr hq', ← carried_congr hq]
    exact hcarried
  · simpa only [result?, hw, hw'] using hresolved
  · simpa only [hw, hw'] using hothers

theorem getElem?_resolve (c : Connection) (r : WriteResult) (n m : Nat) :
    (c.resolve r n).writes[m]? =
      if m = n then (c.writes[m]?).map (·.resolve r) else c.writes[m]? := by
  simp only [resolve, mapWrite, List.getElem?_modify, eq_comm (a := n)]
  split
  · rfl
  · exact Option.map_id'

/-- The writes that were given a result have it, or the one that they had before. -/
theorem getElem?_resolveAll (c : Connection) (r : WriteResult) (ns : List Nat) (m : Nat) :
    (c.resolveAll r ns).writes[m]? =
      if m ∈ ns then (c.writes[m]?).map (·.resolve r) else c.writes[m]? := by
  induction ns generalizing c with
  | nil => rfl
  | cons n ns ih =>
    rw [resolveAll, List.foldl_cons, ← resolveAll, ih, getElem?_resolve]
    by_cases hmn : m = n
    · by_cases hmem : m ∈ ns <;>
        simp [hmn ▸ hmem, hmn, PendingWrite.resolve_resolve, Function.comp_def]
    · simp [hmn]

theorem given_resolveAll (c : Connection) (r : WriteResult) (ns : List Nat) :
    ∃ added : List Given, (c.resolveAll r ns).given = c.given ++ added ∧
      added.map (·.write) = ns := by
  induction ns generalizing c with
  | nil => exact ⟨[], (List.append_nil _).symm, rfl⟩
  | cons n ns ih =>
    obtain ⟨added, heq, hmap⟩ := ih (c.resolve r n)
    exact ⟨_ :: added, heq.trans (List.append_assoc _ [_] added), congrArg (n :: ·) hmap⟩

/-- What happens to writes that get a result, and to the others. -/
theorem Settles.of_resolveAll {ns : List Nat} {r : WriteResult} (hq : c.carried g = ns ++ c'.carried g)
    (hw : c'.writes = (c.resolveAll r ns).writes) (hknown : ∀ n ∈ ns, n < c.writes.length) :
    Settles c g ns r c' := by
  refine ⟨hq, fun n hn => ?_, fun n hn => by rw [hw, getElem?_resolveAll, if_neg hn]⟩
  obtain ⟨w, hw₀⟩ : ∃ w, c.writes[n]? = some w := ⟨_, List.getElem?_eq_getElem (hknown n hn)⟩
  rw [result?, hw, getElem?_resolveAll, if_pos hn, result?, hw₀, Option.map_some, Option.bind_some,
    Option.bind_some, PendingWrite.resolve_result]

theorem resolveAll_writes_congr (h : c'.writes = c.writes) (r : WriteResult) (ns : List Nat) :
    (c'.resolveAll r ns).writes = (c.resolveAll r ns).writes :=
  List.ext_getElem? fun m => by rw [getElem?_resolveAll, getElem?_resolveAll, h]

/-- An answer settles the oldest write of the channel. -/
theorem Numbered.settles_answer (h : Numbered c) (g : Nat) (r : WriteResult) :
    Settles c g ((c.carried g).take 1) r (c.answer g r) := by
  refine .of_resolveAll ?_ ?_ fun n hn => h.carried_known n (List.mem_of_mem_take hn)
  · rw [carried_answer_self, ← List.drop_one, List.take_append_drop]
  · cases hc : c.carried g with
    | nil => rw [answer_of_nil r hc]; rfl
    | cons n ns => rw [answer_of_cons r hc]; rfl

/-- A failure of the channel settles all of its writes. -/
theorem Numbered.settles_failGeneration (h : Numbered c) (g : Nat) (e : WriteError) :
    Settles c g (c.carried g) (.error e) (c.failGeneration g e) := by
  refine .of_resolveAll ?_ ?_ h.carried_known
  · rw [carried_failGeneration_self, List.append_nil]
  · have hkept : { c with queue := c.queue.filter fun q => !(q.generation == g) }.writes = c.writes :=
      rfl
    exact resolveAll_writes_congr hkept _ _

/-! ## What an item comes to -/

theorem isolated_answer (h : Numbered c) (g : Nat) (r : WriteResult) :
    Isolated c g (c.answer g r) := by
  have hsettles := h.settles_answer g r
  refine ⟨answer_channel c g r, answer_generation c g r, answer_logs c g r, ?_, ?_, fun n hn => ?_, ?_⟩
  · rw [answer_eq]
    exact ⟨[], (List.append_nil _).symm⟩
  · rw [answer_queue]
    refine ⟨List.eraseP_sublist, filter_eraseP_of_disjoint (fun q hq => ?_) c.queue⟩
    simpa using hq
  · exact hsettles.others n fun hmem => hn (List.mem_of_mem_take hmem)
  · cases hc : c.carried g with
    | nil =>
      rw [answer_of_nil r hc]
      exact ⟨[], by simp⟩
    | cons n ns =>
      rw [answer_of_cons r hc]
      exact ⟨_, rfl, fun x hx => by simp [List.mem_singleton.mp hx]⟩

theorem isolated_failGeneration (h : Numbered c) (g : Nat) (e : WriteError) :
    Isolated c g (c.failGeneration g e) := by
  have hsettles := h.settles_failGeneration g e
  refine ⟨failWhere_channel c _ e, failWhere_generation c _ e, ?_, ?_, ?_, hsettles.others, ?_⟩
  · simp [logs_eq, failGeneration]
  · rw [failGeneration, failWhere, resolveAll_eq]
    exact ⟨[], (List.append_nil _).symm⟩
  · rw [failGeneration, failWhere_queue]
    exact ⟨List.filter_sublist, by simp [List.filter_filter, bne]⟩
  · obtain ⟨added, hadded, hmap⟩ := given_resolveAll
      { c with queue := c.queue.filter fun q => !(q.generation == g) } (.error e) (c.carried g)
    exact ⟨added, hadded, fun x hx => hmap ▸ List.mem_map_of_mem hx⟩

/-- A response of a channel may bring a schema, and answers the oldest write of the channel. -/
theorem Numbered.onResponse (h : Numbered c) (g : Nat) (r : AppendResponse) :
    Isolated c g (c.onResponse g r) ∧
      Settles c g ((c.carried g).take 1) (resultOf r) (c.onResponse g r) := by
  unfold Connection.onResponse
  cases r.updatedSchema with
  | none => exact ⟨isolated_answer h g _, h.settles_answer g _⟩
  | some s =>
    have hlearned : Numbered (publish { c with latestSchema := some s } (.schemaUpdated s)) :=
      ⟨h.rising, h.known⟩
    exact ⟨(isolated_learn c g s).trans (isolated_answer hlearned g _),
      (hlearned.settles_answer g _).congr rfl rfl rfl rfl⟩

/-- **An item of a replaced channel is handled for its own writes.** -/
theorem Numbered.handle_replaced (h : Numbered c) (hg : c.generation ≠ g) (i : Incoming) :
    Isolated c g (c.handle g i) ∧
      Settles c g (i.resolves (c.carried g)) i.verdict (c.handle g i) := by
  have hfail (e : WriteError) : Isolated c g (c.failGeneration g e) ∧
      Settles c g (c.carried g) (.error e) (c.failGeneration g e) :=
    ⟨isolated_failGeneration h g e, h.settles_failGeneration g e⟩
  -- nothing is resolved for a channel that carries nothing
  have hnothing (hnil : c.carried g = []) (r : WriteResult) :
      Isolated c g c ∧ Settles c g (i.resolves (c.carried g)) r c := by
    have hnone : i.resolves (c.carried g) = [] := by
      cases i <;> simp [Incoming.resolves, hnil]
    exact ⟨.refl c g, hnone ▸ ⟨rfl, by simp, fun _ _ => rfl⟩⟩
  cases i with
  | opened => exact ⟨.refl c g, rfl, by simp [Incoming.resolves], fun _ _ => rfl⟩
  | refused e =>
    rw [handle, onRefused, if_neg hg]
    exact hfail _
  | response r =>
    rw [handle, onItem, if_neg hg]
    split
    · rename_i hnil
      exact hnothing (List.isEmpty_iff.mp hnil) _
    · exact h.onResponse g r
  | failure e =>
    rw [handle, onItem, if_neg hg]
    split
    · rename_i hnil
      exact hnothing (List.isEmpty_iff.mp hnil) _
    · simp only [onReplacedFailure, Incoming.resolves, Incoming.verdict, Incoming.answer?]
      split
      · exact ⟨isolated_answer h g _, h.settles_answer g _⟩
      · exact hfail _
  | ended =>
    rw [handle, onEnded, if_neg hg]
    exact hfail _

/-! ## Items along a run -/

/-- That the reader of a replaced channel met something concerns the reader alone. -/
theorem Coherent.mapChannel_replaced (h : Coherent c) (hg : c.generation ≠ g) (f : Channel → Channel) :
    c.mapChannel g f = { c with past := (c.mapChannel g f).past } := by
  have hcurrent : (c.channel.map fun ch => if ch.generation = g then f ch else ch) = c.channel := by
    cases hch : c.channel with
    | none => rfl
    | some ch => simp [h.current ch hch, hg]
  simp only [mapChannel, hcurrent]

/-- An action that brings an item handles it, and moves the reader. -/
theorem Coherent.act_brings (h : Coherent c) (hn : Numbered c) (hg : c.generation ≠ g) {a : Action}
    (hb : Brings c g i a) : ∃ past, c.act a = { c.handle g i with past := past } ∧
      past.map Channel.log = (c.handle g i).past.map Channel.log := by
  cases hb with
  | meets hm =>
    have hcoh := h.moves ((handled c g i).moves (alive_of_meets hm))
    have hg' : (c.handle g i).generation ≠ g := by
      rw [(hn.handle_replaced hg i).1.generation]
      exact hg
    refine ⟨_, (receive_of_meets hm).trans (hcoh.mapChannel_replaced hg' _), ?_⟩
    refine Channel.map_log (fun ch => ?_) _
    split
    · simp [Channel.log]
    · rfl
  | late hl => exact ⟨_, if_pos hl, rfl⟩

/-- The connection after an item of a replaced channel. -/
theorem Coherent.act_replaced (h : Coherent c) (hn : Numbered c) (hg : c.generation ≠ g) {a : Action}
    (hb : Brings c g i a) : Isolated c g (c.act a) ∧
      Settles c g (i.resolves (c.carried g)) i.verdict (c.act a) := by
  obtain ⟨past, heq, hlogs⟩ := h.act_brings hn hg hb
  obtain ⟨hisolated, hsettles⟩ := hn.handle_replaced hg i
  rw [heq]
  refine ⟨hisolated.trans (.of_logs rfl rfl ?_ rfl rfl rfl rfl), hsettles.congr rfl rfl rfl rfl⟩
  rw [logs_eq, logs_eq, hlogs]

/-- **What a failure of a replaced channel is to its writes.** -/
theorem Settles.of_failure {e : CallError}
    (h : Settles c g ((Incoming.failure e).resolves (c.carried g)) (Incoming.failure e).verdict c') :
    let f := Failure.ofCall e
    (f.code = .invalidArgument → ¬f.SaysExtraFields →
      Settles c g ((c.carried g).take 1) (.error (.request f)) c') ∧
    (f.code = .invalidArgument → f.SaysExtraFields →
      Settles c g (c.carried g) (.error (.schemaMismatch f)) c') ∧
    (f.code ∈ Failure.transientCodes → Settles c g (c.carried g) (.error (.transient f)) c') ∧
    (f.code ≠ .invalidArgument → f.code ∉ Failure.transientCodes →
      Settles c g (c.carried g) (.error (.connection f)) c') := by
  intro f
  have hmismatch := Failure.isSchemaMismatch_iff (f := f)
  have htransient := Failure.isTransient_iff (f := f)
  have hcode : f.code ∈ Failure.transientCodes → f.code ≠ .invalidArgument := by
    cases f.code <;> decide
  -- what is no answer fails all the writes
  have hall (hnone : (Incoming.failure e).answer? = none) :
      Settles c g (c.carried g) (.error (.ofReplaced f)) c' := by
    simpa [Incoming.resolves, Incoming.verdict, hnone] using h
  refine ⟨fun hc hsays => ?_, fun hc hsays => ?_, fun ht => ?_, fun hc ht => ?_⟩
  · have hm : f.isSchemaMismatch = false := by grind
    simpa [Incoming.resolves, Incoming.verdict, answer?_failure hc hm] using h
  · have hm : f.isSchemaMismatch = true := hmismatch.mpr ⟨hc, hsays⟩
    simpa [WriteError.ofReplaced, hm] using hall (answer?_mismatch hm)
  · have hm : f.isSchemaMismatch = false := by grind
    simpa [WriteError.ofReplaced, hm, htransient.mpr ht] using hall (answer?_other (hcode ht))
  · have hm : f.isSchemaMismatch = false := by grind
    have htr : f.isTransient = false := by grind
    simpa [WriteError.ofReplaced, hm, htr] using hall (answer?_other hc)

/-- **Replaced and lost channels are isolated.** Whatever the reader of a channel that is not the
current one meets, in any run,

* the current channel and the generation stay, no channel is opened, nothing is sent, no error is
  published, and only writes that this channel carries leave the queue or get results;
* if the channel carries nothing, nothing changes but the reader;
* a response answers the oldest write of the channel, and so does the failure of a single request; any
  other failure, a call that could not be opened and the end of the channel fail all of its writes. What
  they are told is the code, the text and the error of the storage service of the call that failed. -/
theorem replaced_channel_isolated {id : String} {o : Config.ConnectionOptions}
    (h : create id o = .ok c) (as : List Action) {a : Action}
    (hb : Brings (c.run as) g i a) (hg : (c.run as).generation ≠ g) :
    let s := c.run as
    let s' := c.run (as ++ [a])
    Isolated s g s' ∧
    (s.carried g = [] → s.handle g i = s ∧ s' = { s with past := s'.past }) ∧
    match i with
    | .opened => s.handle g i = s
    | .response r => Settles s g ((s.carried g).take 1) (resultOf r) s'
    | .failure e =>
      let f := Failure.ofCall e
      f.TakenFrom e ∧
      (f.code = .invalidArgument → ¬f.SaysExtraFields →
        Settles s g ((s.carried g).take 1) (.error (.request f)) s') ∧
      (f.code = .invalidArgument → f.SaysExtraFields →
        Settles s g (s.carried g) (.error (.schemaMismatch f)) s') ∧
      (f.code ∈ Failure.transientCodes → Settles s g (s.carried g) (.error (.transient f)) s') ∧
      (f.code ≠ .invalidArgument → f.code ∉ Failure.transientCodes →
        Settles s g (s.carried g) (.error (.connection f)) s')
    | .refused e =>
      let f := Failure.ofCall e
      f.TakenFrom e ∧ Settles s g (s.carried g) (.error (.connection f)) s'
    | .ended => Settles s g (s.carried g) (.error .connectionClosed) s' := by
  have hcoh := coherent_run h as
  have hnum := numbered_run h as
  obtain ⟨hisolated, hsettles⟩ := hcoh.act_replaced hnum hg hb
  simp only [run_append, run_cons, run_nil]
  refine ⟨hisolated, fun hnil => ?_, ?_⟩
  · have hsame := handle_of_nil hg hnil i
    obtain ⟨past, heq, -⟩ := hcoh.act_brings hnum hg hb
    rw [hsame] at heq
    exact ⟨hsame, by rw [heq]⟩
  · cases i with
    | opened => rfl
    | response r => exact hsettles
    | failure e => exact ⟨Failure.takenFrom_iff.mpr rfl, hsettles.of_failure⟩
    | refused e => exact ⟨Failure.takenFrom_iff.mpr rfl, hsettles⟩
    | ended => exact hsettles

/-- A channel that was replaced with two writes on it ends: both fail, and the write on the current
channel waits on. -/
theorem isolated_after_reconnect :
    let c := (blank "s" {}).connect
    let as : List Action := [.call (.write {}), .call (.write {}), .receive 1 .opened,
      .call .reconnect, .call (.write {})]
    create "s" {} = .ok c ∧ Brings (c.run as) 1 .ended (.receive 1 .ended) ∧
      (c.run as).generation ≠ 1 ∧ (c.run as).carried 1 = [0, 1] ∧
      (c.run (as ++ [.receive 1 .ended])).result? 1 = some (.error .connectionClosed) ∧
      (c.run (as ++ [.receive 1 .ended])).queue = [⟨2, 2⟩] := by
  intro c as
  have hnew : create "s" {} = .ok c := create_eq (by decide)
  have hb : Brings (c.run as) 1 .ended (.receive 1 .ended) := .meets (by decide)
  have hg : (c.run as).generation ≠ 1 := by decide
  obtain ⟨-, -, hsettles⟩ := replaced_channel_isolated hnew as hb hg
  have hcarried : (c.run as).carried 1 = [0, 1] := by decide
  refine ⟨hnew, hb, hg, hcarried, ?_, by decide⟩
  rw [hsettles.resolved 1 (by rw [hcarried]; decide)]
  rfl

end Connection

end RowStream.Stream
