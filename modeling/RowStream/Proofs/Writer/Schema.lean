import RowStream.Proofs.Stream.Carrier
import RowStream.Proofs.Writer.Run

/-!
# The schemas on a channel

Every request carries the descriptor that its writer had when it was made. A writer that gets
another descriptor has the channel replaced, so the requests that go out on a channel first carry
one descriptor, in every run.

Requests that go out again keep theirs. A usable channel keeps its writes when it is replaced, and a
recovery sends again what was sent with the descriptor of now. Only a change of the descriptor while
the channel is unusable and still carries writes brings requests of the old descriptor to the
channel of the new one (`Writing.mixes`).

Both are one invariant (`Uniform`), about those requests in the logs that are picked: all, or the
first transmissions.

* `Uniform.step`: what one event keeps of it.
* `one_schema_per_channel`: the descriptors on each channel, in any run.
* `two_schemas_after_hangUp`: a channel that carries two.
-/

namespace RowStream

/-- The schema of the rows of a request. -/
def Service.AppendRequest.writerSchema (r : AppendRequest) : Option WriterSchema :=
  r.data.bind (·.schema)

namespace Stream

open Service (AppendRequest WriterSchema)

/-- The schema that the requests of a writer carry. -/
def Writer.schema (w : Writer) : Option WriterSchema := some ⟨some w.descriptor⟩

theorem Writer.request_writerSchema (w : Writer) (id : String) (rows : List (List UInt8))
    (offset : Option Int64) : (w.request id rows offset).writerSchema = w.schema := rfl

/-- A choice of requests in the logs of the channels. -/
abbrev Pick := List (Nat × List Sent) → Nat → Sent → Prop

namespace Pick

/-- All requests. -/
def all : Pick := fun _ _ _ => True

/-- The requests of writes that went out on no earlier channel. -/
def first : Pick := fun logs g s => ∀ l ∈ logs, l.1 < g → ∀ s' ∈ l.2, s'.write ≠ s.write

/-- When logs grow, no request is picked that was not picked before. -/
def Shrinks (F : Pick) : Prop :=
  ∀ logs logs' : List (Nat × List Sent), (∀ l ∈ logs, ∃ l' ∈ logs', l'.1 = l.1 ∧ l.2 ⊆ l'.2) →
    ∀ g s, F logs' g s → F logs g s

theorem all_shrinks : all.Shrinks := fun _ _ _ _ _ _ => trivial

theorem first_shrinks : first.Shrinks := by
  intro logs logs' hgrow g s hfirst l hl hlt s' hs'
  obtain ⟨l', hl', hgen, hsub⟩ := hgrow l hl
  exact hfirst l' hl' (by omega) s' (hsub hs')

end Pick

namespace Connection

variable {c c' : Connection} {F : Pick} {sch sch' : Option WriterSchema}

/-! ## One schema on each channel -/

/-- Of the picked requests, those on one channel carry one schema, and those on the current channel
carry `sch`. -/
structure Uniform (F : Pick) (sch : Option WriterSchema) (c : Connection) : Prop where
  each : ∀ l ∈ c.logs, ∃ sch, ∀ s ∈ l.2, F c.logs l.1 s → s.request.writerSchema = sch
  now : ∀ l ∈ c.logs, l.1 = c.generation → ∀ s ∈ l.2, F c.logs l.1 s →
    s.request.writerSchema = sch

/-- What is picked of the requests that a replacement sends again carries `sch`. -/
def Resends (F : Pick) (sch : Option WriterSchema) (c : Connection) : Prop :=
  ∀ hd, ∀ s ∈ c.resent hd, F (c.reopen hd).logs (c.generation + 1) s →
    s.request.writerSchema = sch

theorem Coherent.log_le (h : Coherent c) {l : Nat × List Sent} (hl : l ∈ c.logs) :
    l.1 ≤ c.generation := by
  obtain ⟨ch, hch, rfl⟩ := List.mem_map.mp hl
  exact h.bounded _ (mem_generations hch)

/-- Whatever sends nothing keeps the schemas. -/
theorem Uniform.of_logs (h : Uniform F sch c) (hc : Coherent c) (hl : c'.logs = c.logs)
    (hg : c.generation ≤ c'.generation) : Uniform F sch c' := by
  refine ⟨by rw [hl]; exact h.each, fun l hm hgen => ?_⟩
  rw [hl] at hm ⊢
  have hle := hc.log_le hm
  exact h.now l hm (by omega)

/-- The last log is that of the current channel, and the others stay. -/
theorem Uniform.of_snoc (h : Uniform F sch c) (hF : F.Shrinks) {older : List (Nat × List Sent)}
    {last : Nat × List Sent} (hlogs : c'.logs = older ++ [last]) (hsub : older ⊆ c.logs)
    (hgrow : ∀ l ∈ c.logs, ∃ l' ∈ c'.logs, l'.1 = l.1 ∧ l.2 ⊆ l'.2)
    (hnow : ∀ l ∈ older, l.1 = c'.generation → l.1 = c.generation ∧ sch = sch')
    (hlast : ∀ s ∈ last.2, F c'.logs last.1 s → s.request.writerSchema = sch') :
    Uniform F sch' c' := by
  refine ⟨fun l hl => ?_, fun l hl hgen => ?_⟩ <;> rw [hlogs] at hl <;>
    rcases List.mem_append.mp hl with hl | hl
  · obtain ⟨sch, hsch⟩ := h.each l (hsub hl)
    exact ⟨sch, fun s hs hpick => hsch s hs (hF _ _ hgrow _ _ hpick)⟩
  · rw [List.mem_singleton.mp hl]
    exact ⟨sch', hlast⟩
  · obtain ⟨hg, rfl⟩ := hnow l hl hgen
    exact fun s hs hpick => h.now l (hsub hl) hg s hs (hF _ _ hgrow _ _ hpick)
  · rw [List.mem_singleton.mp hl]
    exact hlast

/-- A fresh channel carries what is sent again. -/
theorem Uniform.reopen (h : Uniform F sch c) (hc : Coherent c) (hF : F.Shrinks) {hd : Handover}
    (hres : ∀ s ∈ c.resent hd, F (c.reopen hd).logs (c.generation + 1) s →
      s.request.writerSchema = sch') : Uniform F sch' (c.reopen hd) := by
  have hlogs := reopen_logs c hd
  refine h.of_snoc hF hlogs (List.Subset.refl _) (fun l hl => ?_) (fun l hl hgen => ?_) hres
  · rw [hlogs]
    exact ⟨l, List.mem_append_left _ hl, rfl, List.Subset.refl _⟩
  · have hle := hc.log_le hl
    rw [reopen_generation] at hgen
    omega

/-- A new write goes to the current channel. -/
theorem Uniform.accept (h : Uniform F sch c) (hc : Coherent c) (hF : F.Shrinks)
    (ho : c.channel ≠ none) {r : AppendRequest} (hr : r.writerSchema = sch) :
    Uniform F sch (c.accept r) := by
  obtain ⟨ch, hch⟩ := Option.ne_none_iff_exists'.mp ho
  obtain ⟨older, hold, hnew⟩ := accept_logs hch r
  have hgen : (c.accept r).generation = c.generation := by rw [accept_eq hch]
  have hsub : older ⊆ c.logs := by
    rw [hold]
    exact List.subset_append_left ..
  have hlast : (ch.generation, ch.sent) ∈ c.logs := by
    rw [hold]
    exact List.mem_append_right _ (List.mem_singleton_self _)
  have hgrow : ∀ l ∈ c.logs, ∃ l' ∈ (c.accept r).logs, l'.1 = l.1 ∧ l.2 ⊆ l'.2 := by
    intro l hl
    rw [hold] at hl
    rw [hnew]
    rcases List.mem_append.mp hl with hl | hl
    · exact ⟨l, List.mem_append_left _ hl, rfl, List.Subset.refl _⟩
    · rw [List.mem_singleton.mp hl]
      exact ⟨_, List.mem_append_right _ (List.mem_singleton_self _), rfl,
        List.subset_append_left ..⟩
  refine h.of_snoc hF hnew hsub hgrow (fun l _ hl => ⟨hl.trans hgen, rfl⟩) fun s hs hpick => ?_
  rcases List.mem_append.mp hs with hs | hs
  · exact h.now _ hlast (hc.current ch hch) s hs (hF _ _ hgrow _ _ hpick)
  · rw [List.mem_singleton.mp hs]
    exact hr

/-- **An action keeps the schemas**, if a request that it hands over carries that of the current
channel. -/
theorem Uniform.act (h : Uniform F sch c) (hc : Coherent c) (hF : F.Shrinks)
    (hres : Resends F sch c) {a : Action} (hw : ∀ r, a = .call (.write r) → r.writerSchema = sch) :
    Uniform F sch (c.act a) := by
  have hquiets {c₁ c₂ : Connection} (h₁ : Uniform F sch c₁) (hc₁ : Coherent c₁)
      (q : Quiets c₁ c₂) : Uniform F sch c₂ := h₁.of_logs hc₁ q.logs q.stays.later
  have hanswer {c₁ : Connection} (h₁ : Uniform F sch c₁) (hc₁ : Coherent c₁) (g : Nat)
      (r : WriteResult) : Uniform F sch (c₁.answer g r) :=
    h₁.of_logs hc₁ (answer_logs c₁ g r) (Nat.le_of_eq (answer_generation c₁ g r).symm)
  have o := hc.outcome a
  generalize c.act a = c' at o ⊢
  cases o with
  | quiet _ _ q => exact hquiets h hc q
  | opens => exact h.reopen hc hF (hres _)
  | replace => exact h.reopen hc hF (hres _)
  | refuse => exact h.of_logs hc rfl (Nat.le_refl _)
  | accept _ hch => exact h.accept hc hF (by simp [hch]) (hw _ rfl)
  | recover ha =>
    exact (h.reopen hc hF (hres _)).accept (hc.reopen ha _) hF (reopen_channel_ne c _) (hw _ rfl)
  | answer _ q _ q' =>
    have hc₁ := hc.quiets q
    exact hquiets (hanswer (hquiets h hc q) hc₁ _ _) (hc₁.move (.answer ..)) q'
  | reject q q' =>
    have hc₁ := hc.quiets q
    exact hquiets (hanswer (hquiets h hc q) hc₁ _ _) (hc₁.move (.answer ..)) q'
  | lose hm _ q =>
    exact hquiets (h.reopen hc hF (hres _)) (hc.reopen (alive_of_meets hm) _) q
  | mark => exact h.of_logs hc rfl (Nat.le_refl _)
  | retry => exact h.of_logs hc rfl (Nat.le_refl _)

/-- What is sent again was sent on the current channel, so with its schema. -/
theorem Uniform.resends (h : Uniform .all sch c) (hc : Coherent c) (hl : Logged c) :
    Resends .all sch c := by
  intro hd s hs _
  obtain ⟨ch, hch, hsent⟩ := hl.sent_of_resent hc hs
  have hlog : ch.log ∈ c.logs := List.mem_map_of_mem (mem_channels.mpr (.inr hch))
  exact h.now _ hlog (hc.current ch hch) s hsent trivial

/-- What is sent again does not go out first. -/
theorem Logged.resends_first (hl : Logged c) (hc : Coherent c) : Resends .first sch c := by
  intro hd s hs hfirst
  obtain ⟨ch, hch, hsent⟩ := hl.sent_of_resent hc hs
  have hlog : ch.log ∈ (c.reopen hd).logs := by
    rw [reopen_logs]
    exact List.mem_append_left _ (List.mem_map_of_mem (mem_channels.mpr (.inr hch)))
  have hlt : ch.log.1 < c.generation + 1 := Nat.lt_succ_of_le (Nat.le_of_eq (hc.current ch hch))
  exact absurd rfl (hfirst _ hlog hlt s hsent)

end Connection

namespace Writing

open Connection

variable {s : Writing} {F : Pick}

/-! ## What an event does -/

/-- The event changes the descriptor while the channel is unusable and carries writes that are to
be sent again. -/
def mixes (s : Writing) : Event → Bool
  | .call (.setDescriptor d) =>
    d != s.writer.descriptor && s.connection.options.inFlightPolicy == .resend &&
      s.connection.channel.any (fun ch => !ch.isUsable) &&
      !(s.connection.carried s.connection.generation).isEmpty
  | _ => false

/-- No event of a run does. -/
def unmixed (s : Writing) : List Event → Bool
  | [] => true
  | e :: es => !s.mixes e && (s.step e).unmixed es

/-- The event changes the descriptor. -/
def Changes (s : Writing) (e : Event) (d : Descriptor.Message) : Prop :=
  e = .call (.setDescriptor d) ∧ d ≠ s.writer.descriptor ∧
    s.step e = ⟨{ s.writer with descriptor := d }, s.connection.reconnect⟩

/-- An event changes the descriptor, or it leaves it and is an action of the connection in which no
request carries another, or none. -/
theorem step_cases (s : Writing) (e : Event) : (∃ d, s.Changes e d) ∨
    (s.step e).writer.descriptor = s.writer.descriptor ∧
      ((s.step e).connection = s.connection ∨
        ∃ a, (s.step e).connection = s.connection.act a ∧
          ∀ r, a = .call (.write r) → r.writerSchema = s.writer.schema) := by
  have hact {a : Action} (ha : s.action? e = some a) :
      (s.step e).connection = s.connection.act a := by
    rw [step_connection, ha]
    rfl
  cases e with
  | other a =>
    right
    refine ⟨by simp only [step]; split <;> rfl, ?_⟩
    simp only [step]
    split
    · exact .inl rfl
    · rename_i hnot
      refine .inr ⟨a, rfl, fun r hr => ?_⟩
      rw [hr] at hnot
      exact absurd rfl hnot
  | call k =>
    cases k with
    | append rows offset =>
      right
      refine ⟨by simp only [step]; split <;> rfl, .inr ⟨_, hact rfl, fun r hr => ?_⟩⟩
      cases hr
      exact s.writer.request_writerSchema s.connection.streamId rows offset
    | setDescriptor d =>
      by_cases hd : d = s.writer.descriptor
      · right
        refine ⟨?_, .inl ?_⟩ <;>
        · simp only [step, call, Writer.setDescriptor, hd, if_true]
          split <;> rfl
      · cases ha : s.connection.alive with
        | true =>
          left
          refine ⟨d, rfl, hd, ?_⟩
          simp [step, call, Writer.setDescriptor, hd, ha]
        | false =>
          right
          simp [step, ha]
    | control k =>
      right
      refine ⟨by simp only [step, call, control]; split <;> simp, ?_⟩
      cases hk : k.call? with
      | none => exact .inl (by rw [step_connection]; simp [action?, hk])
      | some k' =>
        refine .inr ⟨.call k', hact (by simp [action?, hk]), fun r hr => ?_⟩
        cases hr
        exact absurd hk (k.call?_ne_write r)

/-- What the connection of a writer keeps of the schemas. -/
abbrev Uniform (F : Pick) (s : Writing) : Prop :=
  Connection.Uniform F s.writer.schema s.connection

/-- **An event keeps the schemas**, if what is picked of the requests that go out again has that of
the writer: `hres` on a channel for the same descriptor, `hnew` on the channel of a new one. -/
theorem uniform_step (hr : s.connection.Reachable) (hF : F.Shrinks) (h : Uniform F s) {e : Event}
    (hres : Resends F s.writer.schema s.connection)
    (hnew : ∀ d, s.Changes e d → ∀ x ∈ s.connection.resent .drain,
      F (s.connection.reopen .drain).logs (s.connection.generation + 1) x →
        x.request.writerSchema = some ⟨some d⟩) : Uniform F (s.step e) := by
  rcases step_cases s e with ⟨d, hch⟩ | ⟨hdesc, heq | ⟨a, heq, hw⟩⟩
  · rw [hch.2.2]
    exact h.reopen hr.coherent hF (hnew d hch)
  · rw [Uniform, heq, Writer.schema, hdesc]
    exact h
  · rw [Uniform, heq, Writer.schema, hdesc]
    exact h.act hr.coherent hF hres hw

theorem uniform_first_step (hr : s.connection.Reachable) (h : Uniform .first s) (e : Event) :
    Uniform .first (s.step e) :=
  uniform_step hr Pick.first_shrinks h (hr.logged.resends_first hr.coherent)
    fun _ _ => hr.logged.resends_first hr.coherent .drain

/-- Where nothing mixes, nothing goes out again on the channel of a new descriptor. -/
theorem resent_of_not_mixes (hr : s.connection.Reachable) {e : Event} {d : Descriptor.Message}
    (hch : s.Changes e d) (hm : s.mixes e = false) : s.connection.resent .drain = [] := by
  obtain ⟨rfl, hd, -⟩ := hch
  refine List.eq_nil_iff_forall_not_mem.mpr fun x hx => ?_
  obtain ⟨hk, hp, hcar, -⟩ := mem_resent hx
  obtain ⟨ch, hcur, -⟩ := hr.logged.sent_of_resent hr.coherent hx
  have hlost : ch.isUsable = false := by simpa [hcur, Handover.keeps] using hk
  have hsome : s.connection.carried s.connection.generation ≠ [] :=
    List.ne_nil_of_mem hcar
  simp [mixes, hd, hp, hcur, hlost, hsome] at hm

theorem uniform_all_step (hr : s.connection.Reachable) (h : Uniform .all s) {e : Event}
    (hm : s.mixes e = false) : Uniform .all (s.step e) := by
  refine uniform_step hr Pick.all_shrinks h (h.resends hr.coherent hr.logged) fun d hch x hx => ?_
  rw [resent_of_not_mixes hr hch hm] at hx
  exact absurd hx List.not_mem_nil

/-! ## Runs -/

theorem uniform_first_run (hr : s.connection.Reachable) (h : Uniform .first s)
    (es : List Event) : Uniform .first (s.run es) := by
  induction es generalizing s with
  | nil => exact h
  | cons e es ih => exact ih (reachable_step hr e) (uniform_first_step hr h e)

theorem uniform_all_run (hr : s.connection.Reachable) (h : Uniform .all s) {es : List Event}
    (hm : s.unmixed es = true) : Uniform .all (s.run es) := by
  induction es generalizing s with
  | nil => exact h
  | cons e es ih =>
    simp only [unmixed, Bool.and_eq_true, Bool.not_eq_true'] at hm
    exact ih (reachable_step hr e) (uniform_all_step hr h hm.1) hm.2

/-- Without resending nothing mixes. -/
theorem unmixed_of_fail (hr : s.connection.Reachable)
    (hp : s.connection.options.inFlightPolicy = .fail) (es : List Event) :
    s.unmixed es = true := by
  induction es generalizing s with
  | nil => rfl
  | cons e es ih =>
    have hopt : (s.step e).connection.options = s.connection.options := run_options hr [e]
    have hno : s.mixes e = false := by
      cases e with
      | other a => rfl
      | call k =>
        cases k with
        | setDescriptor d => simp [mixes, hp]
        | _ => rfl
    simp only [unmixed, hno, Bool.not_false, Bool.true_and]
    exact ih (reachable_step hr e) (by rw [hopt, hp])

end Writing

namespace Connection

variable {c : Connection} {id : String} {o : Config.ConnectionOptions}

/-- What went out on a channel and on none before it. -/
def sentFirstOn (c : Connection) (g : Nat) (s : Sent) : Prop :=
  s ∈ c.sentOn g ∧ ∀ g' < g, ∀ s' ∈ c.sentOn g', s'.write ≠ s.write

/-- Before anything is sent, every log is empty. -/
theorem uniform_created (h : create id o = .ok c) (F : Pick) (sch : Option Service.WriterSchema) :
    Uniform F sch c := by
  have hnil : ∀ l ∈ c.logs, l.2 = [] := by
    rw [eq_of_create h]
    intro l hl
    have hlogs : ((blank id o).act (.call .connect)).logs = [(1, [])] := by
      show ((blank id o).reopen (.recover none)).logs = [(1, [])]
      rw [reopen_logs, resent, Coherent.closed coherent_blank rfl |> carried_of_queue_nil]
      simp [outgoing, blank, logs, channels]
    rw [hlogs] at hl
    rw [List.mem_singleton.mp hl]
  refine ⟨fun l hl => ⟨none, fun s hs => ?_⟩, fun l hl _ s hs => ?_⟩ <;>
  · rw [hnil l hl] at hs
    exact absurd hs List.not_mem_nil

/-- Logs are found by the generations of their channels. -/
theorem Coherent.sentOn_of_log (hc : Coherent c) {l : Nat × List Sent} (hl : l ∈ c.logs) :
    c.sentOn l.1 = l.2 := by
  obtain ⟨ch, hch, rfl⟩ := List.mem_map.mp hl
  have hsome : (c.channel? ch.generation).isSome := by
    rw [channel?, List.find?_isSome]
    exact ⟨ch, hch, beq_self_eq_true _⟩
  obtain ⟨ch', hch'⟩ := Option.isSome_iff_exists.mp hsome
  obtain ⟨hmem, hgen⟩ := channel?_some hch'
  obtain rfl := hc.eq_of_generation hmem hch hgen
  simp [sentOn, Channel.log, hch']

theorem Coherent.first_of_sentFirstOn (hc : Coherent c) {g : Nat} {s : Sent}
    (h : c.sentFirstOn g s) : Pick.first c.logs g s := by
  intro l hl hlt s' hs'
  rw [← hc.sentOn_of_log hl] at hs'
  exact h.2 l.1 hlt s' hs'

/-- Two picked requests on one channel carry one schema. -/
theorem Uniform.same {F : Pick} {sch : Option Service.WriterSchema} (h : Uniform F sch c)
    {g : Nat} {x y : Sent} (hx : x ∈ c.sentOn g) (hy : y ∈ c.sentOn g) (hFx : F c.logs g x)
    (hFy : F c.logs g y) : x.request.writerSchema = y.request.writerSchema := by
  obtain ⟨l, hl, rfl, heq⟩ := mem_sentOn hx
  rw [heq] at hx hy
  obtain ⟨sch, hsch⟩ := h.each l hl
  rw [hsch x hx hFx, hsch y hy hFy]

/-- **One schema on each channel.** In every run of a writer that alone uses its connection

* the requests that go out first on a channel carry one schema;
* all requests on a channel carry one, also those that go out again, if writes of a lost channel
  fail, or if no descriptor is changed while the channel is unusable and carries unanswered
  writes. -/
theorem one_schema_per_channel (h : create id o = .ok c) (w : Writer) (es : List Writing.Event) :
    let s := Writing.run ⟨w, c⟩ es
    (∀ g x y, s.connection.sentFirstOn g x → s.connection.sentFirstOn g y →
      x.request.writerSchema = y.request.writerSchema) ∧
    (o.inFlightPolicy = .fail ∨ Writing.unmixed ⟨w, c⟩ es = true →
      ∀ g, ∀ x ∈ s.connection.sentOn g, ∀ y ∈ s.connection.sentOn g,
        x.request.writerSchema = y.request.writerSchema) := by
  intro s
  have hr : (Writing.mk w c).connection.Reachable := reachable_created h
  have hc : Coherent s.connection := (Writing.reachable_run hr es).coherent
  refine ⟨fun g x y hx hy => ?_, fun hcond g x hx y hy => ?_⟩
  · have hu := Writing.uniform_first_run hr (uniform_created h _ _) es
    exact hu.same hx.1 hy.1 (hc.first_of_sentFirstOn hx) (hc.first_of_sentFirstOn hy)
  · have hm : Writing.unmixed ⟨w, c⟩ es = true := by
      refine hcond.elim (fun hp => Writing.unmixed_of_fail hr ?_ es) fun hm => hm
      have hopt : c.options = o := options_run h []
      rw [hopt, hp]
    have hu := Writing.uniform_all_run hr (uniform_created h _ _) hm
    exact hu.same hx hy trivial trivial

/-- A writer changes its descriptor after a write of the former went out again, on a channel that is
usable. -/
theorem one_schema_after_resend :
    let c := (blank "s" { inFlightPolicy := .resend }).connect
    let es : List Writing.Event :=
      [.call (.append [[1]] none), .other (.hangUp 1), .call (.append [[2]] none),
        .call (.setDescriptor { name := some "new" }), .call (.append [[3]] none)]
    let s := Writing.run ⟨{ descriptor := { name := some "old" } }, c⟩ es
    (s.connection.sentOn 2).map (·.write) = [0, 1] ∧
      (s.connection.sentOn 3).map (·.request.writerSchema) =
        [some ⟨some { name := some "new" }⟩] ∧
      ∀ g, ∀ x ∈ s.connection.sentOn g, ∀ y ∈ s.connection.sentOn g,
        x.request.writerSchema = y.request.writerSchema := by
  intro c es s
  have hnew : create "s" { inFlightPolicy := .resend } = .ok c := create_eq (by decide)
  obtain ⟨-, hall⟩ := one_schema_per_channel hnew { descriptor := { name := some "old" } } es
  exact ⟨by decide, by decide, hall (.inr (by decide))⟩

/-- A writer changes its descriptor while its channel hangs up on a write: the channel opened for the
new descriptor carries the request of the former too. -/
theorem two_schemas_after_hangUp :
    let c := (blank "s" { inFlightPolicy := .resend }).connect
    let es : List Writing.Event :=
      [.call (.append [[1]] none), .other (.hangUp 1),
        .call (.setDescriptor { name := some "new" }), .call (.append [[2]] none)]
    let s := Writing.run ⟨{ descriptor := { name := some "old" } }, c⟩ es
    create "s" { inFlightPolicy := .resend } = .ok c ∧
      (s.connection.sentOn 2).map (·.request.writerSchema) =
        [some ⟨some { name := some "old" }⟩, some ⟨some { name := some "new" }⟩] :=
  ⟨create_eq (by decide), by decide⟩

end Connection

end Stream

end RowStream
