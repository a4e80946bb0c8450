import RowStream.Proofs.Stream.Isolation

/-!
# A lost channel hands its writes over

A channel is lost when it is not usable any more, or when it failed with a transient error. Four things
replace a lost channel: the failure itself, and a call that opens, reconnects or writes (`Loses`). What
becomes of its writes is up to the options (`HandedOver`): they go out first on the fresh channel, which
carries them from then on, or they fail and nothing goes out again.

Whichever it is, the writes of the channels replaced before stay where they are. The queue is in the
order of the channels (`Ranked`), so what the current one carries is its end (`Ranked.queue_eq`), and only
this end is touched.

* `ranked_run`: the queue is in the order of the channels, in every run.
* `attached_run`: a queued write that went out on the current channel is carried by it.
* `Coherent.hands_over_reopen`: what the replacement of a lost channel comes to.
* `lost_channel_hands_over`: every action that replaces a lost channel, in every run.
-/

namespace RowStream.Stream

open Service (AppendRequest CallError Failure)

namespace Connection

variable {c c' c₁ : Connection} {ch : Channel} {g : Nat}

/-! ## The queue is in the order of the channels -/

/-- The writes of earlier channels stand before those of later ones. -/
def Ranked (c : Connection) : Prop :=
  c.queue.Pairwise fun q q' => q.generation ≤ q'.generation

theorem Ranked.of_sublist (h : Ranked c) (hs : c'.queue.Sublist c.queue) : Ranked c' :=
  List.Pairwise.sublist hs h

theorem Coherent.generation_le (h : Coherent c) {q : Queued} (hq : q ∈ c.queue) :
    q.generation ≤ c.generation := by
  by_contra hgt
  exact carried_eq_nil.mp (h.carried_of_gt (Nat.lt_of_not_le hgt)) q hq rfl

theorem retag_generation (q : Queued) (lost next : Nat) :
    (q.retag lost next).generation = if q.generation = lost then next else q.generation := by
  unfold Queued.retag
  split <;> rfl

theorem Ranked.reopen (h : Ranked c) (hc : Coherent c) (hd : Handover) : Ranked (c.reopen hd) := by
  rcases reopen_cases c hd with ⟨-, heq⟩ | ⟨-, -, heq⟩ | ⟨-, -, heq⟩ <;> rw [heq]
  · exact h
  · -- what goes over to the next channel stood behind all the others
    refine List.pairwise_map.mpr (h.imp_of_mem fun {q q'} hq hq' hle => ?_)
    have hbound := hc.generation_le hq'
    rw [retag_generation, retag_generation]
    split <;> split <;> omega
  · refine h.of_sublist ?_
    rw [failGeneration, failWhere_queue]
    exact List.filter_sublist

theorem Ranked.accept (h : Ranked c) (hc : Coherent c) (ho : c.channel ≠ none) (r : AppendRequest) :
    Ranked (c.accept r) := by
  obtain ⟨ch, hch⟩ := Option.ne_none_iff_exists'.mp ho
  rw [accept_eq hch]
  refine List.pairwise_append.mpr ⟨h, List.pairwise_singleton _ _, fun q hq q' hq' => ?_⟩
  rw [List.mem_singleton.mp hq']
  exact hc.generation_le hq

theorem Ranked.move (h : Ranked c) (hc : Coherent c) (m : Move c c') : Ranked c' := by
  cases m with
  | quiet q => exact h.of_sublist q.sublist
  | answer g r =>
    refine h.of_sublist ?_
    rw [answer_queue]
    exact List.eraseP_sublist
  | reopen hd => exact h.reopen hc hd
  | accept r ho => exact h.accept hc ho r
  | refuse r => exact h

/-- **In every run the queue is in the order of the channels.** -/
theorem ranked_run {id : String} {o : Config.ConnectionOptions} (h : create id o = .ok c)
    (as : List Action) : Ranked (c.run as) :=
  run_induct (P := Ranked) h
    (fun a _ _ hc hr => hc.act_induct a (fun hc hr m => hr.move hc m) (fun _ _ _ hr => hr) hr) .nil

/-- The entries of the channels before the current one. -/
def earlier (c : Connection) : List Queued := c.queue.filter fun q => q.generation != c.generation

/-- Where all that passes stands before all that does not, the two parts are the list. -/
theorem filter_append_filter_not {α : Type} {p : α → Bool} {l : List α}
    (h : l.Pairwise fun a b => p b = true → p a = true) :
    l.filter p ++ l.filter (fun a => !p a) = l := by
  induction l with
  | nil => rfl
  | cons a l ih =>
    obtain ⟨ha, hl⟩ := List.pairwise_cons.mp h
    cases hp : p a with
    | true =>
      rw [List.filter_cons_of_pos hp, List.filter_cons_of_neg (by simp [hp]), List.cons_append, ih hl]
    | false =>
      -- nothing passes after the first that does not
      have hall : ∀ b ∈ a :: l, p b = false := List.forall_mem_cons.mpr
        ⟨hp, fun b hb => Bool.eq_false_iff.mpr fun hpb => by simp [ha b hb hpb] at hp⟩
      rw [List.filter_eq_nil_iff.mpr fun b hb => by simp [hall b hb],
        List.filter_eq_self.mpr fun b hb => by simp [hall b hb], List.nil_append]

theorem filter_append_of_ranked {l : List Queued}
    (h : l.Pairwise fun q q' => q.generation ≤ q'.generation) (hle : ∀ q ∈ l, q.generation ≤ g) :
    (l.filter fun q => q.generation != g) ++ (l.filter fun q => q.generation == g) = l := by
  have hparts := filter_append_filter_not (p := fun q : Queued => q.generation != g) (l := l)
    (h.imp_of_mem fun {q q'} _ hq' hqq' hne => by
      have hlast := hle q' hq'
      simp only [bne_iff_ne] at hne ⊢
      omega)
  simpa only [bne, Bool.not_not] using hparts

theorem filter_eq_map_carried (c : Connection) (g : Nat) :
    (c.queue.filter fun q => q.generation == g) = (c.carried g).map fun n => ⟨g, n⟩ := by
  rw [carried, List.map_map]
  refine (List.map_id _).symm.trans (List.map_congr_left fun q hq => ?_)
  have hgen : q.generation = g := by simpa using (List.mem_filter.mp hq).2
  simp [← hgen]

/-- **What the current channel carries is the end of the queue.** -/
theorem Ranked.queue_eq (h : Ranked c) (hc : Coherent c) :
    c.queue = c.earlier ++ (c.carried c.generation).map fun n => ⟨c.generation, n⟩ := by
  rw [← filter_eq_map_carried]
  exact (filter_append_of_ranked h fun _ hq => hc.generation_le hq).symm

/-! ## Writes that went out on the current channel -/

/-- A queued write that went out on the current channel is carried by it. -/
def Attached (c : Connection) : Prop :=
  ∀ ch, c.channel = some ch → ∀ s ∈ ch.sent, ∀ q ∈ c.queue, q.write = s.write →
    q.generation = c.generation

/-- The current channel and what went out on it stay, or there is none any more. -/
theorem Quiet.sent (q : Quiet c c') (hch : c'.channel = some ch) :
    c'.generation = c.generation ∧ ∃ old, c.channel = some old ∧ ch.sent = old.sent := by
  have hmap {f : Channel → Channel} (hch : c.channel.map f = some ch)
      (hf : ∀ x, (f x).sent = x.sent) : ∃ old, c.channel = some old ∧ ch.sent = old.sent := by
    obtain ⟨old, hold, rfl⟩ := Option.map_eq_some_iff.mp hch
    exact ⟨old, hold, hf old⟩
  cases q with
  | publish e => exact ⟨rfl, ch, hch, rfl⟩
  | learn s => exact ⟨rfl, ch, hch, rfl⟩
  | fail g e =>
    rw [failGeneration, failWhere_channel] at hch
    exact ⟨failWhere_generation c _ e, ch, hch, rfl⟩
  | shut e => exact absurd hch (by simp)
  | bump hnone => exact absurd (hnone.symm.trans hch) (by simp)
  | letGo hnone => exact absurd (hnone.symm.trans hch) (by simp)
  | tearDown => exact ⟨rfl, hmap hch fun _ => rfl⟩
  | hangUp g =>
    refine ⟨rfl, hmap hch fun x => ?_⟩
    split <;> rfl
  | meet g i on =>
    refine ⟨rfl, hmap hch fun x => ?_⟩
    split <;> simp

theorem Attached.reopen (hn : Numbered c) (hd : Handover) : Attached (c.reopen hd) := by
  intro ch hch s hs q hq hw
  obtain rfl := Option.some.inj ((reopen_channels c hd).1.symm.trans hch)
  obtain ⟨hk, hp, hcar, -⟩ := mem_resent hs
  rw [reopen_resends hk hp] at hq ⊢
  obtain ⟨old, hold, rfl⟩ := List.mem_map.mp hq
  -- the write has one entry, which is the one that the lost channel carried
  have hnodup : (c.queue.map (·.write)).Nodup := hn.rising.imp Nat.ne_of_lt
  have hsame : old.write = s.write := by
    rw [← hw, Queued.retag]
    split <;> rfl
  obtain rfl : old = ⟨c.generation, s.write⟩ :=
    List.inj_on_of_nodup_map hnodup hold (mem_carried.mp hcar) hsame
  rw [Queued.retag, if_pos rfl]

theorem Attached.accept (h : Attached c) (hn : Numbered c) (ho : c.channel ≠ none) (r : AppendRequest) :
    Attached (c.accept r) := by
  obtain ⟨ch, hch⟩ := Option.ne_none_iff_exists'.mp ho
  rw [accept_eq hch]
  intro ch' hch' s hs q hq hw
  obtain rfl := Option.some.inj hch'
  rcases List.mem_append.mp hq with hq | hq
  · rcases List.mem_append.mp hs with hs | hs
    · exact h ch hch s hs q hq hw
    · have hlt := hn.known q hq
      rw [hw, List.mem_singleton.mp hs] at hlt
      exact absurd hlt (Nat.lt_irrefl _)
  · rw [List.mem_singleton.mp hq]

theorem Attached.move (h : Attached c) (hn : Numbered c) (m : Move c c') : Attached c' := by
  cases m with
  | quiet q =>
    intro ch hch s hs x hx hw
    obtain ⟨hgen, old, hold, hsent⟩ := q.sent hch
    rw [hgen]
    exact h old hold s (hsent ▸ hs) x (q.sublist.subset hx) hw
  | answer g r =>
    intro ch hch s hs q hq hw
    rw [answer_channel] at hch
    rw [answer_queue] at hq
    rw [answer_generation]
    exact h ch hch s hs q (List.mem_of_mem_eraseP hq) hw
  | reopen hd => exact .reopen hn hd
  | accept r ho => exact h.accept hn ho r
  | refuse r => exact h

theorem Attached.act (h : Attached c) (hc : Coherent c) (hn : Numbered c) (a : Action) :
    Attached (c.act a) := by
  have hboth := hc.act_induct (P := fun c => Numbered c ∧ Attached c) a
    (fun _ hna m => ⟨hna.1.move m, hna.2.move hna.1 m⟩)
    (fun n f _ hna => ⟨hna.1.of_sublist (.refl _) (Nat.le_of_eq (List.length_modify _ _ _).symm),
      hna.2⟩) ⟨hn, h⟩
  exact hboth.2

/-- **In every run the current channel carries what went out on it and is queued.** -/
theorem attached_run {id : String} {o : Config.ConnectionOptions} (h : create id o = .ok c)
    (as : List Action) : Attached (c.run as) := by
  have hboth : Numbered (c.run as) ∧ Attached (c.run as) :=
    run_induct (P := fun c => Numbered c ∧ Attached c) h
      (fun a _ _ hc hna => ⟨hna.1.act hc a, hna.2.act hc hna.1 a⟩)
      ⟨numbered_blank, fun _ hch => absurd hch (by simp [blank])⟩
  exact hboth.2

/-- **The current channel carries what went out on it and has no result**, where only the connection
gives results. -/
theorem Attached.carried_eq (h : Attached c) (hc : Coherent c) (hn : Numbered c) (hl : Logged c)
    (hs : Settled c c.Waits) (hch : c.channel = some ch) :
    c.carried c.generation = (ch.sent.map (·.write)).filter c.isUnresolved := by
  have hlog : ch.log ∈ c.logs := List.mem_map_of_mem (mem_channels.mpr (.inr hch))
  refine (hn.carried_rising _).eq_of_mem_iff ((hl.rising _ hlog).sublist List.filter_sublist)
    fun n => ?_
  rw [List.mem_filter, ← hs.waits_iff n]
  constructor
  · intro hcar
    have hq := mem_carried.mp hcar
    obtain ⟨l, hl', hgen, hmem⟩ := hl.carried _ hq
    obtain ⟨old, hold, rfl⟩ := List.mem_map.mp hl'
    obtain rfl : old = ch := hc.eq_of_generation hold (mem_channels.mpr (.inr hch))
      (hgen.trans (hc.current ch hch).symm)
    exact ⟨hmem, List.mem_map_of_mem hq⟩
  · rintro ⟨hsent, hwaits⟩
    obtain ⟨s, hs, rfl⟩ := List.mem_map.mp hsent
    obtain ⟨q, hq, hw⟩ := List.mem_map.mp hwaits
    rw [mem_carried, ← h ch hch s hs q hq hw, ← hw]
    exact hq

/-! ## What becomes of the writes -/

/-- The writes `ns` got the result, in this order, unless they had one. No other write changed. -/
structure Gives (c : Connection) (ns : List Nat) (r : WriteResult) (c' : Connection) : Prop where
  results : c'.results = c.results ++ ns.map fun n => (n, r)
  resolved : ∀ n ∈ ns, c'.result? n = some ((c.result? n).getD r)
  others : ∀ n ∉ ns, n < c.writes.length → c'.writes[n]? = c.writes[n]?

/-- A fresh channel took the place of the current one. The requests of the writes `again` went out first on
it, then those of the writes `own`, and nothing went out on any other. In the queue these writes stand
behind those of earlier channels, where what the replaced channel carried stood before. -/
structure Replaced (c : Connection) (again own : List Nat) (c' : Connection) : Prop where
  generation : c'.generation = c.generation + 1
  fresh : ∃ next, c'.channel = some next ∧ next.generation = c.generation + 1 ∧
    next.sent.map (·.write) = again ++ own ∧
    ∀ x ∈ next.sent, (c'.writes[x.write]?).map (·.request) = some x.request
  logs : c'.past.map Channel.log = c.logs
  before : c.queue = c.earlier ++ (c.carried c.generation).map fun n => ⟨c.generation, n⟩
  after : c'.queue = c.earlier ++ (again ++ own).map fun n => ⟨c.generation + 1, n⟩

/-- What the options make of the writes of a lost channel: they go out again, before the writes `own`, and
none gets a result, or they fail and do not go out again. -/
structure HandedOver (c : Connection) (own : List Nat) (e : WriteError) (c' : Connection) : Prop where
  resend : c.options.inFlightPolicy = .resend →
    Replaced c (c.carried c.generation) own c' ∧ Gives c [] (.error e) c'
  fail : c.options.inFlightPolicy = .fail →
    Replaced c [] own c' ∧ Gives c (c.carried c.generation) (.error e) c'

/-- The action replaces the channel, which is lost: a call finds it unusable, or it fails with a transient
error. Where the writes that it carried fail, it is with the error `e`. -/
inductive Loses (c : Connection) (ch : Channel) : Action → WriteError → Prop
  | connect (hu : ch.isUsable = false) : Loses c ch (.call .connect) .connectionClosed
  | reconnect (hu : ch.isUsable = false) : Loses c ch (.call .reconnect) .connectionClosed
  | setDescriptor (hu : ch.isUsable = false) {w : Writer} {d : Descriptor.Message}
      (hd : d ≠ w.descriptor) : Loses c ch (.call (.setDescriptor w d)) .connectionClosed
  | write (hu : ch.isUsable = false) (r : AppendRequest) :
      Loses c ch (.call (.write r)) .connectionClosed
  | failure {e : CallError} (hm : c.meets ch.generation (.failure e) = true)
      (ht : (Failure.ofCall e).isTransient = true) :
      Loses c ch (.receive ch.generation (.failure e)) (.transient (Failure.ofCall e))

theorem Gives.of_same (hw : c'.writes = c.writes) (hg : c'.given = c.given) (r : WriteResult) :
    Gives c [] r c' :=
  ⟨by simp [Connection.results, hg], fun _ hn => absurd hn List.not_mem_nil, fun n _ _ => by rw [hw]⟩

theorem Gives.congr {ns : List Nat} {r : WriteResult} (h : Gives c ns r c₁)
    (hw : c'.writes = c₁.writes) (hg : c'.given = c₁.given) : Gives c ns r c' :=
  ⟨by rw [← h.results, Connection.results, hg, ← Connection.results],
    by simpa only [result?, hw] using h.resolved, by simpa only [hw] using h.others⟩

/-- What resolving writes comes to. -/
theorem gives_resolveAll {ns : List Nat} (hknown : ∀ n ∈ ns, n < c.writes.length) (r : WriteResult) :
    Gives c ns r (c.resolveAll r ns) := by
  refine ⟨results_resolveAll c r ns, fun n hn => ?_, fun n hn _ => ?_⟩
  · obtain ⟨w, hw⟩ : ∃ w, c.writes[n]? = some w := ⟨_, List.getElem?_eq_getElem (hknown n hn)⟩
    rw [result?, getElem?_resolveAll, if_pos hn, result?, hw, Option.map_some, Option.bind_some,
      Option.bind_some, PendingWrite.resolve_result]
  · rw [getElem?_resolveAll, if_neg hn]

theorem gives_failWhere (hn : Numbered c) (p : Queued → Bool) (e : WriteError) :
    Gives c ((c.queue.filter p).map (·.write)) (.error e) (c.failWhere p e) := by
  have hknown : ∀ n ∈ (c.queue.filter p).map (·.write), n < c.writes.length := by
    intro n hmem
    obtain ⟨q, hq, rfl⟩ := List.mem_map.mp hmem
    exact hn.known q (List.mem_of_mem_filter hq)
  have hgives := gives_resolveAll (c := { c with queue := c.queue.filter fun q => !p q }) hknown
    (.error e)
  exact ⟨hgives.results, hgives.resolved, hgives.others⟩

/-! ## The replacement of a lost channel -/

/-- What the current channel carries goes over to the next one, and the rest of the queue stays. -/
theorem Ranked.map_retag (h : Ranked c) (hc : Coherent c) (next : Nat) :
    (c.queue.map fun q => q.retag c.generation next) =
      c.earlier ++ (c.carried c.generation).map fun n => ⟨next, n⟩ := by
  have hearlier : (c.earlier.map fun q => q.retag c.generation next) = c.earlier := by
    refine (List.map_congr_left fun q hq => ?_).trans (List.map_id _)
    have hne : q.generation ≠ c.generation := by simpa using (List.mem_filter.mp hq).2
    rw [Queued.retag, if_neg hne, id]
  conv => lhs; rw [h.queue_eq hc]
  rw [List.map_append, hearlier, List.map_map]
  congr 1
  refine List.map_congr_left fun n _ => ?_
  rw [Function.comp_apply, Queued.retag, if_pos rfl]

/-- **A lost channel is replaced.** -/
theorem Coherent.hands_over_reopen (h : Coherent c) (hn : Numbered c) (hr : Ranked c) {hd : Handover}
    (hk : c.channel.any hd.keeps = false) : HandedOver c [] hd.loss (c.reopen hd) := by
  have hbefore := hr.queue_eq h
  have hpast : (c.reopen hd).past.map Channel.log = c.logs := by
    have hlogs := reopen_logs c hd
    rw [logs_eq, (reopen_channels c hd).1] at hlogs
    exact List.append_cancel_right hlogs
  constructor
  case resend =>
    intro hp
    have hsent := hn.map_write_resent hk hp
    refine ⟨⟨reopen_generation c hd, ⟨_, (reopen_channels c hd).1, rfl, ?_, fun x hx => ?_⟩, hpast,
      hbefore, ?_⟩, ?_⟩
    · rw [hsent, List.append_nil]
    · rw [reopen_resends hk hp]
      exact (mem_resent hx).2.2.2
    · rw [reopen_resends hk hp, List.append_nil]
      exact hr.map_retag h _
    · rw [reopen_resends hk hp]
      refine .of_same ?_ ?_ _ <;> rfl
  case fail =>
    intro hp
    have hnone : c.resent hd = [] := if_neg (by simp [hp])
    refine ⟨⟨reopen_generation c hd, ⟨_, (reopen_channels c hd).1, rfl, ?_, fun x hx => ?_⟩, hpast,
      hbefore, ?_⟩, ?_⟩
    · rw [hnone]
      rfl
    · rw [hnone] at hx
      exact absurd hx List.not_mem_nil
    · rw [reopen_fails hk hp, failGeneration, failWhere_queue]
      exact (List.append_nil _).symm
    · rw [reopen_fails hk hp]
      have hgives := gives_failWhere (c := c.openChannel
        (c.past ++ c.channel.toList.map Channel.shutdown)) ⟨hn.rising, hn.known⟩
        (fun q => q.generation == c.generation) hd.loss
      exact ⟨hgives.results, hgives.resolved, hgives.others⟩

/-- A new write goes out after those of the lost channel. -/
theorem Replaced.accept {again : List Nat} (h : Replaced c again [] c₁) (r : AppendRequest) :
    Replaced c again [c₁.writes.length] (c₁.accept r) := by
  obtain ⟨next, hch, hgen, hsent, hrequests⟩ := h.fresh
  have hkeeps : Extends c₁ (c₁.accept r) := Move.extends (.accept r (by simp [hch]))
  rw [accept_eq hch] at hkeeps ⊢
  refine ⟨h.generation, ⟨_, rfl, hgen, ?_, fun x hx => ?_⟩, h.logs, h.before, ?_⟩
  · rw [Channel.send, List.map_append, hsent, List.append_nil]
    rfl
  · rcases List.mem_append.mp hx with hx | hx
    · exact hkeeps.request (hrequests x hx)
    · rw [List.mem_singleton.mp hx]
      simp
  · rw [h.after, h.generation, List.append_nil, List.map_append, List.append_assoc]
    rfl

theorem Gives.accept {ns : List Nat} {e : WriteResult} (h : Gives c ns e c₁)
    (hl : c₁.writes.length = c.writes.length) (hknown : ∀ n ∈ ns, n < c.writes.length)
    (ho : c₁.channel = some ch) (r : AppendRequest) : Gives c ns e (c₁.accept r) := by
  have hold (n : Nat) (hn : n < c.writes.length) : (c₁.accept r).writes[n]? = c₁.writes[n]? := by
    rw [accept_eq ho]
    exact List.getElem?_append_left (hl ▸ hn)
  refine ⟨?_, fun n hn => ?_, fun n hn hlt => (hold n hlt).trans (h.others n hn hlt)⟩
  · rw [← h.results, accept_eq ho]
    rfl
  · rw [result?, hold n (hknown n hn)]
    exact h.resolved n hn

theorem HandedOver.accept {e : WriteError} (h : HandedOver c [] e c₁) (hn : Numbered c)
    (hl : c₁.writes.length = c.writes.length) (ho : c₁.channel = some ch) (r : AppendRequest) :
    HandedOver c [c.writes.length] e (c₁.accept r) := by
  constructor
  case resend =>
    intro hp
    obtain ⟨hreplaced, hgives⟩ := h.resend hp
    exact ⟨hl ▸ hreplaced.accept r,
      hgives.accept hl (fun n hmem => absurd hmem List.not_mem_nil) ho r⟩
  case fail =>
    intro hp
    obtain ⟨hreplaced, hgives⟩ := h.fail hp
    exact ⟨hl ▸ hreplaced.accept r, hgives.accept hl hn.carried_known ho r⟩

/-- That a reader of an earlier channel stops concerns no write. -/
theorem HandedOver.of_past {own : List Nat} {e : WriteError} {past : List Channel}
    (h : HandedOver c own e c₁) (hp : past.map Channel.log = c₁.past.map Channel.log) :
    HandedOver c own e { c₁ with past := past } := by
  have hreplaced {again : List Nat} (hr : Replaced c again own c₁) :
      Replaced c again own { c₁ with past := past } :=
    ⟨hr.generation, hr.fresh, hp.trans hr.logs, hr.before, hr.after⟩
  exact ⟨fun hp => ⟨hreplaced (h.resend hp).1, (h.resend hp).2.congr rfl rfl⟩,
    fun hp => ⟨hreplaced (h.fail hp).1, (h.fail hp).2.congr rfl rfl⟩⟩

/-! ## The actions that replace a lost channel -/

/-- A failure of the current channel with a transient error replaces it. -/
theorem handle_transient {e : CallError} (ht : (Failure.ofCall e).isTransient = true) :
    c.handle c.generation (.failure e) = c.reopen (.recover (some (Failure.ofCall e))) := by
  have hs : (Failure.ofCall e).isSchemaMismatch = false := by
    cases hcode : (Failure.ofCall e).code <;>
      simp_all [Failure.isTransient, Failure.isSchemaMismatch, Service.Code.isTransient]
  simp [handle, onItem, onFailure, hs, ht]

/-- **An action that replaces a lost channel hands its writes over.** -/
theorem Coherent.hands_over (h : Coherent c) (hn : Numbered c) (hr : Ranked c)
    (hch : c.channel = some ch) {a : Action} {e : WriteError} (ha : Loses c ch a e) :
    HandedOver c (c.returns a).toList e (c.act a) := by
  have hal : c.alive = true := by
    cases hal : c.alive with
    | true => rfl
    | false => exact absurd ((h.held hal).symm.trans hch) (by simp)
  have hcall (k : Call) : c.act (.call k) = c.call k := if_pos hal
  have hrecover (cause : Option Failure) : c.channel.any (Handover.recover cause).keeps = false := by
    rw [hch]
    rfl
  have hdrain (hu : ch.isUsable = false) : c.channel.any Handover.drain.keeps = false := by
    rw [hch]
    exact hu
  cases ha with
  | connect hu =>
    have hopen : c.isOpen = false := by rw [isOpen, hch]; exact hu
    rw [hcall, call, connect, if_neg (by simp [hopen])]
    exact h.hands_over_reopen hn hr (hrecover none)
  | reconnect hu =>
    rw [hcall]
    exact h.hands_over_reopen hn hr (hdrain hu)
  | setDescriptor hu hd =>
    rw [hcall, call, Writer.setDescriptor, if_neg hd]
    exact h.hands_over_reopen hn hr (hdrain hu)
  | write hu r =>
    have hnumber : c.returns (.call (.write r)) = some c.writes.length := by
      rw [returns, if_pos hal, write_number]
    rw [hcall, call, write_of_unusable hch hu, hnumber]
    exact (h.hands_over_reopen hn hr (hrecover none)).accept hn (reopen_length c _)
      (reopen_channels c _).1 r
  | failure hm ht =>
    rename_i e
    have hgen := h.current ch hch
    have hcoh := h.reopen hal (.recover (some (Failure.ofCall e)))
    have hne : (c.reopen (.recover (some (Failure.ofCall e)))).generation ≠ ch.generation := by
      rw [reopen_generation]
      omega
    rw [Connection.act, receive_of_meets hm, hgen, handle_transient ht, ← hgen,
      hcoh.mapChannel_replaced hne]
    refine (h.hands_over_reopen hn hr (hrecover (some (Failure.ofCall e)))).of_past ?_
    refine Channel.map_log (fun x => ?_) _
    split
    · simp [Channel.log]
    · rfl

/-- **A lost channel hands its writes over.** Whatever action replaces a channel that is not usable, or that
has just failed with a transient error, in any run,

* if the options ask for it, the requests of the writes that the lost channel carried go out first on the
  fresh channel, oldest first, and before the write of the call itself; they are carried by it, and no write
  gets a result;
* if they do not, just these writes fail, with the transient error or because the connection is closed, and
  nothing goes out again;
* in the queue the writes of the channels replaced before stay in front, where they were;
* where only the connection gives results, what the lost channel carried are the writes that went out on it
  and have no result, and everything queued has none. -/
theorem lost_channel_hands_over {id : String} {o : Config.ConnectionOptions} (h : create id o = .ok c)
    (as : List Action) (hch : (c.run as).channel = some ch) {a : Action} {e : WriteError}
    (ha : Loses (c.run as) ch a e) :
    let s := c.run as
    let s' := c.run (as ++ [a])
    (o.inFlightPolicy = .resend → Replaced s (s.carried s.generation) (s.returns a).toList s' ∧
      Gives s [] (.error e) s') ∧
    (o.inFlightPolicy = .fail → Replaced s [] (s.returns a).toList s' ∧
      Gives s (s.carried s.generation) (.error e) s') ∧
    ((∀ b ∈ as, b.isOwn = true) →
      s.carried s.generation = (ch.sent.map (·.write)).filter s.isUnresolved ∧
      (∀ q ∈ s.queue, s.isUnresolved q.write = true) ∧
      ∀ q ∈ s'.queue, s'.isUnresolved q.write = true) := by
  have hcoh := coherent_run h as
  have hnum := numbered_run h as
  have hover := hcoh.hands_over hnum (ranked_run h as) hch ha
  have hopts := options_run h as
  simp only [run_concat]
  refine ⟨fun hp => hover.resend (hopts ▸ hp), fun hp => hover.fail (hopts ▸ hp), fun hown => ?_⟩
  have hset := settled_run h hown
  have hown' : ∀ b ∈ as ++ [a], b.isOwn = true := by
    refine List.forall_mem_append.mpr ⟨hown, fun b hb => ?_⟩
    rw [List.mem_singleton.mp hb]
    cases ha <;> rfl
  have hset' := settled_run h hown'
  rw [run_concat] at hset'
  exact ⟨(attached_run h as).carried_eq hcoh hnum (logged_run h as) hset hch,
    fun q hq => (hset.waits_iff _).mp (List.mem_map_of_mem hq),
    fun q hq => (hset'.waits_iff _).mp (List.mem_map_of_mem hq)⟩

/-- Two writes of a channel that hung up go out again before the write that found it unusable; the write of
the channel replaced before waits on in front of them. -/
theorem handed_over_after_hangUp :
    let o : Config.ConnectionOptions := { inFlightPolicy := .resend }
    let c := (blank "s" o).connect
    let as : List Action := [.call (.write {}), .call .reconnect, .call (.write {}), .call (.write {}),
      .hangUp 2]
    let a : Action := .call (.write {})
    create "s" o = .ok c ∧
      (∃ next, (c.run (as ++ [a])).channel = some next ∧ next.sent.map (·.write) = [1, 2, 3]) ∧
      (c.run (as ++ [a])).queue = [⟨1, 0⟩, ⟨3, 1⟩, ⟨3, 2⟩, ⟨3, 3⟩] := by
  intro o c as a
  have hnew : create "s" o = .ok c := create_eq (by decide)
  obtain ⟨ch, hch⟩ : ∃ ch, (c.run as).channel = some ch := ⟨_, rfl⟩
  have hopen : (c.run as).isOpen = false := by decide
  rw [isOpen, hch] at hopen
  obtain ⟨hresend, -, -⟩ := lost_channel_hands_over hnew as hch (.write hopen {})
  obtain ⟨hreplaced, -⟩ := hresend rfl
  obtain ⟨next, hnext, -, hsent, -⟩ := hreplaced.fresh
  exact ⟨hnew, ⟨next, hnext, hsent.trans (by decide)⟩, hreplaced.after.trans (by decide)⟩

end Connection

end RowStream.Stream
