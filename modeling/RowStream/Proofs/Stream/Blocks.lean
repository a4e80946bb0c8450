import RowStream.Proofs.Stream.Handover

/-!
# The queue in blocks

Nothing sorts the queue, yet it is in the order of the channels (`Ranked`): writes are added with the
latest generation there is, what goes over to a fresh channel was the end of the queue, and all else only
leaves. So what one channel carries is one block (`Block`), after the writes of earlier channels and before
those of later ones. To take its oldest write out, or to fail all of them, touches this block alone.

That blocks belong to one channel each rests on the generations. A channel gets one that is later than all
that were reached before, also by a connection that was closed in between, and keeps it for good
(`Continues`).

* `Ranked.block`: the block of a channel, and what stands on either side.
* `Coherent.run_continues`: channels of a run have generations of their own.
* `queue_sorted_by_channel`: the order of the queue and what is taken from it, in any run.
-/

namespace RowStream.Stream.Connection

variable {c c' c'' : Connection} {g : Nat} {l earlier later : List Queued} {ns : List Nat}

/-! ## Generations are not used again -/

/-- The channels of `c` are those of `c'` too, with their generations. Channels that were opened since have
generations that `c` had not reached. -/
structure Continues (c c' : Connection) : Prop where
  reached : c.generation ≤ c'.generation
  opened : ∃ opened, c'.generations = c.generations ++ opened ∧ ∀ g ∈ opened, c.generation < g

theorem Continues.of_logs (hg : c.generation ≤ c'.generation) (hl : c'.logs = c.logs) :
    Continues c c' :=
  ⟨hg, [], by rw [generations_of_logs hl, List.append_nil], fun _ hg => absurd hg List.not_mem_nil⟩

theorem Continues.trans (h : Continues c c') (h' : Continues c' c'') : Continues c c'' := by
  obtain ⟨gs, heq, hgs⟩ := h.opened
  obtain ⟨gs', heq', hgs'⟩ := h'.opened
  refine ⟨h.reached.trans h'.reached, gs ++ gs', by rw [heq', heq, List.append_assoc], fun g hg => ?_⟩
  rcases List.mem_append.mp hg with hg | hg
  · exact hgs g hg
  · exact h.reached.trans_lt (hgs' g hg)

theorem Move.continues (m : Move c c') : Continues c c' := by
  cases m with
  | quiet q => exact .of_logs q.stays.later q.logs
  | answer g r => exact .of_logs (answer_stays c g r).later (answer_logs c g r)
  | reopen h =>
    refine ⟨by simp, [c.generation + 1], ?_, fun g hg => ?_⟩
    · rw [generations_eq, generations_eq, reopen_logs, List.map_append]
      rfl
    · rw [List.mem_singleton.mp hg]
      exact Nat.lt_succ_self _
  | accept r hc =>
    obtain ⟨ch, hch⟩ := Option.ne_none_iff_exists'.mp hc
    obtain ⟨older, hold, hnew⟩ := accept_logs hch r
    refine ⟨by rw [accept_eq hch], [], ?_, fun _ hg => absurd hg List.not_mem_nil⟩
    simp [generations_eq, hold, hnew]
  | refuse r => exact .of_logs (Nat.le_refl _) rfl

theorem Coherent.act_continues (h : Coherent c) (a : Action) : Continues c (c.act a) :=
  h.act_induct (P := fun c' => Continues c c') a (fun _ hx m => hx.trans m.continues)
    (fun _ _ _ hx => hx.trans (.of_logs (Nat.le_refl _) rfl)) (.of_logs (Nat.le_refl _) rfl)

/-- **Along every run channels keep their generations**, and fresh ones get later ones. -/
theorem Coherent.run_continues (h : Coherent c) (as : List Action) : Continues c (c.run as) := by
  induction as generalizing c with
  | nil => exact .of_logs (Nat.le_refl _) rfl
  | cons a as ih => exact (h.act_continues a).trans (ih (h.act a))

/-! ## Blocks -/

/-- The list has three parts: entries of channels before `g`, those of the writes `ns` that `g` carries, and
entries of channels after `g`. -/
structure Block (l : List Queued) (g : Nat) (earlier : List Queued) (ns : List Nat)
    (later : List Queued) : Prop where
  parts : l = earlier ++ ns.map (Queued.mk g) ++ later
  before : ∀ q ∈ earlier, q.generation < g
  after : ∀ q ∈ later, g < q.generation

/-- **What a channel carries is one block of the queue.** -/
theorem Ranked.block (h : Ranked c) (g : Nat) :
    Block c.queue g (c.queue.filter fun q => q.generation < g) (c.carried g)
      (c.queue.filter fun q => g < q.generation) := by
  refine ⟨?_, fun q hq => by simpa using (List.mem_filter.mp hq).2,
    fun q hq => by simpa using (List.mem_filter.mp hq).2⟩
  have hbefore := filter_append_filter_not (p := fun q : Queued => q.generation < g)
    (h.imp fun {q q'} hle hlt => by simp only [decide_eq_true_eq] at hlt ⊢; omega)
  -- what is left without the earlier channels is split once more
  have hrest := filter_append_filter_not (p := fun q : Queued => q.generation ≤ g)
    ((h.sublist (List.filter_sublist (p := fun q => !decide (q.generation < g)))).imp
      fun {q q'} hle hlt => by simp only [decide_eq_true_eq] at hlt ⊢; omega)
  have hown : ((c.queue.filter fun q => !decide (q.generation < g)).filter
      fun q => q.generation ≤ g) = (c.carried g).map (Queued.mk g) := by
    rw [← filter_eq_map_carried, List.filter_filter]
    refine List.filter_congr fun q _ => Bool.eq_iff_iff.mpr ?_
    simp only [Bool.and_eq_true, decide_eq_true_eq, Bool.not_eq_true', decide_eq_false_iff_not,
      beq_iff_eq]
    omega
  have hafter : ((c.queue.filter fun q => !decide (q.generation < g)).filter
      fun q => !decide (q.generation ≤ g)) = c.queue.filter fun q => g < q.generation := by
    rw [List.filter_filter]
    refine List.filter_congr fun q _ => Bool.eq_iff_iff.mpr ?_
    simp only [Bool.and_eq_true, decide_eq_true_eq, Bool.not_eq_true', decide_eq_false_iff_not]
    omega
  rw [hown, hafter] at hrest
  rw [List.append_assoc, hrest, hbefore]

namespace Block

section

variable (b : Block l g earlier ns later)
include b

theorem ne_of_before {q : Queued} (hq : q ∈ earlier) : (q.generation == g) = false :=
  beq_false_of_ne (b.before q hq).ne

theorem ne_of_after {q : Queued} (hq : q ∈ later) : (q.generation == g) = false :=
  beq_false_of_ne (b.after q hq).ne'

/-- The first entry of the channel is the first of its block. -/
theorem find?_eq : (l.find? fun q => q.generation == g) = ns.head?.map (Queued.mk g) := by
  have hbefore : (earlier.find? fun q => q.generation == g) = none :=
    List.find?_eq_none.mpr fun q hq => by simp [b.ne_of_before hq]
  have hafter : (later.find? fun q => q.generation == g) = none :=
    List.find?_eq_none.mpr fun q hq => by simp [b.ne_of_after hq]
  rw [b.parts, List.find?_append, List.find?_append, hbefore, hafter]
  cases ns <;> simp

/-- Without its first entry the block is shorter, and the rest of the list stays. -/
theorem eraseP_eq : (l.eraseP fun q => q.generation == g) =
    earlier ++ ns.tail.map (Queued.mk g) ++ later := by
  have hafter : (later.eraseP fun q => q.generation == g) = later :=
    List.eraseP_of_forall_not fun q hq => by simp [b.ne_of_after hq]
  rw [b.parts, List.append_assoc,
    List.eraseP_append_right _ fun q hq => by simp [b.ne_of_before hq]]
  cases ns <;> simp [hafter]

/-- The entries of the channel. -/
theorem filter_eq : (l.filter fun q => q.generation == g) = ns.map (Queued.mk g) := by
  have hbefore : (earlier.filter fun q => q.generation == g) = [] :=
    List.filter_eq_nil_iff.mpr fun q hq => by simp [b.ne_of_before hq]
  have hafter : (later.filter fun q => q.generation == g) = [] :=
    List.filter_eq_nil_iff.mpr fun q hq => by simp [b.ne_of_after hq]
  rw [b.parts, List.filter_append, List.filter_append, hbefore, hafter]
  simp

/-- The entries of all other channels. -/
theorem filter_not_eq : (l.filter fun q => !(q.generation == g)) = earlier ++ later := by
  have hbefore : (earlier.filter fun q => !(q.generation == g)) = earlier :=
    List.filter_eq_self.mpr fun q hq => by simp [b.ne_of_before hq]
  have hafter : (later.filter fun q => !(q.generation == g)) = later :=
    List.filter_eq_self.mpr fun q hq => by simp [b.ne_of_after hq]
  rw [b.parts, List.filter_append, List.filter_append, hbefore, hafter]
  simp

end

variable (b : Block c.queue g earlier ns later)
include b

/-- No channel after the current one carries anything. -/
theorem later_eq_nil (hc : Coherent c) (hg : c.generation ≤ g) : later = [] := by
  refine List.eq_nil_iff_forall_not_mem.mpr fun q hq => ?_
  have hle := hc.generation_le (q := q) (b.parts ▸ List.mem_append_right _ hq)
  have hlt := b.after q hq
  omega

/-- **To take the oldest write of a channel out shortens its block by the first entry.** -/
theorem takeOldest_eq : c.takeOldest g = ns.head?.map fun n =>
    (n, { c with queue := earlier ++ ns.tail.map (Queued.mk g) ++ later }) := by
  rw [takeOldest, b.find?_eq, b.eraseP_eq]
  cases ns <;> rfl

/-- **To fail all writes of a channel takes its block out**, and they fail oldest first. -/
theorem failGeneration_eq (e : WriteError) : c.failGeneration g e =
    { c with queue := earlier ++ later }.resolveAll (.error e) ns := by
  rw [failGeneration, failWhere, b.filter_eq, b.filter_not_eq, List.map_map]
  congr 1
  exact List.map_id ns

end Block

/-! ## The order of the queue -/

/-- **The queue is sorted by channel.** In every run

* the generations of the queued writes do not fall, oldest write first, and none is after the current one;
* no generation is that of two channels: they rise from one channel to the next, and channels that are
  opened later have generations that were not reached before;
* what a channel carries is one block of the queue, the last one if the channel is the current one. To
  take the oldest write of a channel out, or to fail all of them, touches its block and leaves all other
  entries in their order;
* when a lost channel is replaced, the writes that it carried are the end of the queue, and there they stay
  in their order with the generation of the channel that they go out on again, or they fail. All other
  replacements leave the queue as it is. -/
theorem queue_sorted_by_channel {id : String} {o : Config.ConnectionOptions}
    (h : create id o = .ok c) (as : List Action) :
    let s := c.run as
    (s.queue.map (·.generation)).Pairwise (· ≤ ·) ∧ (∀ q ∈ s.queue, q.generation ≤ s.generation) ∧
    s.generations.Pairwise (· < ·) ∧ (∀ bs, Continues s (c.run (as ++ bs))) ∧
    (∀ g, ∃ earlier later, Block s.queue g earlier (s.carried g) later ∧
      (s.generation ≤ g → later = []) ∧
      ∀ t : Connection, t.queue = s.queue →
        (t.takeOldest g = (s.carried g).head?.map fun n =>
          (n, { t with queue := earlier ++ (s.carried g).tail.map (Queued.mk g) ++ later })) ∧
        ∀ e, t.failGeneration g e =
          { t with queue := earlier ++ later }.resolveAll (.error e) (s.carried g)) ∧
    ∀ hd : Handover, (s.channel.any hd.keeps = false → HandedOver s [] hd.loss (s.reopen hd)) ∧
      (s.channel.any hd.keeps = true → (s.reopen hd).queue = s.queue) := by
  intro s
  have hcoh : Coherent s := coherent_run h as
  have hr : Ranked s := ranked_run h as
  refine ⟨List.pairwise_map.mpr hr, fun q hq => hcoh.generation_le hq, hcoh.rising, fun bs => ?_,
    fun g => ?_, fun hd => ⟨hcoh.hands_over_reopen (numbered_run h as) hr, fun hk => ?_⟩⟩
  · rw [run_append]
    exact hcoh.run_continues bs
  · obtain ⟨earlier, later, hb⟩ : ∃ earlier later, Block s.queue g earlier (s.carried g) later :=
      ⟨_, _, hr.block g⟩
    refine ⟨earlier, later, hb, hb.later_eq_nil hcoh, fun t ht => ?_⟩
    rw [← ht] at hb
    exact ⟨hb.takeOldest_eq, hb.failGeneration_eq⟩
  · rw [reopen_keeps hk]
    rfl

/-- Three channels carry writes. That of the second stands between those of the others, and when the last
channel is lost its write goes over to a fourth one. -/
theorem sorted_after_reconnects :
    let c := (blank "s" {}).connect
    let as : List Action := [.call (.write {}), .call (.write {}), .call .reconnect, .call (.write {}),
      .call .reconnect, .call (.write {})]
    create "s" {} = .ok c ∧ (c.run as).queue = [⟨1, 0⟩, ⟨1, 1⟩, ⟨2, 2⟩, ⟨3, 3⟩] ∧
      ((c.run as).queue.map (·.generation)).Pairwise (· ≤ ·) ∧
      (∃ earlier later, Block (c.run as).queue 2 earlier [2] later ∧
        (c.run as).takeOldest 2 = some (2, { c.run as with queue := earlier ++ later })) ∧
      ((c.run as).reopen (.recover none)).queue = [⟨1, 0⟩, ⟨1, 1⟩, ⟨2, 2⟩, ⟨4, 3⟩] := by
  intro c as
  have hnew : create "s" {} = .ok c := create_eq (by decide)
  obtain ⟨hsorted, -, -, -, hblocks, hreplaced⟩ := queue_sorted_by_channel hnew as
  obtain ⟨earlier, later, hb, -, htaken⟩ := hblocks 2
  have hcarried : (c.run as).carried 2 = [2] := by decide
  have htake := (htaken (c.run as) rfl).1
  rw [hcarried] at hb htake
  have hlost : (c.run as).channel.any (Handover.recover none).keeps = false := by decide
  have hresend : (c.run as).options.inFlightPolicy = .resend := by decide
  have hafter := (((hreplaced (.recover none)).1 hlost).resend hresend).1.after
  exact ⟨hnew, by decide, hsorted, ⟨earlier, later, hb, by simpa using htake⟩,
    hafter.trans (by decide)⟩

end RowStream.Stream.Connection
