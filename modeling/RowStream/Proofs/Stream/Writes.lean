import RowStream.Proofs.Stream.Outcome

/-!
# The writes of a connection

Writes have numbers, in the order of the calls that handed them back. A write keeps its number and
its request for good, and its first result. The queue holds numbers of writes, each once and in
their order.

* `run_extends`: along every run writes keep their requests and results.
* `returned_eq_range`: the calls of a run hand back the numbers from zero on, one after the other.
* `numbered_run`: in every run the numbers in the queue rise.
-/

namespace RowStream.Stream

open Service (AppendRequest)

theorem PendingWrite.resolve_result_of_none {w : PendingWrite} (h : w.result = none)
    (r : WriteResult) : (w.resolve r).result = some r := by
  simp [resolve, h]

namespace Connection

variable {c c' c'' : Connection} {g : Nat}

/-! ## Writes stay -/

/-- The later connection has all the writes of the earlier one, with their requests and the results
that they had. -/
def Extends (c c' : Connection) : Prop :=
  ∀ (n : Nat) (w : PendingWrite), c.writes[n]? = some w → ∃ w', c'.writes[n]? = some w' ∧
    w'.request = w.request ∧ ∀ r, w.result = some r → w'.result = some r

theorem Extends.of_writes (h : c'.writes = c.writes) : Extends c c' :=
  fun _ w hw => ⟨w, by rw [h, hw], rfl, fun _ hr => hr⟩

theorem Extends.trans (h : Extends c c') (h' : Extends c' c'') : Extends c c'' := by
  intro n w hw
  obtain ⟨w', hw', hreq, hres⟩ := h n w hw
  obtain ⟨w'', hw'', hreq', hres'⟩ := h' n w' hw'
  exact ⟨w'', hw'', hreq'.trans hreq, fun r hr => hres' r (hres r hr)⟩

/-- Changing one write in a way that keeps its request and result. -/
theorem extends_modify {f : PendingWrite → PendingWrite} (n : Nat) (hf : PendingWrite.Keeps f)
    (h : c'.writes = c.writes.modify n f) : Extends c c' := by
  intro m w hw
  rw [h, List.getElem?_modify, hw]
  by_cases hmn : n = m
  · exact ⟨f w, by simp [hmn], hf w⟩
  · exact ⟨w, by simp [hmn], rfl, fun _ hr => hr⟩

theorem extends_resolve (c : Connection) (r : WriteResult) (n : Nat) :
    Extends c (c.resolve r n) :=
  extends_modify n (PendingWrite.keeps_resolve r) rfl

theorem extends_resolveAll (c : Connection) (r : WriteResult) (ns : List Nat) :
    Extends c (c.resolveAll r ns) := by
  induction ns generalizing c with
  | nil => exact .of_writes rfl
  | cons n ns ih => exact (extends_resolve c r n).trans (ih _)

theorem extends_failWhere (c : Connection) (p : Queued → Bool) (e : WriteError) :
    Extends c (c.failWhere p e) :=
  extends_resolveAll { c with queue := c.queue.filter fun q => !p q } _ _

theorem extends_answer (c : Connection) (g : Nat) (r : WriteResult) :
    Extends c (c.answer g r) := by
  cases h : c.carried g with
  | nil => rw [answer_of_nil r h]; exact .of_writes rfl
  | cons n ns =>
    rw [answer_of_cons r h]
    exact Extends.trans (.of_writes rfl) (extends_resolve _ r n)

theorem extends_addWrite (c : Connection) (r : AppendRequest) : Extends c (c.addWrite r) := by
  intro n w hw
  obtain ⟨hlt, -⟩ := List.getElem?_eq_some_iff.mp hw
  refine ⟨w, ?_, rfl, fun _ hr => hr⟩
  rw [addWrite, List.getElem?_append_left hlt, hw]

theorem Quiet.extends (q : Quiet c c') : Extends c c' := by
  cases q with
  | fail g e => exact extends_failWhere c _ e
  | shut e => exact (extends_failWhere c _ e).trans (.of_writes rfl)
  | _ => exact .of_writes rfl

theorem extends_reopen (c : Connection) (h : Handover) : Extends c (c.reopen h) := by
  rcases reopen_cases c h with ⟨-, heq⟩ | ⟨-, -, heq⟩ | ⟨-, -, heq⟩ <;> rw [heq]
  · exact .of_writes rfl
  · exact .of_writes rfl
  · exact extends_failWhere (c.openChannel _) _ _

theorem Move.extends (m : Move c c') : Extends c c' := by
  cases m with
  | quiet q => exact q.extends
  | answer g r => exact extends_answer c g r
  | reopen h => exact extends_reopen c h
  | accept r hc =>
    obtain ⟨ch, hch⟩ := Option.ne_none_iff_exists'.mp hc
    rw [accept_eq hch]
    exact (extends_addWrite c r).trans (.of_writes rfl)
  | refuse r => exact (extends_addWrite c r).trans (extends_resolve _ _ _)

theorem Coherent.act_extends (h : Coherent c) (a : Action) : Extends c (c.act a) :=
  h.act_induct (P := fun c' => Extends c c') a (fun _ hx m => hx.trans m.extends)
    (fun n _ hf hx => hx.trans (extends_modify n hf rfl)) (.of_writes rfl)

/-- **Along every run writes keep their requests and results.** -/
theorem Coherent.run_extends (h : Coherent c) (as : List Action) : Extends c (c.run as) := by
  induction as generalizing c with
  | nil => exact .of_writes rfl
  | cons a as ih => exact (h.act_extends a).trans (ih (h.act a))

/-! ## Writes are numbered -/

@[simp] theorem resolveAll_length (c : Connection) (r : WriteResult) (ns : List Nat) :
    (c.resolveAll r ns).writes.length = c.writes.length := by
  induction ns generalizing c with
  | nil => rfl
  | cons n ns ih =>
    have h := ih (c.resolve r n)
    simp only [resolveAll, List.foldl_cons] at h ⊢
    rw [h]
    exact List.length_modify _ _ _

@[simp] theorem failWhere_length (c : Connection) (p : Queued → Bool) (e : WriteError) :
    (c.failWhere p e).writes.length = c.writes.length := by
  simp [failWhere]

@[simp] theorem answer_length (c : Connection) (g : Nat) (r : WriteResult) :
    (c.answer g r).writes.length = c.writes.length := by
  cases h : c.carried g with
  | nil => rw [answer_of_nil r h]
  | cons n ns =>
    rw [answer_of_cons r h]
    exact List.length_modify _ _ _

@[simp] theorem reopen_length (c : Connection) (h : Handover) :
    (c.reopen h).writes.length = c.writes.length := by
  rcases reopen_cases c h with ⟨-, heq⟩ | ⟨-, -, heq⟩ | ⟨-, -, heq⟩ <;> rw [heq]
  · rfl
  · exact failWhere_length _ _ _

theorem accept_length (hc : c.channel ≠ none) (r : AppendRequest) :
    (c.accept r).writes.length = c.writes.length + 1 := by
  obtain ⟨ch, hch⟩ := Option.ne_none_iff_exists'.mp hc
  rw [accept_eq hch]
  simp

theorem refuse_length (c : Connection) (r : AppendRequest) :
    (c.refuse r).writes.length = c.writes.length + 1 := by
  simp [refuse, resolve, mapWrite, addWrite]

theorem Quiet.length (q : Quiet c c') : c'.writes.length = c.writes.length := by
  cases q with
  | fail g e => exact failWhere_length c _ e
  | shut e => exact failWhere_length c _ e
  | _ => rfl

theorem Quiets.length (q : Quiets c c') : c'.writes.length = c.writes.length := by
  induction q with
  | refl => rfl
  | tail _ q ih => exact q.length.trans ih

/-- A write gets the next number, also when the channel is replaced first. -/
theorem write_number (c : Connection) (r : AppendRequest) : (c.write r).1 = c.writes.length := by
  rcases c.write_cases r with ⟨-, heq⟩ | ⟨c₁, ch, rfl | rfl, -, heq⟩ <;> rw [heq]
  exact reopen_length c _

/-- Only a write makes a new one, and hands it back. -/
theorem Coherent.range_returns (h : Coherent c) (a : Action) :
    List.range c.writes.length ++ (c.returns a).toList = List.range (c.act a).writes.length := by
  have hnew (ha : c.alive = true) (r : AppendRequest) :
      c.returns (.call (.write r)) = some c.writes.length := by
    rw [returns, if_pos ha, write_number]
  have o := h.outcome a
  generalize c.act a = c' at o ⊢
  cases o with
  | quiet hr _ q => simp [hr, q.length]
  | opens => simp [returns]
  | @replace k _ hk => cases k <;> simp_all [returns, Call.replaces]
  | refuse ha => simp [hnew ha, refuse_length, List.range_succ]
  | accept ha hc => simp [hnew ha, accept_length, hc, List.range_succ]
  | recover ha =>
    simp [hnew ha, accept_length (reopen_channel_ne c _), List.range_succ]
  | answer ha q _ q' =>
    have hr : c.returns a = none := by
      cases a with
      | receive | late => rfl
      | _ => exact absurd ha (by simp [answers])
    simp [hr, q'.length, q.length]
  | reject q q' => simp [returns, q'.length, q.length]
  | lose _ _ q => simp [returns, q.length]
  | mark => simp [returns, mapWrite]
  | retry => simp [returns, mapWrite]

/-- **The calls of a run hand back the next numbers, one after the other.** -/
theorem Coherent.range_returned (h : Coherent c) (as : List Action) :
    List.range c.writes.length ++ c.returned as = List.range (c.run as).writes.length := by
  induction as generalizing c with
  | nil => simp [returned]
  | cons a as ih =>
    rw [returned, ← List.append_assoc, h.range_returns a, ih (h.act a)]
    rfl

section Created

variable {id : String} {o : Config.ConnectionOptions}

theorem writes_of_create (h : create id o = .ok c) : c.writes = [] := by
  have hblank : Coherent (blank id o) := coherent_blank
  have hrange := hblank.range_returns (.call .connect)
  rw [← eq_of_create h] at hrange
  have hlen : List.range c.writes.length = [] := hrange.symm
  rw [List.range_eq_nil, List.length_eq_zero_iff] at hlen
  exact hlen

/-- The numbers that a run of a new connection hands back count up from zero. -/
theorem returned_eq_range (h : create id o = .ok c) (as : List Action) :
    c.returned as = List.range (c.run as).writes.length := by
  have hrange := (coherent_created h).range_returned as
  rw [writes_of_create h] at hrange
  exact hrange

end Created

/-! ## The queue is numbered -/

/-- The queue holds numbers of writes, in their order. -/
structure Numbered (c : Connection) : Prop where
  rising : (c.queue.map (·.write)).Pairwise (· < ·)
  known : ∀ q ∈ c.queue, q.write < c.writes.length

/-- Taking entries out of the queue, or giving them to another channel, keeps the numbers. -/
theorem Numbered.of_sublist (h : Numbered c)
    (hs : (c'.queue.map (·.write)).Sublist (c.queue.map (·.write)))
    (hl : c.writes.length ≤ c'.writes.length) : Numbered c' := by
  refine ⟨h.rising.sublist hs, fun q hq => ?_⟩
  obtain ⟨old, hold, heq⟩ := List.mem_map.mp (hs.subset (List.mem_map_of_mem hq))
  have hlt := h.known old hold
  omega

theorem map_write_retag (l : List Queued) (lost next : Nat) :
    (l.map fun q => q.retag lost next).map (·.write) = l.map (·.write) := by
  rw [List.map_map]
  refine List.map_congr_left fun q _ => ?_
  simp only [Function.comp_apply, Queued.retag]
  split <;> rfl

theorem reopen_sublist (c : Connection) (h : Handover) :
    ((c.reopen h).queue.map (·.write)).Sublist (c.queue.map (·.write)) := by
  rcases reopen_cases c h with ⟨-, heq⟩ | ⟨-, -, heq⟩ | ⟨-, -, heq⟩ <;> rw [heq]
  · exact .refl _
  · rw [map_write_retag]
  · rw [failGeneration, failWhere_queue]
    exact List.filter_sublist.map _

theorem Quiet.sublist (q : Quiet c c') : c'.queue.Sublist c.queue := by
  cases q with
  | fail g e => rw [failGeneration, failWhere_queue]; exact List.filter_sublist
  | shut e => rw [shut_queue]; exact List.nil_sublist _
  | _ => exact .refl _

theorem Numbered.move (h : Numbered c) (m : Move c c') : Numbered c' := by
  cases m with
  | quiet q => exact h.of_sublist (q.sublist.map _) (Nat.le_of_eq q.length.symm)
  | answer g r =>
    refine h.of_sublist ?_ (Nat.le_of_eq (answer_length c g r).symm)
    rw [answer_queue]
    exact List.eraseP_sublist.map _
  | reopen hd => exact h.of_sublist (reopen_sublist c hd) (Nat.le_of_eq (reopen_length c hd).symm)
  | accept r hc =>
    obtain ⟨ch, hch⟩ := Option.ne_none_iff_exists'.mp hc
    rw [accept_eq hch]
    refine ⟨?_, ?_⟩
    · rw [List.map_append, List.pairwise_append]
      refine ⟨h.rising, List.pairwise_singleton _ _, ?_⟩
      intro n hn m hm
      obtain ⟨q, hq, rfl⟩ := List.mem_map.mp hn
      rw [List.mem_singleton.mp hm]
      exact h.known q hq
    · intro q hq
      rw [List.length_append, List.length_singleton]
      rcases List.mem_append.mp hq with hq | hq
      · exact Nat.lt_succ_of_lt (h.known q hq)
      · rw [List.mem_singleton.mp hq]
        exact Nat.lt_succ_self _
  | refuse r => exact h.of_sublist (.refl _) (by rw [refuse_length]; omega)

theorem Numbered.act (h : Numbered c) (hc : Coherent c) (a : Action) : Numbered (c.act a) :=
  hc.act_induct a (fun _ hn m => hn.move m)
    (fun _ _ _ hn => hn.of_sublist (.refl _) (Nat.le_of_eq (List.length_modify _ _ _).symm)) h

theorem numbered_blank {id : String} {o : Config.ConnectionOptions} : Numbered (blank id o) :=
  ⟨.nil, fun _ hq => absurd hq List.not_mem_nil⟩

/-- **In every run of a new connection the numbers in the queue rise.** -/
theorem numbered_run {id : String} {o : Config.ConnectionOptions} (h : create id o = .ok c)
    (as : List Action) : Numbered (c.run as) :=
  run_induct h (fun a _ _ hc hn => hn.act hc a) numbered_blank

/-- What a channel carries is in the order of the numbers. -/
theorem Numbered.carried_rising (h : Numbered c) (g : Nat) : (c.carried g).Pairwise (· < ·) :=
  h.rising.sublist (List.filter_sublist.map _)

theorem Numbered.carried_known (h : Numbered c) : ∀ n ∈ c.carried g, n < c.writes.length :=
  fun _ hn => h.known _ (mem_carried.mp hn)

end Connection

end RowStream.Stream
