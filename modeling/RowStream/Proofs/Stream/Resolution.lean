import Mathlib.Data.List.Induction
import Mathlib.Data.List.Sort
import RowStream.Proofs.Stream.Writes

/-!
# Every write is resolved once

While nobody else gives results to the writes of a connection, the queue and the results are in
step (`Settled`): a write has no result exactly while its number is in the queue. So the pending
writes are those without a result, and every result that the connection gives is the first one.

The ways out of the queue are the oldest write of a channel, all of a channel and all of the queue.
Each takes numbers out and resolves just these (`Settled.resolve`, `Settled.resolveAll`).

* `settled_run`: queue and results are in step in every run.
* `pending_exactly_unresolved`: the pending writes are those that were handed back and have no
  result, and no result is given twice.
-/

namespace RowStream.Stream

open Service (AppendRequest Failure)

namespace Connection

variable {c c' : Connection} {g : Nat} {P Q : Nat → Prop}

/-- A write has no result exactly while `P` holds of its number, and every result that was given is
the first and only one of its write. -/
structure Settled (c : Connection) (P : Nat → Prop) : Prop where
  unresolved : ∀ (n : Nat) (w : PendingWrite), c.writes[n]? = some w → (w.result = none ↔ P n)
  known : ∀ n, P n → n < c.writes.length
  taken : ∀ e ∈ c.given, e.taken = true
  once : (c.given.map (·.write)).Nodup
  kept : ∀ e ∈ c.given, ∃ w, c.writes[e.write]? = some w ∧ w.result = some e.result

theorem Settled.congr (h : Settled c P) (hw : c'.writes = c.writes) (hg : c'.given = c.given)
    (hPQ : ∀ n, Q n ↔ P n) : Settled c' Q := by
  refine ⟨?_, ?_, ?_, ?_, ?_⟩
  · intro n w hn
    rw [hw] at hn
    rw [hPQ]
    exact h.unresolved n w hn
  · intro n hn
    rw [hw]
    exact h.known n ((hPQ n).mp hn)
  · rw [hg]; exact h.taken
  · rw [hg]; exact h.once
  · rw [hg, hw]; exact h.kept

/-! ## Giving results -/

/-- A write without a result gets one, and only this write. -/
theorem Settled.resolve (h : Settled c P) {n : Nat} (hn : P n) (r : WriteResult) :
    Settled (c.resolve r n) fun m => P m ∧ m ≠ n := by
  obtain ⟨w, hw⟩ : ∃ w, c.writes[n]? = some w := ⟨_, List.getElem?_eq_getElem (h.known n hn)⟩
  have hnone : w.result = none := (h.unresolved n w hw).mpr hn
  have hgiven : (c.resolve r n).given = c.given ++ [⟨n, r, true⟩] := by
    simp [Connection.resolve, hw, PendingWrite.isDone, hnone]
  have hself : (c.resolve r n).writes[n]? = some (w.resolve r) := by
    simp [Connection.resolve, mapWrite, hw]
  have hother {m : Nat} (hm : m ≠ n) : (c.resolve r n).writes[m]? = c.writes[m]? := by
    simp [Connection.resolve, mapWrite, Ne.symm hm]
  -- no result was given to the write before, since it has none
  have hfresh {e : Given} (he : e ∈ c.given) : e.write ≠ n := by
    intro heq
    obtain ⟨w', hw', hres⟩ := h.kept e he
    rw [heq, hw] at hw'
    rw [← Option.some.inj hw', hnone] at hres
    exact absurd hres (by simp)
  refine ⟨?_, ?_, ?_, ?_, ?_⟩
  · intro m w' hm
    by_cases hmn : m = n
    · subst hmn
      rw [hself] at hm
      rw [← Option.some.inj hm, PendingWrite.resolve_result_of_none hnone]
      simp
    · rw [hother hmn] at hm
      rw [h.unresolved m w' hm]
      simp [hmn]
  · intro m hm
    rw [show (c.resolve r n).writes.length = c.writes.length from List.length_modify _ _ _]
    exact h.known m hm.1
  · intro e he
    rw [hgiven] at he
    rcases List.mem_append.mp he with he | he
    · exact h.taken e he
    · rw [List.mem_singleton.mp he]
  · rw [hgiven, List.map_append, List.nodup_append]
    refine ⟨h.once, by simp, ?_⟩
    intro m hm k hk
    obtain ⟨e, he, rfl⟩ := List.mem_map.mp hm
    rw [List.mem_singleton.mp hk]
    exact hfresh he
  · intro e he
    rw [hgiven] at he
    rcases List.mem_append.mp he with he | he
    · rw [hother (hfresh he)]
      exact h.kept e he
    · rw [List.mem_singleton.mp he]
      exact ⟨_, hself, PendingWrite.resolve_result_of_none hnone r⟩

/-- Writes without results get one each. -/
theorem Settled.resolveAll (h : Settled c P) {ns : List Nat} (hns : ns.Nodup)
    (hP : ∀ n ∈ ns, P n) (r : WriteResult) :
    Settled (c.resolveAll r ns) fun m => P m ∧ m ∉ ns := by
  induction ns generalizing c P with
  | nil => exact h.congr rfl rfl fun n => by simp
  | cons n ns ih =>
    obtain ⟨hnot, hns⟩ := List.nodup_cons.mp hns
    have hfirst := h.resolve (hP n List.mem_cons_self) r
    have hrest : ∀ m ∈ ns, P m ∧ m ≠ n :=
      fun m hm => ⟨hP m (List.mem_cons_of_mem n hm), fun heq => hnot (heq ▸ hm)⟩
    refine (ih hfirst hns hrest).congr rfl rfl fun m => ?_
    rw [List.mem_cons, not_or, and_assoc]

/-- A new write has no result. -/
theorem Settled.addWrite (h : Settled c P) (r : AppendRequest) :
    Settled (c.addWrite r) fun m => P m ∨ m = c.writes.length := by
  refine ⟨?_, ?_, h.taken, h.once, ?_⟩
  · intro n w hw
    rw [Connection.addWrite, List.getElem?_append] at hw
    split at hw
    · rename_i hlt
      rw [h.unresolved n w hw]
      simp [Nat.ne_of_lt hlt]
    · rename_i hge
      obtain ⟨hlt, rfl⟩ := List.getElem?_eq_some_iff.mp hw
      rw [List.length_singleton] at hlt
      simp only [List.getElem_singleton, true_iff]
      right
      omega
  · intro n hn
    rw [Connection.addWrite, List.length_append, List.length_singleton]
    rcases hn with hn | hn
    · exact Nat.lt_succ_of_lt (h.known n hn)
    · omega
  · intro e he
    obtain ⟨w, hw, hres⟩ := h.kept e he
    obtain ⟨hlt, -⟩ := List.getElem?_eq_some_iff.mp hw
    exact ⟨w, by rw [Connection.addWrite, List.getElem?_append_left hlt, hw], hres⟩

/-! ## Taking numbers out of the queue -/

/-- The number is in the queue. -/
def Waits (c : Connection) (n : Nat) : Prop := n ∈ c.queue.map (·.write)

theorem mem_map_filter_not {l : List Queued} (h : (l.map (·.write)).Nodup) (p : Queued → Bool)
    (n : Nat) : n ∈ (l.filter fun q => !p q).map (·.write) ↔
      n ∈ l.map (·.write) ∧ n ∉ (l.filter p).map (·.write) := by
  constructor
  · intro hn
    obtain ⟨q, hq, rfl⟩ := List.mem_map.mp hn
    obtain ⟨hq, hp⟩ := List.mem_filter.mp hq
    refine ⟨List.mem_map_of_mem hq, fun hother => ?_⟩
    obtain ⟨q', hq', heq⟩ := List.mem_map.mp hother
    obtain ⟨hq', hp'⟩ := List.mem_filter.mp hq'
    rw [List.inj_on_of_nodup_map h hq' hq heq] at hp'
    simp [hp'] at hp
  · rintro ⟨hn, hnot⟩
    obtain ⟨q, hq, rfl⟩ := List.mem_map.mp hn
    refine List.mem_map_of_mem (List.mem_filter.mpr ⟨hq, ?_⟩)
    cases hp : p q with
    | false => rfl
    | true => exact absurd (List.mem_map_of_mem (List.mem_filter.mpr ⟨hq, hp⟩)) hnot

theorem mem_map_eraseP {l : List Queued} (h : (l.map (·.write)).Nodup) {p : Queued → Bool}
    {q : Queued} (hq : l.find? p = some q) (n : Nat) :
    n ∈ (l.eraseP p).map (·.write) ↔ n ∈ l.map (·.write) ∧ n ≠ q.write := by
  induction l with
  | nil => simp at hq
  | cons x l ih =>
    rw [List.map_cons, List.nodup_cons] at h
    cases hx : p x with
    | true =>
      rw [List.find?_cons_of_pos hx] at hq
      obtain rfl := Option.some.inj hq
      rw [List.eraseP_cons_of_pos hx, List.map_cons, List.mem_cons]
      constructor
      · exact fun hn => ⟨.inr hn, fun heq => h.1 (heq ▸ hn)⟩
      · rintro ⟨rfl | hn, hne⟩
        · exact absurd rfl hne
        · exact hn
    | false =>
      rw [List.find?_cons_of_neg (by simp [hx])] at hq
      have hne : x.write ≠ q.write :=
        fun heq => h.1 (heq ▸ List.mem_map_of_mem (List.mem_of_find?_eq_some hq))
      rw [List.eraseP_cons_of_neg (by simp [hx]), List.map_cons, List.map_cons, List.mem_cons,
        List.mem_cons, ih h.2 hq]
      constructor
      · rintro (rfl | hn)
        · exact ⟨.inl rfl, hne⟩
        · exact ⟨.inr hn.1, hn.2⟩
      · rintro ⟨rfl | hn, hn'⟩
        · exact .inl rfl
        · exact .inr ⟨hn, hn'⟩

theorem Numbered.nodup (h : Numbered c) : (c.queue.map (·.write)).Nodup :=
  h.rising.imp Nat.ne_of_lt

/-! ## Moves keep queue and results in step -/

theorem Settled.failWhere (h : Settled c c.Waits) (hn : Numbered c) (p : Queued → Bool)
    (e : WriteError) : Settled (c.failWhere p e) (c.failWhere p e).Waits := by
  have hsub : ((c.queue.filter p).map (·.write)).Sublist (c.queue.map (·.write)) :=
    List.filter_sublist.map _
  have hqueue : Settled { c with queue := c.queue.filter fun q => !p q } c.Waits :=
    h.congr rfl rfl fun _ => .rfl
  refine (hqueue.resolveAll (hn.nodup.sublist hsub) (fun _ hm => hsub.subset hm) (.error e)).congr
    rfl rfl fun n => ?_
  rw [Waits, failWhere_queue]
  exact mem_map_filter_not hn.nodup p n

theorem Settled.answer (h : Settled c c.Waits) (hn : Numbered c) (g : Nat) (r : WriteResult) :
    Settled (c.answer g r) (c.answer g r).Waits := by
  unfold Connection.answer takeOldest
  cases hq : c.queue.find? fun q => q.generation == g with
  | none => exact h
  | some q =>
    have hqueue : Settled
        { c with queue := c.queue.eraseP fun q => q.generation == g } c.Waits :=
      h.congr rfl rfl fun _ => .rfl
    have hmem : c.Waits q.write := List.mem_map_of_mem (List.mem_of_find?_eq_some hq)
    exact (hqueue.resolve hmem r).congr rfl rfl fun n => mem_map_eraseP hn.nodup hq n

theorem Settled.reopen (h : Settled c c.Waits) (hn : Numbered c) (hd : Handover) :
    Settled (c.reopen hd) (c.reopen hd).Waits := by
  rcases reopen_cases c hd with ⟨-, heq⟩ | ⟨-, -, heq⟩ | ⟨-, -, heq⟩ <;> rw [heq]
  · exact h.congr rfl rfl fun _ => .rfl
  · refine h.congr rfl rfl fun n => ?_
    simp only [Waits, map_write_retag]
  · have hopen : Settled (c.openChannel (c.past ++ c.channel.toList.map Channel.shutdown))
        c.Waits := h.congr rfl rfl fun _ => .rfl
    exact hopen.failWhere ⟨hn.rising, hn.known⟩ _ _

theorem Settled.accept (h : Settled c c.Waits) (hc : c.channel ≠ none) (r : AppendRequest) :
    Settled (c.accept r) (c.accept r).Waits := by
  obtain ⟨ch, hch⟩ := Option.ne_none_iff_exists'.mp hc
  rw [accept_eq hch]
  refine (h.addWrite r).congr rfl rfl fun n => ?_
  simp [Waits]

theorem Settled.refuse (h : Settled c c.Waits) (r : AppendRequest) :
    Settled (c.refuse r) (c.refuse r).Waits := by
  refine ((h.addWrite r).resolve (.inr rfl) _).congr rfl rfl fun n => ?_
  have hlt : c.Waits n → n ≠ c.writes.length := fun hn => Nat.ne_of_lt (h.known n hn)
  constructor
  · exact fun hn => ⟨.inl hn, hlt hn⟩
  · rintro ⟨hn | hn, hne⟩
    · exact hn
    · exact absurd hn hne

theorem Settled.quiet (h : Settled c c.Waits) (hn : Numbered c) (q : Quiet c c') :
    Settled c' c'.Waits := by
  cases q with
  | fail g e => exact h.failWhere hn _ e
  | shut e => exact (h.failWhere hn _ e).congr rfl rfl fun _ => .rfl
  | _ => exact h.congr rfl rfl fun _ => .rfl

theorem Settled.move (h : Settled c c.Waits) (hn : Numbered c) (m : Move c c') :
    Settled c' c'.Waits := by
  cases m with
  | quiet q => exact h.quiet hn q
  | answer g r => exact h.answer hn g r
  | reopen hd => exact h.reopen hn hd
  | accept r hc => exact h.accept hc r
  | refuse r => exact h.refuse r

/-- Counting a retry leaves results alone. -/
theorem Settled.retry (h : Settled c P) (n : Nat) :
    Settled (c.mapWrite n PendingWrite.retry) P := by
  have hback {m : Nat} {w : PendingWrite}
      (hw : (c.mapWrite n PendingWrite.retry).writes[m]? = some w) :
      ∃ w₀, c.writes[m]? = some w₀ ∧ w.result = w₀.result := by
    rw [mapWrite, List.getElem?_modify] at hw
    obtain ⟨w₀, hw₀, rfl⟩ := Option.map_eq_some_iff.mp hw
    refine ⟨w₀, hw₀, ?_⟩
    split <;> rfl
  refine ⟨?_, ?_, h.taken, h.once, ?_⟩
  · intro m w hw
    obtain ⟨w₀, hw₀, heq⟩ := hback hw
    rw [heq]
    exact h.unresolved m w₀ hw₀
  · intro m hm
    rw [mapWrite, List.length_modify]
    exact h.known m hm
  · intro e he
    obtain ⟨w, hw, hres⟩ := h.kept e he
    refine ⟨if n = e.write then w.retry else w, ?_, ?_⟩
    · rw [mapWrite, List.getElem?_modify, hw]
      rfl
    · split <;> exact hres

/-- An action of the connection itself keeps queue and results in step. -/
theorem Settled.act (h : Settled c c.Waits) (hc : Coherent c) (hn : Numbered c) {a : Action}
    (ha : a.isOwn = true) : Settled (c.act a) (c.act a).Waits := by
  rcases (hc.outcome a).moves with m | ⟨n, r, rfl, -⟩ | ⟨n, -, heq⟩
  · have hboth := hc.moves_induct m (P := fun c => Numbered c ∧ Settled c c.Waits)
      (fun _ hns m => ⟨hns.1.move m, hns.2.move hns.1 m⟩) ⟨hn, h⟩
    exact hboth.2
  · exact absurd ha (by simp [Action.isOwn])
  · rw [heq]
    exact h.retry n

theorem settled_blank {id : String} {o : Config.ConnectionOptions} :
    Settled (blank id o) (blank id o).Waits :=
  ⟨fun _ _ hw => absurd hw (by simp [blank]), fun _ hn => absurd hn List.not_mem_nil,
    fun _ he => absurd he List.not_mem_nil, .nil, fun _ he => absurd he List.not_mem_nil⟩

/-- **In every run in which only the connection gives results, queue and results are in step.** -/
theorem settled_run {id : String} {o : Config.ConnectionOptions} (h : create id o = .ok c)
    {as : List Action} (hown : ∀ a ∈ as, a.isOwn = true) :
    Settled (c.run as) (c.run as).Waits := by
  have hboth : Numbered (c.run as) ∧ Settled (c.run as) (c.run as).Waits := by
    refine run_induct (P := fun c => Numbered c ∧ Settled c c.Waits) h
      (fun a ha c hc hns => ⟨hns.1.act hc a, hns.2.act hc hns.1 ?_⟩) ⟨numbered_blank, settled_blank⟩
    rcases List.mem_cons.mp ha with rfl | ha
    · rfl
    · exact hown a ha
  exact hboth.2

/-! ## Pending writes -/

/-- The write is there and has no result. -/
def isUnresolved (c : Connection) (n : Nat) : Bool := (c.writes[n]?).any fun w => !w.isDone

/-- The result of a write, once there is one. -/
def result? (c : Connection) (n : Nat) : Option WriteResult := (c.writes[n]?).bind (·.result)

/-- The action leaves nothing pending: it closes the connection or lets it go, or it is a schema
mismatch of the current channel. -/
def ends (c : Connection) : Action → Bool
  | .call .close | .call (.flush _ _) | .call (.finalize _) | .call .release => true
  | .receive g i =>
    g == c.generation && c.meets g i &&
      match i with
      | .failure e | .refused e => (Failure.ofCall e).isSchemaMismatch
      | _ => false
  | _ => false

theorem Settled.waits_iff (h : Settled c c.Waits) (n : Nat) :
    c.Waits n ↔ c.isUnresolved n = true := by
  constructor
  · intro hn
    obtain ⟨w, hw⟩ : ∃ w, c.writes[n]? = some w := ⟨_, List.getElem?_eq_getElem (h.known n hn)⟩
    have hnone := (h.unresolved n _ hw).mpr hn
    simp [isUnresolved, hw, PendingWrite.isDone, hnone]
  · intro hn
    obtain ⟨w, hw, hnot⟩ := (Option.any_eq_true _ _).mp hn
    refine (h.unresolved n w hw).mp ?_
    simpa [PendingWrite.isDone] using hnot

/-- The queue holds the unresolved numbers. -/
theorem Settled.queue_eq (h : Settled c c.Waits) (hn : Numbered c) :
    c.queue.map (·.write) = (List.range c.writes.length).filter c.isUnresolved := by
  refine hn.rising.eq_of_mem_iff (List.pairwise_lt_range.sublist List.filter_sublist) fun n => ?_
  rw [List.mem_filter, List.mem_range, ← h.waits_iff n]
  exact ⟨fun hw => ⟨h.known n hw, hw⟩, fun hw => hw.2⟩

/-- With an empty queue every write has a result. -/
theorem Settled.resolved (h : Settled c c.Waits) (hq : c.queue = []) {n : Nat}
    (hn : n < c.writes.length) : ∃ r, c.result? n = some r := by
  have hw : c.writes[n]? = some c.writes[n] := List.getElem?_eq_getElem hn
  have hnot : ¬ c.Waits n := by simp [Waits, hq]
  rw [← h.unresolved n _ hw] at hnot
  obtain ⟨r, hr⟩ := Option.ne_none_iff_exists'.mp hnot
  exact ⟨r, by rw [result?, hw, Option.bind_some, hr]⟩

theorem onFailure_mismatch (c : Connection) {f : Failure} (hf : f.isSchemaMismatch = true)
    (established : Bool) : (c.onFailure f established).queue = [] := by
  simp [onFailure, hf, onSchemaMismatch, publish]

/-- After an action that ends it, a connection has nothing queued. -/
theorem Coherent.queue_of_ends (h : Coherent c) {a : Action} (ha : c.ends a = true) :
    (c.act a).queue = [] := by
  have hcall {k : Call} (hk : c.alive = true → (c.call k).queue = []) :
      (c.act (.call k)).queue = [] := by
    simp only [Connection.act]
    split
    · rename_i hal
      exact hk hal
    · rename_i hal
      exact h.closed (h.held (by simpa using hal))
  have hclose : c.close.queue = [] := shut_queue c .aborted
  cases a with
  | call k =>
    cases k with
    | close => exact hcall fun _ => hclose
    | release => exact hcall fun _ => shut_queue c .aborted
    | flush m offset =>
      refine hcall fun _ => ?_
      simp only [call, flush]
      split
      · exact hclose
      · split <;> exact hclose
    | finalize m =>
      refine hcall fun _ => ?_
      simp only [call, finalize]
      split
      · exact hclose
      · split <;> exact hclose
    | _ => exact absurd ha (by simp [ends])
  | receive g i =>
    simp only [ends, Bool.and_eq_true, beq_iff_eq] at ha
    obtain ⟨⟨rfl, hm⟩, hi⟩ := ha
    simp only [Connection.act]
    rw [receive_of_meets hm]
    show (c.handle c.generation i).queue = []
    cases i with
    | failure e =>
      rw [handle, onItem, if_pos rfl]
      exact onFailure_mismatch c hi true
    | refused e =>
      rw [handle, onRefused, if_pos rfl]
      exact onFailure_mismatch c hi false
    | _ => exact absurd hi (by simp)
  | _ => exact absurd ha (by simp [ends])

section Created

variable {id : String} {o : Config.ConnectionOptions} {as : List Action}

/-- The pending writes, by their numbers. -/
theorem pending_eq (c : Connection) :
    c.pending = (c.queue.map (·.write)).filterMap fun n => c.writes[n]? := by
  rw [pending, List.filterMap_map]
  rfl

theorem filterMap_range (l : List PendingWrite) :
    (List.range l.length).filterMap (fun n => l[n]?) = l := by
  induction l using List.reverseRec with
  | nil => rfl
  | append_singleton l w ih =>
    rw [List.length_append, List.length_singleton, List.range_succ, List.filterMap_append]
    have hinit : (List.range l.length).filterMap (fun n => (l ++ [w])[n]?) = l := by
      refine Eq.trans (List.filterMap_congr fun n hn => ?_) ih
      exact List.getElem?_append_left (List.mem_range.mp hn)
    rw [hinit]
    simp

theorem filterMap_unresolved (c : Connection) :
    ((List.range c.writes.length).filter c.isUnresolved).filterMap (fun n => c.writes[n]?) =
      c.writes.filter fun w => !w.isDone := by
  conv => rhs; rw [← filterMap_range c.writes]
  rw [List.filter_filterMap, List.filterMap_filter]
  refine List.filterMap_congr fun n _ => ?_
  cases hw : c.writes[n]? <;> simp [isUnresolved, hw, Option.filter]

/-- **No write is lost, duplicated or resolved twice.** In every run in which only the connection
gives results,

* the calls handed back the numbers of all writes, one after the other; the queue holds those
  without a result, each once and in the order of the calls, and they are the pending writes;
* every result that the connection gave was the first one of its write, and there is no other;
* whatever comes later, a result stays;
* once the connection was closed or let go, or the current channel brought a schema mismatch, every
  write that was handed back has a result. -/
theorem pending_exactly_unresolved (h : create id o = .ok c)
    (hown : ∀ a ∈ as, a.isOwn = true) :
    (c.returned as = List.range (c.run as).writes.length ∧
      (c.run as).queue.map (·.write) = (c.returned as).filter (c.run as).isUnresolved ∧
      (c.run as).pending = (c.run as).writes.filter fun w => !w.isDone) ∧
    ((∀ e ∈ (c.run as).given, e.taken = true ∧ (c.run as).result? e.write = some e.result) ∧
      ((c.run as).given.map (·.write)).Nodup) ∧
    (∀ bs n r, (c.run as).result? n = some r → (c.run (as ++ bs)).result? n = some r) ∧
    ∀ a, (c.run as).ends a = true → ∀ n ∈ c.returned (as ++ [a]),
      ∃ r, (c.run (as ++ [a])).result? n = some r := by
  have hcoh := coherent_run h as
  have hnum := numbered_run h as
  have hset := settled_run h hown
  have hret := returned_eq_range h as
  have hqueue := hset.queue_eq hnum
  refine ⟨⟨hret, by rw [hret, hqueue], ?_⟩, ⟨fun e he => ⟨hset.taken e he, ?_⟩, hset.once⟩, ?_, ?_⟩
  · rw [pending_eq, hqueue, filterMap_unresolved]
  · obtain ⟨w, hw, hres⟩ := hset.kept e he
    rw [result?, hw, Option.bind_some, hres]
  · intro bs n r hres
    obtain ⟨w, hw, hr⟩ := Option.bind_eq_some_iff.mp hres
    obtain ⟨w', hw', -, hkeep⟩ := hcoh.run_extends bs n w hw
    rw [run_append, result?, hw', Option.bind_some, hkeep r hr]
  · intro a ha n hn
    have hown' : ∀ b ∈ as ++ [a], b.isOwn = true := by
      intro b hb
      rcases List.mem_append.mp hb with hb | hb
      · exact hown b hb
      · rw [List.mem_singleton.mp hb]
        cases a with
        | mark => exact absurd ha (by simp [ends])
        | _ => rfl
    rw [returned_eq_range h, List.mem_range] at hn
    refine (settled_run h hown').resolved ?_ hn
    rw [run_append]
    exact hcoh.queue_of_ends ha

/-- Two writes of which one is answered, and then the connection is closed. -/
theorem pending_of_two_writes :
    let c := (blank "s" {}).connect
    let as : List Action := [.call (.write {}), .call (.write {}), .receive 1 .opened,
      .receive 1 (.response {})]
    (∀ a ∈ as, a.isOwn = true) ∧ (c.run as).queue.map (·.write) = [1] ∧
      (∀ e ∈ (c.run as).given, e.taken = true) ∧
      ∃ r, (c.run (as ++ [.call .close])).result? 1 = some r := by
  intro c as
  have hnew : create "s" {} = .ok c := create_eq (by decide)
  have hown : ∀ a ∈ as, a.isOwn = true := by decide
  obtain ⟨⟨-, hqueue, -⟩, ⟨hgiven, -⟩, -, hend⟩ := pending_exactly_unresolved hnew hown
  exact ⟨hown, hqueue.trans (by decide), fun e he => (hgiven e he).1,
    hend (.call .close) rfl 1 (by decide)⟩

end Created

end Connection

end RowStream.Stream
