import RowStream.Proofs.Writer.Run

/-!
# Connections and those who hold them

A connection is alive until whoever holds it lets it go, and whoever holds a write can give it a result.
So a write may have one while its number is still in the queue. The other direction holds in every run:
what takes a number out of the queue gives its write a result.

* `run_alive`: nothing but the last call of its holder lets a connection go.
* `Reachable.lacking`: a write without a result waits in the queue.
* `Reachable.resolved`: where no channel is, every write has its result.
-/

namespace RowStream.Stream.Connection

open Service (AppendRequest AppendResponse Failure)

variable {c c' : Connection} {P Q : Nat → Prop}

/-! ## Alive -/

theorem write_alive (c : Connection) (r : AppendRequest) : (c.write r).2.alive = c.alive := by
  have hrefuse (c : Connection) : (c.refuse r).alive = c.alive := rfl
  have haccept (c : Connection) : (c.accept r).alive = c.alive := by
    simp only [accept, transmit]
    split <;> rfl
  rcases c.write_cases r with ⟨-, heq⟩ | ⟨c₁, ch, rfl | rfl, -, heq⟩ <;> rw [heq]
  · exact hrefuse c
  · exact haccept _
  · rw [haccept, reopen_alive]

theorem onResponse_alive (c : Connection) (g : Nat) (r : AppendResponse) :
    (c.onResponse g r).alive = c.alive := by
  simp only [onResponse, answer_alive]
  split <;> rfl

theorem onFailure_alive (c : Connection) (f : Failure) (established : Bool) :
    (c.onFailure f established).alive = c.alive := by
  simp only [onFailure]
  repeat' split
  all_goals simp [onSchemaMismatch, publish, reportFailure]

theorem failGeneration_alive (c : Connection) (g : Nat) (e : WriteError) :
    (c.failGeneration g e).alive = c.alive := failWhere_alive _ _ _

theorem handle_alive (c : Connection) (g : Nat) (i : Incoming) :
    (c.handle g i).alive = c.alive := by
  cases i with
  | opened => rfl
  | refused e =>
    simp only [handle, onRefused]
    split
    · exact onFailure_alive ..
    · exact failGeneration_alive ..
  | response r =>
    simp only [handle, onItem]
    repeat' split
    all_goals first | exact onResponse_alive .. | rfl
  | failure e =>
    simp only [handle, onItem, onReplacedFailure]
    repeat' split
    all_goals first | exact onFailure_alive .. | exact failGeneration_alive .. | simp
  | ended =>
    simp only [handle, onEnded]
    split
    · rfl
    · exact failGeneration_alive ..

/-- **Only the last call of its holder lets a connection go.** -/
theorem act_alive (c : Connection) {a : Action} (ha : a ≠ .call .release) :
    (c.act a).alive = c.alive := by
  cases a with
  | call k =>
    simp only [Connection.act]
    split
    swap
    · rfl
    have hclose : c.close.alive = c.alive := shut_alive ..
    cases k with
    | connect =>
      simp only [call, connect]
      split
      · rfl
      · exact reopen_alive ..
    | reconnect => exact reopen_alive ..
    | close => exact hclose
    | write r => exact write_alive ..
    | flush m offset =>
      simp only [call, flush]
      repeat' split
      all_goals exact hclose
    | finalize m =>
      simp only [call, finalize]
      repeat' split
      all_goals exact hclose
    | setDescriptor w d =>
      simp only [call, Writer.setDescriptor]
      split
      · rfl
      · exact reopen_alive ..
    | release => exact absurd rfl ha
  | receive g i =>
    simp only [Connection.act, receive]
    repeat' split
    all_goals first | exact handle_alive .. | rfl
  | late g i =>
    simp only [Connection.act]
    split
    · exact handle_alive ..
    · rfl
  | hangUp g => rfl
  | mark n r => rfl
  | retry n => rfl

theorem run_alive {as : List Action} (h : ∀ a ∈ as, a ≠ .call .release) (c : Connection) :
    (c.run as).alive = c.alive := by
  induction as generalizing c with
  | nil => rfl
  | cons a as ih =>
    rw [run_cons, ih (fun b hb => h b (List.mem_cons_of_mem a hb)),
      act_alive c (h a List.mem_cons_self)]

/-! ## Writes without a result -/

/-- `P` holds of the number of every write without a result. -/
def Lacking (c : Connection) (P : Nat → Prop) : Prop :=
  ∀ (n : Nat) (w : PendingWrite), c.writes[n]? = some w → w.result = none → P n

theorem Lacking.mono (h : Lacking c P) (hw : c'.writes = c.writes) (hPQ : ∀ n, P n → Q n) :
    Lacking c' Q :=
  fun n w hn hr => hPQ n (h n w (hw ▸ hn) hr)

/-- A change of one write that keeps results. -/
theorem Lacking.mapWrite (h : Lacking c P) (n : Nat) {f : PendingWrite → PendingWrite}
    (hf : PendingWrite.Keeps f) : Lacking (c.mapWrite n f) P := by
  intro m w hm hr
  rw [Connection.mapWrite, List.getElem?_modify] at hm
  obtain ⟨old, hold, rfl⟩ := Option.map_eq_some_iff.mp hm
  refine h m old hold ?_
  cases hres : old.result with
  | none => rfl
  | some r =>
    have hkept : (if n = m then f old else old).result = some r := by
      split
      · exact (hf old).2 r hres
      · exact hres
    rw [hkept] at hr
    exact absurd hr (by simp)

/-- A write that gets a result is without one no more. -/
theorem Lacking.resolve (h : Lacking c P) (r : WriteResult) (n : Nat) :
    Lacking (c.resolve r n) fun m => P m ∧ m ≠ n := by
  have hkept : Lacking (c.resolve r n) P := h.mapWrite n (PendingWrite.keeps_resolve r)
  intro m w hm hr
  refine ⟨hkept m w hm hr, ?_⟩
  rintro rfl
  simp only [Connection.resolve, Connection.mapWrite, List.getElem?_modify] at hm
  obtain ⟨old, -, rfl⟩ := Option.map_eq_some_iff.mp hm
  cases hres : old.result <;> simp [PendingWrite.resolve, hres] at hr

theorem Lacking.resolveAll (h : Lacking c P) (r : WriteResult) (ns : List Nat) :
    Lacking (c.resolveAll r ns) fun m => P m ∧ m ∉ ns := by
  induction ns generalizing c P with
  | nil => exact h.mono rfl fun n hn => ⟨hn, List.not_mem_nil⟩
  | cons n ns ih =>
    refine (ih (h.resolve r n)).mono rfl fun m hm => ?_
    rw [List.mem_cons, not_or, ← and_assoc]
    exact hm

/-! ## Moves -/

theorem Lacking.failWhere (h : Lacking c c.Waits) (hn : Numbered c) (p : Queued → Bool)
    (e : WriteError) : Lacking (c.failWhere p e) (c.failWhere p e).Waits := by
  have hqueue : Lacking { c with queue := c.queue.filter fun q => !p q } c.Waits :=
    h.mono rfl fun _ hm => hm
  refine (hqueue.resolveAll (.error e) ((c.queue.filter p).map (·.write))).mono rfl fun n hm => ?_
  rw [Waits, failWhere_queue]
  exact (mem_map_filter_not hn.nodup p n).mpr hm

theorem Lacking.answer (h : Lacking c c.Waits) (hn : Numbered c) (g : Nat) (r : WriteResult) :
    Lacking (c.answer g r) (c.answer g r).Waits := by
  unfold Connection.answer takeOldest
  cases hfirst : c.queue.find? fun q => q.generation == g with
  | none => exact h
  | some q =>
    have hqueue : Lacking { c with queue := c.queue.eraseP fun q => q.generation == g } c.Waits :=
      h.mono rfl fun _ hm => hm
    exact (hqueue.resolve r q.write).mono rfl fun n hm => (mem_map_eraseP hn.nodup hfirst n).mpr hm

theorem Lacking.reopen (h : Lacking c c.Waits) (hn : Numbered c) (hd : Handover) :
    Lacking (c.reopen hd) (c.reopen hd).Waits := by
  rcases reopen_cases c hd with ⟨-, heq⟩ | ⟨-, -, heq⟩ | ⟨-, -, heq⟩ <;> rw [heq]
  · exact h.mono rfl fun _ hm => hm
  · refine h.mono rfl fun n hm => ?_
    rwa [Waits, map_write_retag]
  · have hopen : Lacking (c.openChannel (c.past ++ c.channel.toList.map Channel.shutdown))
        c.Waits := h.mono rfl fun _ hm => hm
    exact hopen.failWhere ⟨hn.rising, hn.known⟩ _ _

/-- A write that was added has no result yet. -/
theorem Lacking.addWrite (h : Lacking c P) (r : AppendRequest) :
    Lacking (c.addWrite r) fun m => P m ∨ m = c.writes.length := by
  intro n w hw hr
  rw [Connection.addWrite, List.getElem?_append] at hw
  split at hw
  · exact .inl (h n w hw hr)
  · obtain ⟨hlt, -⟩ := List.getElem?_eq_some_iff.mp hw
    rw [List.length_singleton] at hlt
    right
    omega

theorem Lacking.move (h : Lacking c c.Waits) (hn : Numbered c) (m : Move c c') :
    Lacking c' c'.Waits := by
  cases m with
  | quiet q =>
    cases q with
    | fail g e => exact h.failWhere hn _ e
    | shut e => exact (h.failWhere hn _ e).mono rfl fun _ hm => hm
    | _ => exact h.mono rfl fun _ hm => hm
  | answer g r => exact h.answer hn g r
  | reopen hd => exact h.reopen hn hd
  | accept r hc =>
    obtain ⟨ch, hch⟩ := Option.ne_none_iff_exists'.mp hc
    rw [accept_eq hch]
    refine (h.addWrite r).mono rfl fun n hm => ?_
    simpa [Waits] using hm
  | refuse r =>
    refine ((h.addWrite r).resolve _ _).mono rfl ?_
    rintro n ⟨hm, hne⟩
    exact hm.resolve_right hne

theorem Lacking.act (h : Lacking c c.Waits) (hc : Coherent c) (hn : Numbered c) (a : Action) :
    Lacking (c.act a) (c.act a).Waits := by
  have hboth : Numbered (c.act a) ∧ Lacking (c.act a) (c.act a).Waits := by
    refine hc.act_induct (P := fun c => Numbered c ∧ Lacking c c.Waits) a
      (fun _ h m => ⟨h.1.move m, h.2.move h.1 m⟩) ?_ ⟨hn, h⟩
    exact fun n f hf h => ⟨h.1.of_sublist (.refl _) (Nat.le_of_eq (List.length_modify _ _ _).symm),
      h.2.mapWrite n hf⟩
  exact hboth.2

/-- **In every run a write without a result is in the queue**, whoever gives results. -/
theorem Reachable.lacking (h : c.Reachable) : Lacking c c.Waits := by
  obtain ⟨id, o, c₀, as, hnew, rfl⟩ := h
  have hboth : Numbered (c₀.run as) ∧ Lacking (c₀.run as) (c₀.run as).Waits := by
    refine run_induct (P := fun c => Numbered c ∧ Lacking c c.Waits) hnew
      (fun a _ c hc h => ⟨h.1.act hc a, h.2.act hc h.1 a⟩) ⟨numbered_blank, fun _ _ hw => ?_⟩
    exact absurd hw (by simp [blank])
  exact hboth.2

/-- **Where no channel is, every write has its result.** -/
theorem Reachable.resolved (h : c.Reachable) (hc : c.channel = none) :
    ∀ w ∈ c.writes, w.result.isSome := by
  intro w hw
  obtain ⟨n, hn⟩ := List.mem_iff_getElem?.mp hw
  cases hr : w.result with
  | some r => rfl
  | none =>
    have hwaits := h.lacking n w hn hr
    rw [Waits, h.coherent.closed hc] at hwaits
    exact absurd hwaits List.not_mem_nil

end RowStream.Stream.Connection
