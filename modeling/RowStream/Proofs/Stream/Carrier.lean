import RowStream.Proofs.Stream.Resolution

/-!
# Every queued write has a reader

A write in the queue is carried by the current channel, or by a replaced one whose reader has not
stopped. What such a reader meets is handled for the writes of its channel (`Incoming.resolves`): an
answer resolves the oldest of them, the end of the channel or its failure all of them. So a write
waits for nobody who is gone.

A channel that was closed, or replaced because it was lost, carries nothing any more (`Gone`), and
no later action gives it a write.

* `carried_receive`: what an item of a replaced channel does to the writes that it carries.
* `gone_run`: a channel that is gone stays gone.
* `no_orphaned_write`: no queued write is without a reader, in any run.
-/

namespace RowStream.Stream

open Service (AppendRequest Failure)

/-- The writes of a replaced channel that an item resolves: an answer the oldest, a failure of the
channel or its end all of them. -/
def Incoming.resolves (i : Incoming) (carried : List Nat) : List Nat :=
  match i with
  | .opened => []
  | .response _ => carried.take 1
  | .failure _ => if i.answer?.isSome then carried.take 1 else carried
  | .refused _ | .ended => carried

/-- The result that they get. -/
def Incoming.verdict (i : Incoming) : WriteResult :=
  match i with
  | .response r => Connection.resultOf r
  | .failure e => i.answer?.getD (.error (.ofReplaced (Failure.ofCall e)))
  | .refused e => .error (.connection (Failure.ofCall e))
  | .opened | .ended => .error .connectionClosed

/-- The action replaces the channel on request. -/
def Action.replaces : Action → Bool
  | .call k => k.replaces
  | _ => false

namespace Connection

variable {c c' : Connection} {g : Nat} {i : Incoming}

/-! ## What an item of a replaced channel does -/

/-- The results that a connection gave, with their writes. -/
def results (c : Connection) : List (Nat × WriteResult) := c.given.map fun e => (e.write, e.result)

theorem results_resolve (c : Connection) (r : WriteResult) (n : Nat) :
    (c.resolve r n).results = c.results ++ [(n, r)] := by
  simp [results, resolve]

theorem results_resolveAll (c : Connection) (r : WriteResult) (ns : List Nat) :
    (c.resolveAll r ns).results = c.results ++ ns.map fun n => (n, r) := by
  induction ns generalizing c with
  | nil => simp [resolveAll]
  | cons n ns ih =>
    have h := ih (c.resolve r n)
    simp only [resolveAll, List.foldl_cons] at h ⊢
    rw [h, results_resolve, List.append_assoc]
    rfl

/-- The item resolved these writes of a channel, oldest first, and left the others. -/
def Resolves (c : Connection) (g : Nat) (r : WriteResult) (ns : List Nat) (c' : Connection) :
    Prop :=
  c.carried g = ns ++ c'.carried g ∧ c'.results = c.results ++ ns.map fun n => (n, r)

theorem resolves_answer (c : Connection) (g : Nat) (r : WriteResult) :
    Resolves c g r ((c.carried g).take 1) (c.answer g r) := by
  cases h : c.carried g with
  | nil =>
    rw [answer_of_nil r h]
    exact ⟨by simp, by simp⟩
  | cons n ns =>
    refine ⟨?_, ?_⟩
    · rw [carried_answer_self, h]
      rfl
    · rw [answer_of_cons r h, results_resolve]
      rfl

theorem resolves_failGeneration (c : Connection) (g : Nat) (e : WriteError) :
    Resolves c g (.error e) (c.carried g) (c.failGeneration g e) := by
  refine ⟨by rw [carried_failGeneration_self, List.append_nil], ?_⟩
  rw [failGeneration, failWhere, results_resolveAll]
  rfl

theorem Resolves.congr {c₁ c₂ : Connection} {r : WriteResult} {ns : List Nat}
    (h : Resolves c₁ g r ns c₂) (hq : c₁.queue = c.queue) (hg : c₁.given = c.given)
    (hq' : c'.queue = c₂.queue) (hg' : c'.given = c₂.given) : Resolves c g r ns c' := by
  obtain ⟨hcar, hres⟩ := h
  rw [carried_congr hq] at hcar
  refine ⟨by rw [hcar, carried_congr hq'], ?_⟩
  simp only [results, hg, hg'] at hres ⊢
  exact hres

/-- Handling an item of a replaced channel that carries writes. -/
theorem resolves_handle (hg : c.generation ≠ g) (hc : c.carried g ≠ []) (i : Incoming) :
    Resolves c g i.verdict (i.resolves (c.carried g)) (c.handle g i) := by
  have hne : ¬ (c.carried g).isEmpty = true := by simpa using hc
  cases i with
  | opened => exact ⟨rfl, by simp [Incoming.resolves, handle]⟩
  | refused e =>
    rw [handle, onRefused, if_neg hg]
    exact resolves_failGeneration c g _
  | response r =>
    rw [handle, onItem, if_neg hg, if_neg hne]
    unfold onResponse
    cases r.updatedSchema with
    | none => exact resolves_answer c g _
    | some s =>
      have hdone := resolves_answer (publish { c with latestSchema := some s } (.schemaUpdated s)) g
        (resultOf r)
      exact hdone.congr rfl rfl rfl rfl
  | failure e =>
    rw [handle, onItem, if_neg hg, if_neg hne]
    simp only [onReplacedFailure, Incoming.resolves, Incoming.verdict, Incoming.answer?]
    split
    · exact resolves_answer c g _
    · exact resolves_failGeneration c g _
  | ended =>
    rw [handle, onEnded, if_neg hg]
    exact resolves_failGeneration c g _

/-- **An item of a replaced channel is handled for the writes that the channel carries.** -/
theorem carried_receive (hm : c.meets g i = true) (hg : c.generation ≠ g) (hc : c.carried g ≠ []) :
    Resolves c g i.verdict (i.resolves (c.carried g)) (c.receive g i) := by
  rw [receive_of_meets hm]
  exact (resolves_handle hg hc i).congr rfl rfl rfl rfl

/-! ## Readers of replaced channels -/

/-- A replaced channel whose reader has stopped carries nothing. -/
theorem Coherent.carried_of_stopped (h : Coherent c) {ch : Channel} (hch : ch ∈ c.past)
    (hs : ch.reader = .stopped) : c.carried ch.generation = [] := by
  rw [carried_eq_nil]
  intro q hq hgen
  rcases h.carrier q hq with hcur | ⟨old, hold, hogen, hread⟩
  · cases hnow : c.channel with
    | none =>
      rw [h.closed hnow] at hq
      exact List.not_mem_nil hq
    | some now =>
      have hlt := h.past_lt hnow hch
      omega
  · have heq := h.eq_of_generation (mem_channels.mpr (.inl hch)) (mem_channels.mpr (.inl hold))
      (hgen.symm.trans hogen.symm)
    rw [heq] at hs
    exact hread hs

/-- While something is queued, somebody holds the connection. -/
theorem Coherent.alive_of_mem (h : Coherent c) {q : Queued} (hq : q ∈ c.queue) :
    c.alive = true := by
  cases ha : c.alive with
  | true => rfl
  | false =>
    rw [h.closed (h.held ha)] at hq
    exact absurd hq List.not_mem_nil

/-- The current channel carries the write: it is there, and its generation is the current one. -/
def CarriedNow (c : Connection) (q : Queued) : Prop :=
  q.generation = c.generation ∧ ∃ ch, c.channel = some ch ∧ ch.generation = q.generation

/-- A replaced channel carries the write and is still read: whatever its reader can meet is handled
for the writes of the channel. -/
def CarriedYet (c : Connection) (q : Queued) : Prop :=
  ∃ ch ∈ c.past, ch.generation = q.generation ∧ ch.reader ≠ .stopped ∧
    ∀ i, ch.reader.takes i = true → Resolves c q.generation i.verdict
      (i.resolves (c.carried q.generation)) (c.receive q.generation i)

theorem Coherent.carried_now_or_yet (h : Coherent c) {q : Queued} (hq : q ∈ c.queue) :
    CarriedNow c q ∨ CarriedYet c q := by
  by_cases hcur : q.generation = c.generation
  · left
    cases hnow : c.channel with
    | none =>
      rw [h.closed hnow] at hq
      exact absurd hq List.not_mem_nil
    | some ch => exact ⟨hcur, ch, hnow, (h.current ch hnow).trans hcur.symm⟩
  · right
    obtain ⟨ch, hch, hgen, hread⟩ := (h.carrier q hq).resolve_left hcur
    refine ⟨ch, hch, hgen, hread, fun i htakes => ?_⟩
    have hfound : c.channel? q.generation = some ch := by
      rw [← hgen]
      exact h.channel?_of_mem (mem_channels.mpr (.inl hch))
    have hm : c.meets q.generation i = true := by
      rw [meets, h.alive_of_mem hq, hfound, Option.any_some, htakes]
      rfl
    refine carried_receive hm (Ne.symm hcur) fun hnil => ?_
    exact carried_eq_nil.mp hnil q hq rfl

/-! ## Channels that are gone -/

/-- The channel of the generation is not the current one, carries nothing, and no later channel gets
its generation. -/
structure Gone (c : Connection) (g : Nat) : Prop where
  carried : c.carried g = []
  past : g ≤ c.generation
  left : ∀ ch, c.channel = some ch → ch.generation ≠ g

theorem carried_of_sublist (hs : c'.queue.Sublist c.queue) (h : c.carried g = []) :
    c'.carried g = [] :=
  carried_eq_nil.mpr fun q hq => carried_eq_nil.mp h q (hs.subset hq)

/-- The current channel stays, or there is none any more. -/
structure Stays (c c' : Connection) : Prop where
  later : c.generation ≤ c'.generation
  same : c'.channel = none ∨ c'.channel.map (·.generation) = c.channel.map (·.generation)

theorem Stays.of_eq (hg : c'.generation = c.generation) (hc : c'.channel = c.channel) :
    Stays c c' :=
  ⟨Nat.le_of_eq hg.symm, .inr (by rw [hc])⟩

theorem Stays.trans {c'' : Connection} (h : Stays c c') (h' : Stays c' c'') : Stays c c'' := by
  refine ⟨Nat.le_trans h.later h'.later, ?_⟩
  rcases h'.same with hnone | hsame'
  · exact .inl hnone
  · rcases h.same with hnone | hsame
    · rw [hnone, Option.map_none, Option.map_eq_none_iff] at hsame'
      exact .inl hsame'
    · exact .inr (hsame'.trans hsame)

theorem Quiet.stays (q : Quiet c c') : Stays c c' := by
  have hmap {f : Channel → Channel} (hf : ∀ ch, (f ch).generation = ch.generation) :
      (c.channel.map f).map (·.generation) = c.channel.map (·.generation) := by
    cases c.channel with
    | none => rfl
    | some ch => exact congrArg some (hf ch)
  cases q with
  | fail g e => exact .of_eq (failWhere_generation _ _ _) (failWhere_channel _ _ _)
  | shut e => exact ⟨by simp, .inl rfl⟩
  | bump hc => exact ⟨Nat.le_succ _, .inr rfl⟩
  | tearDown => exact ⟨Nat.le_refl _, .inr (hmap fun _ => rfl)⟩
  | hangUp g => exact ⟨Nat.le_refl _, .inr (hmap fun ch => by split <;> rfl)⟩
  | meet g i on => exact ⟨Nat.le_refl _, .inr (hmap fun ch => by split <;> simp)⟩
  | _ => exact .of_eq rfl rfl

theorem Quiets.stays (q : Quiets c c') : Stays c c' := by
  induction q with
  | refl => exact .of_eq rfl rfl
  | tail _ q ih => exact ih.trans q.stays

theorem answer_stays (c : Connection) (g : Nat) (r : WriteResult) : Stays c (c.answer g r) :=
  .of_eq (answer_generation c g r) (answer_channel c g r)

theorem Stays.left (h : Stays c c') (hl : ∀ ch, c.channel = some ch → ch.generation ≠ g) :
    ∀ ch, c'.channel = some ch → ch.generation ≠ g := by
  intro ch hch
  rcases h.same with hnone | hsame
  · rw [hnone] at hch
    exact absurd hch (by simp)
  · rw [hch, Option.map_some] at hsame
    obtain ⟨old, hold, heq⟩ := Option.map_eq_some_iff.mp hsame.symm
    rw [← heq]
    exact hl old hold

/-- A fresh channel has a generation of its own. -/
theorem left_reopen {hd : Handover} (hg : g ≤ c.generation) :
    ∀ ch, (c.reopen hd).channel = some ch → ch.generation ≠ g := by
  intro ch hch
  obtain rfl := Option.some.inj ((reopen_channels c hd).1.symm.trans hch)
  dsimp only
  omega

/-- A replaced channel that carries nothing is given nothing when the channel is replaced again. -/
theorem Gone.reopen (h : Gone c g) (hd : Handover) : Gone (c.reopen hd) g := by
  have hpast := h.past
  refine ⟨?_, ?_, left_reopen hpast⟩
  · by_cases hg : g = c.generation
    · rcases reopen_cases c hd with ⟨-, heq⟩ | ⟨hk, -⟩ | ⟨hk, -⟩
      · rw [heq]
        exact h.carried
      · rw [hg]
        exact carried_reopen_lost hk
      · rw [hg]
        exact carried_reopen_lost hk
    · rw [carried_reopen_of_ne hd hg (by omega)]
      exact h.carried
  · rw [reopen_generation]
    omega

theorem Gone.accept (h : Gone c g) (hc : Coherent c) (ho : c.channel ≠ none) (r : AppendRequest) :
    Gone (c.accept r) g := by
  obtain ⟨ch, hch⟩ := Option.ne_none_iff_exists'.mp ho
  have hne : c.generation ≠ g := by
    rw [← hc.current ch hch]
    exact h.left ch hch
  rw [accept_eq hch]
  refine ⟨?_, h.past, ?_⟩
  · rw [carried_eq_nil]
    intro q hq
    rcases List.mem_append.mp hq with hq | hq
    · exact carried_eq_nil.mp h.carried q hq
    · rw [List.mem_singleton.mp hq]
      exact hne
  · intro ch' hch'
    obtain rfl := Option.some.inj hch'
    exact h.left ch hch

/-- **Every move leaves a channel gone that is gone.** -/
theorem Gone.move (h : Gone c g) (hc : Coherent c) (m : Move c c') : Gone c' g := by
  cases m with
  | quiet q =>
    exact ⟨carried_of_sublist q.sublist h.carried, Nat.le_trans h.past q.stays.later,
      q.stays.left h.left⟩
  | answer g' r =>
    refine ⟨carried_of_sublist ?_ h.carried, ?_, ?_⟩
    · rw [answer_queue]; exact List.eraseP_sublist
    · rw [answer_generation]; exact h.past
    · rw [answer_channel]; exact h.left
  | reopen hd => exact h.reopen hd
  | accept r ho => exact h.accept hc ho r
  | refuse r => exact ⟨h.carried, h.past, h.left⟩

theorem Gone.quiets (h : Gone c g) (hc : Coherent c) (q : Quiets c c') : Gone c' g :=
  hc.moves_induct (P := fun c => Gone c g) q.moves (fun hc hg m => hg.move hc m) h

theorem Gone.act (h : Gone c g) (hc : Coherent c) (a : Action) : Gone (c.act a) g :=
  hc.act_induct (P := fun c => Gone c g) a (fun hc hg m => hg.move hc m)
    (fun _ _ _ hg => ⟨hg.carried, hg.past, hg.left⟩) h

theorem gone_run (h : Gone c g) (hc : Coherent c) (as : List Action) : Gone (c.run as) g :=
  hc.run_induct (P := fun c => Gone c g) (fun a _ _ hcoh hgone => hgone.act hcoh a) h

theorem gone_of_lost {hd : Handover} (hk : c.channel.any hd.keeps = false) :
    Gone (c.reopen hd) c.generation :=
  ⟨carried_reopen_lost hk, by rw [reopen_generation]; exact Nat.le_succ _,
    left_reopen (Nat.le_refl _)⟩

/-- A recovery keeps no channel. -/
theorem gone_of_recover (cause : Option Failure) :
    Gone (c.reopen (.recover cause)) c.generation :=
  gone_of_lost (by cases c.channel <;> rfl)

/-- Without a channel every earlier one is gone. -/
theorem Coherent.gone_of_none (h : Coherent c) (hc : c.channel = none) (hg : g ≤ c.generation) :
    Gone c g :=
  ⟨carried_of_queue_nil (h.closed hc) g, hg, fun ch hch => absurd (hc.symm.trans hch) (by simp)⟩

/-- A channel that was current and stayed no longer is gone. -/
theorem Stays.gone (hs : Stays c c') (h : Coherent c) (h' : Coherent c') {ch : Channel}
    (hcur : c.channel = some ch)
    (hleft : ∀ ch', c'.channel = some ch' → ch'.generation ≠ ch.generation) :
    Gone c' ch.generation := by
  rcases hs.same with hnone | hsame
  · refine h'.gone_of_none hnone ?_
    rw [h.current ch hcur]
    exact hs.later
  · rw [hcur, Option.map_some] at hsame
    obtain ⟨ch', hch', heq⟩ := Option.map_eq_some_iff.mp hsame
    exact absurd heq (hleft ch' hch')

/-- **A channel that was closed or lost is gone**: it was current and is not any more, and it was
no usable channel that was replaced on request. -/
theorem Coherent.gone_act (h : Coherent c) {ch : Channel} (hcur : c.channel = some ch) {a : Action}
    (hleft : ∀ ch', (c.act a).channel = some ch' → ch'.generation ≠ ch.generation)
    (hlost : ch.isUsable = true → a.replaces = false) : Gone (c.act a) ch.generation := by
  have h' : Coherent (c.act a) := h.act a
  have hgen := h.current ch hcur
  have o := h.outcome a
  generalize c.act a = c' at o h' hleft ⊢
  cases o with
  | quiet _ _ q => exact q.stays.gone h h' hcur hleft
  | opens => rw [hgen]; exact gone_of_recover none
  | replace _ hk =>
    have hu : ch.isUsable = false := by
      cases hu : ch.isUsable with
      | false => rfl
      | true => exact absurd (hlost hu) (by simp [Action.replaces, hk])
    rw [hgen]
    exact gone_of_lost (by simp [hcur, Handover.keeps, hu])
  | refuse _ hc => exact absurd (hcur.symm.trans hc) (by simp)
  | accept _ hc =>
    rw [accept_eq hcur] at hleft
    exact (hleft (ch.send _) rfl rfl).elim
  | recover ha =>
    rw [hgen]
    exact (gone_of_recover none).accept (h.reopen ha _) (reopen_channel_ne c _) _
  | answer _ q _ q' =>
    exact ((q.stays.trans (answer_stays _ _ _)).trans q'.stays).gone h h' hcur hleft
  | reject q q' =>
    exact ((q.stays.trans (answer_stays _ _ _)).trans q'.stays).gone h h' hcur hleft
  | lose hm _ q =>
    rw [hgen]
    exact (gone_of_recover _).quiets (h.reopen (alive_of_meets hm) _) q
  | mark => exact absurd rfl (hleft ch hcur)
  | retry => exact absurd rfl (hleft ch hcur)

/-! ## No orphans -/

/-- **No write is orphaned.** In every run

* a queued write is carried by the current channel, or by a replaced one whose reader has not
  stopped, and what this reader meets is handled for it;
* a replaced channel whose reader has stopped carries nothing;
* a channel that was closed or lost carries nothing from then on, whatever comes later. -/
theorem no_orphaned_write {id : String} {o : Config.ConnectionOptions}
    (h : create id o = .ok c) (as : List Action) :
    (∀ q ∈ (c.run as).queue, CarriedNow (c.run as) q ∨ CarriedYet (c.run as) q) ∧
    (∀ ch ∈ (c.run as).past, ch.reader = .stopped → (c.run as).carried ch.generation = []) ∧
    ∀ (ch : Channel) (a : Action) (bs : List Action), (c.run as).channel = some ch →
      (∀ ch', ((c.run as).act a).channel = some ch' → ch'.generation ≠ ch.generation) →
      (ch.isUsable = true → a.replaces = false) →
      (c.run (as ++ a :: bs)).carried ch.generation = [] := by
  have hcoh := coherent_run h as
  refine ⟨fun q hq => hcoh.carried_now_or_yet hq, fun ch hch hs => hcoh.carried_of_stopped hch hs,
    fun ch a bs hcur hleft hlost => ?_⟩
  rw [run_append, run_cons]
  exact (gone_run (hcoh.gone_act hcur hleft hlost) (hcoh.act a) bs).carried

/-- A write that stayed with the channel that was replaced on request. -/
theorem carried_yet_after_reconnect :
    let c := (blank "s" {}).connect
    let as : List Action := [.call (.write {}), .call .reconnect]
    create "s" {} = .ok c ∧ (c.run as).queue = [⟨1, 0⟩] ∧ CarriedYet (c.run as) ⟨1, 0⟩ := by
  intro c as
  have hnew : create "s" {} = .ok c := create_eq (by decide)
  obtain ⟨hcarried, -, -⟩ := no_orphaned_write hnew as
  refine ⟨hnew, by decide, ?_⟩
  rcases hcarried ⟨1, 0⟩ (by decide) with hnow | hyet
  · exact absurd hnow.1 (by decide)
  · exact hyet

end Connection

end RowStream.Stream
