import Mathlib.Logic.Relation
import RowStream.Proofs.Stream.Operation
import RowStream.Proofs.Stream.Run

/-!
# Coherent connections

Every action of a run is made of a few moves (`Move`): a fresh channel, a new write that is sent or
refused, an answer to the oldest write of a channel, and quiet moves (`Quiet`), which add no write
and send nothing. What a run keeps is proved for the moves, one case each.

`Coherent` is what all moves keep of channels, readers and queue. Channels have rising generations
and the current one the latest; without a channel nothing is queued; a queued write is carried by
the current channel or by a replaced one whose reader has not stopped.

* `Coherent.move`: every move keeps coherence.
-/

namespace RowStream.Stream

open Service (AppendRequest)

/-- The reader of a channel stops after the item, unless it goes `on`. -/
def Incoming.stops : Incoming → (on : Bool) → Bool
  | .opened, _ => false
  | .refused _, _ | .ended, _ => true
  | .response _, on | .failure _, on => !on

namespace Channel

variable (ch : Channel) (i : Incoming) (on : Bool)

@[simp] theorem meet_generation : (ch.meet i on).generation = ch.generation := by
  cases i <;> simp only [meet] <;> split <;> rfl

@[simp] theorem meet_sent : (ch.meet i on).sent = ch.sent := by
  cases i <;> simp only [meet] <;> split <;> rfl

@[simp] theorem meet_sending : (ch.meet i on).sending = ch.sending := by
  cases i <;> simp only [meet] <;> split <;> rfl

theorem meet_reader_of_stops {ch : Channel} {i : Incoming} {on : Bool} (h : i.stops on = true) :
    (ch.meet i on).reader = .stopped := by
  cases i <;> simp_all [Incoming.stops, meet]

theorem meet_reader_of_not_stops {ch : Channel} {i : Incoming} {on : Bool}
    (h : i.stops on = false) (hr : ch.reader ≠ .stopped) : (ch.meet i on).reader ≠ .stopped := by
  cases i with
  | opened =>
    simp only [meet]
    split
    · simp
    · exact hr
  | _ => simp_all [Incoming.stops, meet]

theorem meet_isUsable_of_not {ch : Channel} {i : Incoming} {on : Bool}
    (h : ch.isUsable = false) : (ch.meet i on).isUsable = false := by
  cases i <;> simp_all [isUsable, meet] <;> split <;> simp_all

end Channel

namespace Connection

/-! ## Moves -/

/-- What happens at once without a new write, without sending and without a single answer. -/
inductive Quiet (c : Connection) : Connection → Prop
  | publish (e : Event) : Quiet c (c.publish e)
  | learn (s : Table.Schema) : Quiet c { c with latestSchema := some s }
  | fail (g : Nat) (e : WriteError) (hg : g ≠ c.generation) : Quiet c (c.failGeneration g e)
  | shut (e : WriteError) : Quiet c (c.shut e)
  | bump (hc : c.channel = none) : Quiet c { c with generation := c.generation + 1 }
  | letGo (hc : c.channel = none) : Quiet c { c with alive := false }
  | tearDown : Quiet c c.tearDown
  | hangUp (g : Nat) : Quiet c (c.hangUp g)
  | meet (g : Nat) (i : Incoming) (on : Bool)
      (hp : i.stops on = true → g ≠ c.generation → c.carried g = [])
      (hc : i.stops on = true → g = c.generation →
        ∀ ch, c.channel = some ch → ch.isUsable = false) :
      Quiet c (c.mapChannel g fun ch => ch.meet i on)

/-- What happens to a connection at once. -/
inductive Move (c : Connection) : Connection → Prop
  | quiet {c' : Connection} (q : Quiet c c') : Move c c'
  | answer (g : Nat) (r : WriteResult) : Move c (c.answer g r)
  | reopen (h : Handover) (ha : c.alive = true) : Move c (c.reopen h)
  | accept (r : AppendRequest) (hc : c.channel ≠ none) : Move c (c.accept r)
  | refuse (r : AppendRequest) : Move c (c.refuse r)

/-- Some quiet moves, one after the other. -/
abbrev Quiets : Connection → Connection → Prop := Relation.ReflTransGen Quiet

/-- Some moves, one after the other. -/
abbrev Moves : Connection → Connection → Prop := Relation.ReflTransGen Move

theorem Quiets.moves {c c' : Connection} (q : Quiets c c') : Moves c c' := by
  induction q with
  | refl => exact .refl
  | tail _ q ih => exact ih.tail (.quiet q)

/-- The generations of the channels, oldest first. -/
def generations (c : Connection) : List Nat := c.channels.map (·.generation)

/-- Channels, readers and queue of a connection agree. -/
structure Coherent (c : Connection) : Prop where
  rising : c.generations.Pairwise (· < ·)
  bounded : ∀ g ∈ c.generations, g ≤ c.generation
  current : ∀ ch, c.channel = some ch → ch.generation = c.generation
  closed : c.channel = none → c.queue = []
  carrier : ∀ q ∈ c.queue, q.generation = c.generation ∨
    ∃ ch ∈ c.past, ch.generation = q.generation ∧ ch.reader ≠ .stopped
  failed : ∀ ch, c.channel = some ch → ch.reader = .stopped → ch.isUsable = false
  held : c.alive = false → c.channel = none

variable {c c' : Connection}

/-! ## What coherence says of channels -/

theorem mem_generations {ch : Channel} (h : ch ∈ c.channels) : ch.generation ∈ c.generations :=
  List.mem_map_of_mem h

theorem find?_generation : ∀ {l : List Channel}, (l.map (·.generation)).Pairwise (· < ·) →
    ∀ {ch : Channel}, ch ∈ l → l.find? (fun x => x.generation == ch.generation) = some ch
  | [], _, _, hm => absurd hm List.not_mem_nil
  | x :: l, hr, ch, hm => by
    rw [List.map_cons, List.pairwise_cons] at hr
    rcases List.mem_cons.mp hm with rfl | hm'
    · simp
    · have hlt := hr.1 ch.generation (List.mem_map_of_mem hm')
      rw [List.find?_cons_of_neg (by simp; omega)]
      exact find?_generation hr.2 hm'

/-- The channel of a generation is found. -/
theorem Coherent.channel?_of_mem (h : Coherent c) {ch : Channel} (hm : ch ∈ c.channels) :
    c.channel? ch.generation = some ch :=
  find?_generation h.rising hm

theorem channel?_some {g : Nat} {ch : Channel} (h : c.channel? g = some ch) :
    ch ∈ c.channels ∧ ch.generation = g :=
  ⟨List.mem_of_find?_eq_some h, by simpa using List.find?_some h⟩

/-- No two channels have one generation. -/
theorem Coherent.eq_of_generation (h : Coherent c) {a b : Channel} (ha : a ∈ c.channels)
    (hb : b ∈ c.channels) (hab : a.generation = b.generation) : a = b := by
  have hfound := h.channel?_of_mem ha
  rw [hab, h.channel?_of_mem hb] at hfound
  exact (Option.some.inj hfound).symm

/-- While a channel is there, the replaced ones are older. -/
theorem Coherent.past_lt (h : Coherent c) {ch old : Channel} (hc : c.channel = some ch)
    (ho : old ∈ c.past) : old.generation < c.generation := by
  rw [← h.current ch hc]
  have hr := h.rising
  rw [generations, channels, hc, List.map_append, List.pairwise_append] at hr
  exact hr.2.2 old.generation (List.mem_map_of_mem ho) ch.generation (by simp)

/-- No generation after the current one is carried. -/
theorem Coherent.carried_of_gt (h : Coherent c) {g : Nat} (hg : c.generation < g) :
    c.carried g = [] := by
  rw [carried_eq_nil]
  intro q hq heq
  rcases h.carrier q hq with hcur | ⟨ch, hch, hgen, -⟩
  · omega
  · have hle := h.bounded ch.generation (mem_generations (mem_channels.mpr (.inl hch)))
    omega

/-! ## Moves keep coherence -/

/-- Taking writes out of the queue keeps coherence. -/
theorem Coherent.of_subset (h : Coherent c) (hch : c'.channel = c.channel)
    (hpast : c'.past = c.past) (hgen : c'.generation = c.generation) (hal : c'.alive = c.alive)
    (hq : ∀ q ∈ c'.queue, q ∈ c.queue) : Coherent c' := by
  have hgens : c'.generations = c.generations := by simp only [generations, channels, hch, hpast]
  refine ⟨?_, ?_, ?_, ?_, ?_, ?_, ?_⟩
  · rw [hgens]; exact h.rising
  · rw [hgens, hgen]; exact h.bounded
  · rw [hch, hgen]; exact h.current
  · intro hnone
    rw [hch] at hnone
    refine List.eq_nil_iff_forall_not_mem.mpr fun q hmem => ?_
    have hold := hq q hmem
    rw [h.closed hnone] at hold
    exact List.not_mem_nil hold
  · intro q hmem
    rw [hgen, hpast]
    exact h.carrier q (hq q hmem)
  · rw [hch]; exact h.failed
  · rw [hal, hch]; exact h.held

/-- Changing channels keeps coherence, as long as no reader that is still needed stops. -/
theorem Coherent.of_map (h : Coherent c) {f k : Channel → Channel}
    (hf : ∀ ch, (f ch).generation = ch.generation) (hk : ∀ ch, (k ch).generation = ch.generation)
    (hpast : ∀ ch ∈ c.past, ch.reader ≠ .stopped → (k ch).reader = .stopped →
      c.carried ch.generation = [])
    (hcur : ∀ ch, c.channel = some ch → (f ch).reader = .stopped → (f ch).isUsable = false) :
    Coherent { c with channel := c.channel.map f, past := c.past.map k } := by
  have hgens : ({ c with channel := c.channel.map f, past := c.past.map k } :
      Connection).generations = c.generations := by
    cases hch : c.channel <;> simp [generations, channels, hch, hf, hk]
  refine ⟨?_, ?_, ?_, ?_, ?_, ?_, ?_⟩
  · rw [hgens]; exact h.rising
  · rw [hgens]; exact h.bounded
  · intro ch hch
    obtain ⟨old, hold, rfl⟩ := Option.map_eq_some_iff.mp hch
    rw [hf]
    exact h.current old hold
  · intro hnone
    exact h.closed (Option.map_eq_none_iff.mp hnone)
  · intro q hq
    rcases h.carrier q hq with hcur' | ⟨ch, hch, hgen, hread⟩
    · exact .inl hcur'
    · refine .inr ⟨k ch, List.mem_map_of_mem hch, by rw [hk, hgen], fun hstop => ?_⟩
      have hnil := hpast ch hch hread hstop
      exact carried_eq_nil.mp hnil q hq hgen.symm
  · intro ch hch
    obtain ⟨old, hold, rfl⟩ := Option.map_eq_some_iff.mp hch
    exact hcur old hold
  · intro hdead
    exact Option.map_eq_none_iff.mpr (h.held hdead)

theorem Coherent.shut (h : Coherent c) (e : WriteError) : Coherent (c.shut e) := by
  have hgens : (c.shut e).generations = c.generations := by
    cases hch : c.channel <;> simp [generations, channels, hch, Channel.shutdown]
  refine ⟨?_, ?_, ?_, fun _ => by simp, ?_, ?_, fun _ => by simp⟩
  · rw [hgens]; exact h.rising
  · rw [hgens, shut_generation]; exact h.bounded
  · intro ch hch; simp at hch
  · intro q hq; simp at hq
  · intro ch hch; simp at hch

/-- A fresh channel in the place of the current one keeps coherence, if what stays queued is read
on. -/
theorem Coherent.of_open (h : Coherent c) {k : Channel → Channel}
    (hk : ∀ ch, (k ch).generation = ch.generation) {fresh : Channel}
    (hpast : c'.past = c.past ++ c.channel.toList.map k) (hch : c'.channel = some fresh)
    (hf : fresh.generation = c.generation + 1) (hread : fresh.reader ≠ .stopped)
    (hgen : c'.generation = c.generation + 1) (hal : c'.alive = true)
    (hq : ∀ q ∈ c'.queue, q.generation = c.generation + 1 ∨
      ∃ ch ∈ c'.past, ch.generation = q.generation ∧ ch.reader ≠ .stopped) : Coherent c' := by
  have hgens : c'.generations = c.generations ++ [c.generation + 1] := by
    cases hold : c.channel <;> simp [generations, channels, hpast, hch, hold, hk, hf]
  refine ⟨?_, ?_, ?_, ?_, ?_, ?_, ?_⟩
  · rw [hgens, List.pairwise_append]
    refine ⟨h.rising, List.pairwise_singleton _ _, fun g hg g' hg' => ?_⟩
    rw [List.mem_singleton.mp hg']
    exact Nat.lt_succ_of_le (h.bounded g hg)
  · intro g hg
    rw [hgens] at hg
    rw [hgen]
    rcases List.mem_append.mp hg with hg | hg
    · exact Nat.le_succ_of_le (h.bounded g hg)
    · exact Nat.le_of_eq (List.mem_singleton.mp hg)
  · intro ch hcur
    obtain rfl := Option.some.inj (hch.symm.trans hcur)
    rw [hf, hgen]
  · intro hnone
    rw [hch] at hnone
    exact absurd hnone (by simp)
  · rw [hgen]; exact hq
  · intro ch hcur hstop
    obtain rfl := Option.some.inj (hch.symm.trans hcur)
    exact absurd hstop hread
  · intro hdead
    exact absurd (hal.symm.trans hdead) (by simp)

theorem any_keeps {hd : Handover} (hk : c.channel.any hd.keeps = true) :
    ∃ old, c.channel = some old ∧ old.isUsable = true ∧ hd = .drain := by
  cases hold : c.channel with
  | none => simp [hold] at hk
  | some old =>
    rw [hold, Option.any_some] at hk
    cases hd with
    | drain => exact ⟨old, rfl, hk, rfl⟩
    | recover cause => exact absurd hk (by simp [Handover.keeps])

/-- Replacing the channel keeps coherence: a queued write stays with a usable channel, which is read
on, or leaves a lost one. -/
theorem Coherent.reopen (h : Coherent c) (ha : c.alive = true) (hd : Handover) :
    Coherent (c.reopen hd) := by
  obtain ⟨hch', hpast'⟩ := reopen_channels c hd
  have hkept {ch : Channel} (hch : ch ∈ c.past) : ch ∈ (c.reopen hd).past := by
    rw [hpast']
    exact List.mem_append_left _ hch
  have hq : ∀ q ∈ (c.reopen hd).queue, q.generation = c.generation + 1 ∨
      ∃ ch ∈ (c.reopen hd).past, ch.generation = q.generation ∧ ch.reader ≠ .stopped := by
    intro q hq
    rcases reopen_cases c hd with ⟨hk, heq⟩ | ⟨-, -, heq⟩ | ⟨-, -, heq⟩
    · right
      obtain ⟨old, hold, husable, -⟩ := any_keeps hk
      rw [heq] at hq
      rcases h.carrier q hq with hcur | ⟨ch, hch, hgen, hread⟩
      · refine ⟨old.retire, ?_, (h.current old hold).trans hcur.symm, fun hstop => ?_⟩
        · rw [hpast', hk, hold]
          simp
        · rw [h.failed old hold hstop] at husable
          exact Bool.false_ne_true husable
      · exact ⟨ch, hkept hch, hgen, hread⟩
    · rw [heq] at hq
      obtain ⟨old, hold, rfl⟩ := List.mem_map.mp hq
      unfold Queued.retag
      split
      · exact .inl rfl
      · rename_i hne
        obtain ⟨ch, hch, hgen, hread⟩ := (h.carrier old hold).resolve_left hne
        exact .inr ⟨ch, hkept hch, hgen, hread⟩
    · rw [heq, failGeneration, failWhere_queue, List.mem_filter] at hq
      obtain ⟨ch, hch, hgen, hread⟩ := (h.carrier q hq.1).resolve_left (by simpa using hq.2)
      exact .inr ⟨ch, hkept hch, hgen, hread⟩
  refine h.of_open ?_ hpast' hch' rfl (by simp) (reopen_generation c hd)
    ((reopen_alive c hd).trans ha) hq
  intro ch
  split <;> rfl

theorem Coherent.accept (h : Coherent c) (hc : c.channel ≠ none) (r : AppendRequest) :
    Coherent (c.accept r) := by
  obtain ⟨ch, hch⟩ := Option.ne_none_iff_exists'.mp hc
  rw [accept_eq hch]
  have hmap := h.of_map (f := fun ch => ch.send ⟨c.writes.length, c.complete r⟩) (k := id)
    (fun _ => rfl) (fun _ => rfl) (fun _ _ hread hstop => absurd hstop hread) h.failed
  rw [hch, Option.map_some, List.map_id] at hmap
  refine ⟨hmap.rising, hmap.bounded, hmap.current, ?_, ?_, hmap.failed, hmap.held⟩
  · rintro ⟨⟩
  · intro q hq
    rcases List.mem_append.mp hq with hq | hq
    · exact h.carrier q hq
    · rw [List.mem_singleton.mp hq]
      exact .inl rfl

/-- Marking the channel as failed keeps coherence. -/
theorem Coherent.tearDown (h : Coherent c) : Coherent c.tearDown := by
  have hmap := h.of_map (f := fun ch => { ch with tornDown := true }) (k := id)
    (fun _ => rfl) (fun _ => rfl) (fun _ _ hread hstop => absurd hstop hread)
    (fun _ _ _ => by simp [Channel.isUsable])
  rw [List.map_id] at hmap
  exact hmap

/-- That the other side of a channel hangs up keeps coherence: no reader stops for it. -/
theorem Coherent.hangUp (h : Coherent c) (g : Nat) : Coherent (c.hangUp g) := by
  refine h.of_map ?_ ?_ ?_ ?_
  · intro ch
    split <;> rfl
  · intro ch
    split <;> rfl
  · intro ch _ hread hstop
    split at hstop <;> exact absurd hstop hread
  · intro ch hch hstop
    have hold : ch.isUsable = false := h.failed ch hch (by split at hstop <;> exact hstop)
    split
    · simp [Channel.isUsable]
    · exact hold

/-- A reader that stops keeps coherence, if nothing is left to it. -/
theorem Coherent.meet (h : Coherent c) {g : Nat} {i : Incoming} {on : Bool}
    (hp : i.stops on = true → g ≠ c.generation → c.carried g = [])
    (hc : i.stops on = true → g = c.generation →
      ∀ ch, c.channel = some ch → ch.isUsable = false) :
    Coherent (c.mapChannel g fun ch => ch.meet i on) := by
  refine h.of_map ?_ ?_ ?_ ?_
  · intro ch
    split <;> simp
  · intro ch
    split <;> simp
  · intro ch hch hread hstop
    split at hstop
    · rename_i hg
      cases hs : i.stops on with
      | false => exact absurd hstop (Channel.meet_reader_of_not_stops hs hread)
      | true =>
        rw [hg]
        by_cases hgen : g = c.generation
        · -- a replaced channel with the latest generation: there is no current one
          cases hcur : c.channel with
          | none => exact carried_of_queue_nil (h.closed hcur) g
          | some cur =>
            have hlt := h.past_lt hcur hch
            omega
        · exact hp hs hgen
    · exact absurd hstop hread
  · intro ch hch hstop
    split
    · rename_i hg
      rw [if_pos hg] at hstop
      refine Channel.meet_isUsable_of_not ?_
      cases hs : i.stops on with
      | false =>
        refine h.failed ch hch (Decidable.not_not.mp fun hread => ?_)
        exact Channel.meet_reader_of_not_stops hs hread hstop
      | true => exact hc hs (hg.symm.trans (h.current ch hch)) ch hch
    · rename_i hg
      rw [if_neg hg] at hstop
      exact h.failed ch hch hstop

theorem Coherent.quiet (h : Coherent c) (m : Quiet c c') : Coherent c' := by
  cases m with
  | publish e => exact h.of_subset rfl rfl rfl rfl fun _ hq => hq
  | learn s => exact h.of_subset rfl rfl rfl rfl fun _ hq => hq
  | fail g e hg =>
    refine h.of_subset (by simp [failGeneration]) (by simp [failGeneration])
      (by simp [failGeneration]) (by simp [failGeneration]) fun q hq => ?_
    rw [failGeneration, failWhere_queue] at hq
    exact List.mem_of_mem_filter hq
  | shut e => exact h.shut e
  | bump hc =>
    refine ⟨h.rising, fun g hg => Nat.le_succ_of_le (h.bounded g hg), ?_, h.closed, ?_, h.failed,
      h.held⟩
    · intro ch hch
      exact absurd (hc.symm.trans hch) (by simp)
    · intro q hq
      rw [show c.queue = [] from h.closed hc] at hq
      exact absurd hq List.not_mem_nil
  | letGo hc =>
    exact ⟨h.rising, h.bounded, h.current, h.closed, h.carrier, h.failed, fun _ => hc⟩
  | tearDown => exact h.tearDown
  | hangUp g => exact h.hangUp g
  | meet g i on hp hc => exact h.meet hp hc

/-- **Every move keeps coherence.** -/
theorem Coherent.move (h : Coherent c) (m : Move c c') : Coherent c' := by
  cases m with
  | quiet q => exact h.quiet q
  | answer g r =>
    refine h.of_subset (by simp) (by simp) (by simp) (by simp) fun q hq => ?_
    rw [answer_queue] at hq
    exact List.mem_of_mem_eraseP hq
  | reopen hd ha => exact h.reopen ha hd
  | accept r hc => exact h.accept hc r
  | refuse r => exact h.of_subset rfl rfl rfl rfl fun _ hq => hq

theorem Coherent.moves (h : Coherent c) (m : Moves c c') : Coherent c' := by
  induction m with
  | refl => exact h
  | tail _ m ih => exact ih.move m

theorem Coherent.quiets (h : Coherent c) (m : Quiets c c') : Coherent c' := h.moves m.moves

end Connection

end RowStream.Stream
