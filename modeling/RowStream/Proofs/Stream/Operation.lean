import Mathlib.Data.List.Basic
import RowStream.Stream.Connection

/-!
# What the operations of a connection change

One group of lemmas for each operation: which parts of the connection stay as they were, and what
the queue and the channels are afterwards. `carried` is how the queue is looked at: every operation
that touches the queue says what each channel carries after it.
-/

namespace RowStream.Stream.Connection

open Service (AppendRequest Failure)

variable {c : Connection} {g g' : Nat}

/-! ## Results -/

section Results

variable (c) (r : WriteResult) (n : Nat) (ns : List Nat)

@[simp] theorem resolve_queue : (c.resolve r n).queue = c.queue := rfl
@[simp] theorem resolve_channel : (c.resolve r n).channel = c.channel := rfl
@[simp] theorem resolve_past : (c.resolve r n).past = c.past := rfl
@[simp] theorem resolve_generation : (c.resolve r n).generation = c.generation := rfl
@[simp] theorem resolve_options : (c.resolve r n).options = c.options := rfl
@[simp] theorem resolve_alive : (c.resolve r n).alive = c.alive := rfl

/-- Giving results changes nothing but the writes and what was given. -/
theorem resolveAll_eq : c.resolveAll r ns =
    { c with writes := (c.resolveAll r ns).writes, given := (c.resolveAll r ns).given } := by
  induction ns generalizing c with
  | nil => rfl
  | cons n ns ih =>
    have h := ih (c.resolve r n)
    simp only [resolveAll, List.foldl_cons] at h ⊢
    rw [h]
    rfl

@[simp] theorem resolveAll_queue : (c.resolveAll r ns).queue = c.queue := by rw [resolveAll_eq]
@[simp] theorem resolveAll_channel : (c.resolveAll r ns).channel = c.channel := by
  rw [resolveAll_eq]
@[simp] theorem resolveAll_past : (c.resolveAll r ns).past = c.past := by rw [resolveAll_eq]
@[simp] theorem resolveAll_generation : (c.resolveAll r ns).generation = c.generation := by
  rw [resolveAll_eq]
@[simp] theorem resolveAll_options : (c.resolveAll r ns).options = c.options := by
  rw [resolveAll_eq]
@[simp] theorem resolveAll_alive : (c.resolveAll r ns).alive = c.alive := by rw [resolveAll_eq]
@[simp] theorem resolveAll_latestSchema : (c.resolveAll r ns).latestSchema = c.latestSchema := by
  rw [resolveAll_eq]
@[simp] theorem resolveAll_published : (c.resolveAll r ns).published = c.published := by
  rw [resolveAll_eq]

end Results

/-! ## What a channel carries -/

theorem mem_carried {n : Nat} : n ∈ c.carried g ↔ (⟨g, n⟩ : Queued) ∈ c.queue := by
  simp only [carried, List.mem_map, List.mem_filter, beq_iff_eq]
  constructor
  · rintro ⟨q, ⟨hq, rfl⟩, rfl⟩
    exact hq
  · exact fun h => ⟨_, ⟨h, rfl⟩, rfl⟩

theorem carried_eq_nil : c.carried g = [] ↔ ∀ q ∈ c.queue, q.generation ≠ g := by
  simp [carried]

theorem carried_of_queue_nil (h : c.queue = []) (g : Nat) : c.carried g = [] := by
  simp [carried, h]

theorem carried_congr {c' : Connection} (h : c'.queue = c.queue) (g : Nat) :
    c'.carried g = c.carried g := by
  simp [carried, h]

/-! ## Answering the oldest write of a channel -/

section Answer

variable (r : WriteResult)

theorem answer_of_nil (h : c.carried g = []) : c.answer g r = c := by
  have hnone : c.queue.find? (fun q => q.generation == g) = none := by
    rw [List.find?_eq_none]
    simpa using carried_eq_nil.mp h
  simp [answer, takeOldest, hnone]

theorem answer_of_cons {n : Nat} {ns : List Nat} (h : c.carried g = n :: ns) :
    c.answer g r =
      { c with queue := c.queue.eraseP fun q => q.generation == g }.resolve r n := by
  have hhead : (c.queue.find? fun q => q.generation == g).map (·.write) = some n := by
    rw [← List.head?_filter, ← List.head?_map]
    exact congrArg List.head? h
  obtain ⟨q, hq, rfl⟩ := Option.map_eq_some_iff.mp hhead
  simp [answer, takeOldest, hq]

/-- Answering takes the oldest entry of the channel out of the queue and gives at most one
result. -/
theorem answer_eq (c : Connection) (g : Nat) : c.answer g r =
    { c with
      queue := c.queue.eraseP fun q => q.generation == g
      writes := (c.answer g r).writes
      given := (c.answer g r).given } := by
  cases h : c.carried g with
  | nil =>
    have hkeep : (c.queue.eraseP fun q => q.generation == g) = c.queue := by
      rw [List.eraseP_of_forall_not]
      simpa using carried_eq_nil.mp h
    rw [answer_of_nil r h, hkeep]
  | cons n ns => rw [answer_of_cons r h]; rfl

variable (c g)

@[simp] theorem answer_queue :
    (c.answer g r).queue = c.queue.eraseP fun q => q.generation == g := by rw [answer_eq]
@[simp] theorem answer_channel : (c.answer g r).channel = c.channel := by rw [answer_eq]
@[simp] theorem answer_past : (c.answer g r).past = c.past := by rw [answer_eq]
@[simp] theorem answer_generation : (c.answer g r).generation = c.generation := by rw [answer_eq]
@[simp] theorem answer_options : (c.answer g r).options = c.options := by rw [answer_eq]
@[simp] theorem answer_alive : (c.answer g r).alive = c.alive := by rw [answer_eq]
@[simp] theorem answer_published : (c.answer g r).published = c.published := by rw [answer_eq]

end Answer

theorem filter_eraseP_self {α : Type} (p : α → Bool) :
    ∀ l : List α, (l.eraseP p).filter p = (l.filter p).tail
  | [] => rfl
  | x :: l => by
    cases hx : p x with
    | true => simp [hx]
    | false => simp [hx, filter_eraseP_self p l]

theorem filter_eraseP_of_disjoint {α : Type} {p q : α → Bool} (h : ∀ x, p x = true → q x = false) :
    ∀ l : List α, (l.eraseP p).filter q = l.filter q
  | [] => rfl
  | x :: l => by
    cases hx : p x with
    | true => simp [hx, h x hx]
    | false => simp [hx, List.filter_cons, filter_eraseP_of_disjoint h l]

theorem carried_answer_self (r : WriteResult) : (c.answer g r).carried g = (c.carried g).tail := by
  simp only [carried, answer_queue, filter_eraseP_self, List.map_tail]

theorem carried_answer_of_ne (h : g' ≠ g) (r : WriteResult) :
    (c.answer g r).carried g' = c.carried g' := by
  simp only [carried, answer_queue]
  rw [filter_eraseP_of_disjoint]
  intro q hq
  simp only [beq_iff_eq] at hq
  simp [hq, Ne.symm h]

/-! ## Failing writes -/

section Fail

variable (c) (p : Queued → Bool) (e : WriteError)

@[simp] theorem failWhere_queue : (c.failWhere p e).queue = c.queue.filter fun q => !p q := by
  simp [failWhere]
@[simp] theorem failWhere_channel : (c.failWhere p e).channel = c.channel := by simp [failWhere]
@[simp] theorem failWhere_past : (c.failWhere p e).past = c.past := by simp [failWhere]
@[simp] theorem failWhere_generation : (c.failWhere p e).generation = c.generation := by
  simp [failWhere]
@[simp] theorem failWhere_options : (c.failWhere p e).options = c.options := by simp [failWhere]
@[simp] theorem failWhere_alive : (c.failWhere p e).alive = c.alive := by simp [failWhere]
@[simp] theorem failWhere_latestSchema : (c.failWhere p e).latestSchema = c.latestSchema := by
  simp [failWhere]
@[simp] theorem failWhere_published : (c.failWhere p e).published = c.published := by
  simp [failWhere]

theorem carried_failGeneration_self (g : Nat) : (c.failGeneration g e).carried g = [] := by
  rw [carried_eq_nil]
  intro q hq
  simp only [failGeneration, failWhere_queue, List.mem_filter, Bool.not_eq_true'] at hq
  simpa using hq.2

theorem carried_failGeneration_of_ne (h : g' ≠ g) :
    (c.failGeneration g e).carried g' = c.carried g' := by
  simp only [carried, failGeneration, failWhere_queue, List.filter_filter]
  congr 1
  refine List.filter_congr fun q _ => ?_
  by_cases hq : q.generation = g'
  · simp [hq, h]
  · simp [hq]

@[simp] theorem shut_queue : (c.shut e).queue = [] := by simp [shut, dropChannel, failAll]
@[simp] theorem shut_channel : (c.shut e).channel = none := rfl
@[simp] theorem shut_past : (c.shut e).past = c.past ++ c.channel.toList.map Channel.shutdown := by
  simp [shut, dropChannel, failAll]
@[simp] theorem shut_generation : (c.shut e).generation = c.generation := by
  simp [shut, dropChannel, failAll]
@[simp] theorem shut_options : (c.shut e).options = c.options := by
  simp [shut, dropChannel, failAll]
@[simp] theorem shut_alive : (c.shut e).alive = c.alive := by simp [shut, dropChannel, failAll]
@[simp] theorem shut_published : (c.shut e).published = c.published := by
  simp [shut, dropChannel, failAll]

end Fail

/-! ## Channels -/

theorem mem_channels {ch : Channel} : ch ∈ c.channels ↔ ch ∈ c.past ∨ c.channel = some ch := by
  simp [channels, Option.mem_toList]

theorem channels_mapChannel (c : Connection) (g : Nat) (f : Channel → Channel) :
    (c.mapChannel g f).channels =
      c.channels.map fun ch => if ch.generation = g then f ch else ch := by
  simp only [channels, mapChannel, List.map_append]
  cases c.channel <;> rfl

/-! ## Sending -/

/-- Writes as they go out. -/
def outgoing (c : Connection) (ns : List Nat) : List Sent :=
  ns.filterMap fun n => (c.writes[n]?).map fun w => ⟨n, w.request⟩

theorem mem_outgoing {s : Sent} {ns : List Nat} : s ∈ c.outgoing ns ↔
    s.write ∈ ns ∧ (c.writes[s.write]?).map (·.request) = some s.request := by
  simp only [outgoing, List.mem_filterMap, Option.map_eq_some_iff]
  constructor
  · rintro ⟨n, hn, w, hw, rfl⟩
    exact ⟨hn, w, hw, rfl⟩
  · rintro ⟨hn, w, hw, hr⟩
    exact ⟨s.write, hn, w, hw, by rw [hr]⟩

theorem map_write_outgoing {ns : List Nat} (h : ∀ n ∈ ns, n < c.writes.length) :
    (c.outgoing ns).map (·.write) = ns := by
  induction ns with
  | nil => rfl
  | cons n ns ih =>
    obtain ⟨w, hn⟩ : ∃ w, c.writes[n]? = some w :=
      ⟨_, List.getElem?_eq_getElem (h n List.mem_cons_self)⟩
    have hns := ih fun m hm => h m (List.mem_cons_of_mem n hm)
    simp only [outgoing, List.filterMap_cons, hn, Option.map_some, List.map_cons] at hns ⊢
    rw [hns]

theorem transmit_eq {ch : Channel} (h : c.channel = some ch) (n : Nat) : c.transmit n =
    { c with channel := some { ch with sent := ch.sent ++ c.outgoing [n] } } := by
  unfold transmit outgoing
  cases hn : c.writes[n]? with
  | none => simp [hn, ← h]
  | some w => simp [hn, h, Channel.send]

theorem foldl_transmit {ch : Channel} (h : c.channel = some ch) (ns : List Nat) :
    ns.foldl transmit c =
      { c with channel := some { ch with sent := ch.sent ++ c.outgoing ns } } := by
  induction ns generalizing c ch with
  | nil => simp [outgoing, ← h]
  | cons n ns ih =>
    rw [List.foldl_cons, transmit_eq h, ih rfl]
    have hcons : c.outgoing (n :: ns) = c.outgoing [n] ++ c.outgoing ns := by
      simp [outgoing, List.filterMap_cons]
      split <;> simp
    rw [hcons, List.append_assoc]
    rfl

@[simp] theorem tearDown_queue (c : Connection) : c.tearDown.queue = c.queue := rfl
@[simp] theorem tearDown_past (c : Connection) : c.tearDown.past = c.past := rfl
@[simp] theorem tearDown_generation (c : Connection) : c.tearDown.generation = c.generation := rfl
@[simp] theorem tearDown_alive (c : Connection) : c.tearDown.alive = c.alive := rfl

/-- A channel that was marked as failed takes no more writes. -/
theorem isUsable_tearDown {ch : Channel} (h : c.tearDown.channel = some ch) :
    ch.isUsable = false := by
  obtain ⟨old, -, rfl⟩ := Option.map_eq_some_iff.mp h
  rfl

theorem accept_eq {ch : Channel} (h : c.channel = some ch) (r : AppendRequest) : c.accept r =
    { c with
      writes := c.writes ++ [{ request := c.complete r }]
      channel := some (ch.send ⟨c.writes.length, c.complete r⟩)
      queue := c.queue ++ [⟨c.generation, c.writes.length⟩] } := by
  have hch : (c.addWrite r).channel = some ch := h
  simp only [accept]
  rw [transmit_eq hch]
  simp [outgoing, Channel.send, addWrite]

/-! ## Replacing the channel -/

theorem reopen_keeps {h : Handover} (hk : c.channel.any h.keeps = true) :
    c.reopen h = c.openChannel (c.past ++ c.channel.toList.map Channel.retire) := if_pos hk

theorem reopen_resends {h : Handover} (hk : c.channel.any h.keeps = false)
    (hp : c.options.inFlightPolicy = .resend) : c.reopen h =
      { c with
        generation := c.generation + 1
        channel := some
          { generation := c.generation + 1, sent := c.outgoing (c.carried c.generation) }
        past := c.past ++ c.channel.toList.map Channel.shutdown
        queue := c.queue.map fun q => q.retag c.generation (c.generation + 1) } := by
  rw [reopen, if_neg (by simp [hk]), handOver]
  simp only [openChannel, hp, resend, dropChannel]
  rw [foldl_transmit rfl]
  rfl

theorem reopen_fails {h : Handover} (hk : c.channel.any h.keeps = false)
    (hp : c.options.inFlightPolicy = .fail) : c.reopen h =
      (c.openChannel (c.past ++ c.channel.toList.map Channel.shutdown)).failGeneration
        c.generation h.loss := by
  rw [reopen, if_neg (by simp [hk]), handOver]
  simp only [openChannel, hp]
  rfl

/-- The channel is kept, or it is lost and its writes go out again or fail. -/
theorem reopen_cases (c : Connection) (h : Handover) :
    (c.channel.any h.keeps = true ∧
      c.reopen h = c.openChannel (c.past ++ c.channel.toList.map Channel.retire)) ∨
    (c.channel.any h.keeps = false ∧ c.options.inFlightPolicy = .resend ∧ c.reopen h =
      { c with
        generation := c.generation + 1
        channel := some
          { generation := c.generation + 1, sent := c.outgoing (c.carried c.generation) }
        past := c.past ++ c.channel.toList.map Channel.shutdown
        queue := c.queue.map fun q => q.retag c.generation (c.generation + 1) }) ∨
    (c.channel.any h.keeps = false ∧ c.options.inFlightPolicy = .fail ∧ c.reopen h =
      (c.openChannel (c.past ++ c.channel.toList.map Channel.shutdown)).failGeneration
        c.generation h.loss) := by
  cases hk : c.channel.any h.keeps with
  | true => exact .inl ⟨rfl, reopen_keeps hk⟩
  | false =>
    cases hp : c.options.inFlightPolicy with
    | resend => exact .inr (.inl ⟨rfl, rfl, reopen_resends hk hp⟩)
    | fail => exact .inr (.inr ⟨rfl, rfl, reopen_fails hk hp⟩)

@[simp] theorem reopen_generation (c : Connection) (h : Handover) :
    (c.reopen h).generation = c.generation + 1 := by
  rcases reopen_cases c h with ⟨-, heq⟩ | ⟨-, -, heq⟩ | ⟨-, -, heq⟩ <;> rw [heq]
  · rfl
  · exact failWhere_generation _ _ _

@[simp] theorem reopen_alive (c : Connection) (h : Handover) :
    (c.reopen h).alive = c.alive := by
  rcases reopen_cases c h with ⟨-, heq⟩ | ⟨-, -, heq⟩ | ⟨-, -, heq⟩ <;> rw [heq]
  · rfl
  · exact failWhere_alive _ _ _

@[simp] theorem reopen_options (c : Connection) (h : Handover) :
    (c.reopen h).options = c.options := by
  rcases reopen_cases c h with ⟨-, heq⟩ | ⟨-, -, heq⟩ | ⟨-, -, heq⟩ <;> rw [heq]
  · rfl
  · exact failWhere_options _ _ _

@[simp] theorem reopen_latestSchema (c : Connection) (h : Handover) :
    (c.reopen h).latestSchema = c.latestSchema := by
  rcases reopen_cases c h with ⟨-, heq⟩ | ⟨-, -, heq⟩ | ⟨-, -, heq⟩ <;> rw [heq]
  · rfl
  · exact failWhere_latestSchema _ _ _

@[simp] theorem reopen_published (c : Connection) (h : Handover) :
    (c.reopen h).published = c.published := by
  rcases reopen_cases c h with ⟨-, heq⟩ | ⟨-, -, heq⟩ | ⟨-, -, heq⟩ <;> rw [heq]
  · rfl
  · exact failWhere_published _ _ _

/-- What goes out first on a fresh channel: the writes of a lost one if they are sent again. -/
def resent (c : Connection) (h : Handover) : List Sent :=
  if c.channel.any h.keeps = false ∧ c.options.inFlightPolicy = .resend then
    c.outgoing (c.carried c.generation)
  else []

theorem mem_resent {h : Handover} {s : Sent} (hs : s ∈ c.resent h) :
    c.channel.any h.keeps = false ∧ c.options.inFlightPolicy = .resend ∧
      s.write ∈ c.carried c.generation ∧
      (c.writes[s.write]?).map (·.request) = some s.request := by
  unfold resent at hs
  split at hs
  · rename_i hcond
    exact ⟨hcond.1, hcond.2, mem_outgoing.mp hs⟩
  · exact absurd hs List.not_mem_nil

/-- The fresh channel, and the channels before it with what became of the last of them. -/
theorem reopen_channels (c : Connection) (h : Handover) :
    (c.reopen h).channel = some { generation := c.generation + 1, sent := c.resent h } ∧
      (c.reopen h).past = c.past ++ c.channel.toList.map
        (if c.channel.any h.keeps then Channel.retire else Channel.shutdown) := by
  rcases reopen_cases c h with ⟨hk, heq⟩ | ⟨hk, hp, heq⟩ | ⟨hk, hp, heq⟩ <;> rw [heq, hk]
  · rw [resent, if_neg (by simp [hk])]
    exact ⟨rfl, rfl⟩
  · rw [resent, if_pos ⟨hk, hp⟩]
    exact ⟨rfl, rfl⟩
  · rw [resent, if_neg (by simp [hp]), failGeneration, failWhere_channel, failWhere_past]
    exact ⟨rfl, rfl⟩

theorem reopen_channel_ne (c : Connection) (h : Handover) : (c.reopen h).channel ≠ none := by
  rw [(reopen_channels c h).1]
  simp

/-! ## What channels carry after a replacement -/

/-- What a channel carries once the entries of a lost one went over to the next. -/
theorem carried_retag (c : Connection) (lost next g : Nat) :
    ({ c with queue := c.queue.map fun q => q.retag lost next } : Connection).carried g =
      (c.queue.filter fun q => (q.retag lost next).generation == g).map (·.write) := by
  simp only [carried, List.filter_map, List.map_map]
  refine List.map_congr_left fun q _ => ?_
  rw [Function.comp_apply, Queued.retag]
  split <;> rfl

theorem carried_retag_lost (c : Connection) {lost next : Nat} (hne : next ≠ lost) :
    ({ c with queue := c.queue.map fun q => q.retag lost next } : Connection).carried lost =
      [] := by
  rw [carried_retag, List.map_eq_nil_iff, List.filter_eq_nil_iff]
  intro q _
  rw [Queued.retag]
  split
  · simpa using hne
  · rename_i hgen
    simpa using hgen

theorem carried_retag_next {lost next : Nat} (hgt : c.carried next = []) :
    ({ c with queue := c.queue.map fun q => q.retag lost next } : Connection).carried next =
      c.carried lost := by
  have hnone := carried_eq_nil.mp hgt
  rw [carried_retag, carried]
  congr 1
  refine List.filter_congr fun q hq => ?_
  rw [Queued.retag]
  split
  · rename_i hgen
    simp [hgen]
  · rename_i hgen
    simp [hgen, hnone q hq]

theorem carried_retag_of_ne {lost next : Nat} (hg : g ≠ lost) (hg' : g ≠ next) :
    ({ c with queue := c.queue.map fun q => q.retag lost next } : Connection).carried g =
      c.carried g := by
  rw [carried_retag, carried]
  congr 1
  refine List.filter_congr fun q _ => ?_
  rw [Queued.retag]
  split
  · rename_i hgen
    simp [hgen, Ne.symm hg, Ne.symm hg']
  · rfl

/-- Nothing stays with a lost channel. -/
theorem carried_reopen_lost {h : Handover} (hk : c.channel.any h.keeps = false) :
    (c.reopen h).carried c.generation = [] := by
  rcases reopen_cases c h with ⟨hk', -⟩ | ⟨-, -, heq⟩ | ⟨-, -, heq⟩
  · exact absurd (hk.symm.trans hk') (by simp)
  · rw [heq]
    exact carried_retag_lost c (Nat.succ_ne_self _)
  · rw [heq]
    exact carried_failGeneration_self _ _ _

/-- Replacing the channel changes nothing for the channels replaced before. -/
theorem carried_reopen_of_ne (h : Handover) (hg : g ≠ c.generation)
    (hg' : g ≠ c.generation + 1) : (c.reopen h).carried g = c.carried g := by
  rcases reopen_cases c h with ⟨-, heq⟩ | ⟨-, -, heq⟩ | ⟨-, -, heq⟩ <;> rw [heq]
  · rfl
  · exact carried_retag_of_ne hg hg'
  · rw [carried_failGeneration_of_ne _ _ hg]
    rfl

/-- The other side of a fresh channel takes requests. -/
theorem reaches_reopen (c : Connection) (h : Handover) : (c.reopen h).reaches = true := by
  rw [reaches, (reopen_channels c h).1]
  rfl

/-! ## Writes -/

theorem write_of_none (hc : c.channel = none) (r : AppendRequest) :
    c.write r = (c.writes.length, c.refuse r) := by
  simp [write, hc]

/-- On a channel that can send, a request gets out. -/
theorem write_of_usable {ch : Channel} (hc : c.channel = some ch) (hu : ch.isUsable = true)
    (r : AppendRequest) : c.write r = (c.writes.length, c.accept r) := by
  have hreach : c.reaches = true := by
    simp only [Channel.isUsable, Bool.and_eq_true] at hu
    simp [reaches, hc, hu.2]
  simp only [write, hc, hu, if_true, hreach]

/-- It gets out as well on the channel that takes the place of one that cannot send. -/
theorem write_of_unusable {ch : Channel} (hc : c.channel = some ch) (hu : ch.isUsable = false)
    (r : AppendRequest) : c.write r =
      ((c.reopen (.recover none)).writes.length, (c.reopen (.recover none)).accept r) := by
  have hreach := reaches_reopen c (.recover none)
  simp only [write, hc, hu, Bool.false_eq_true, if_false, hreach, if_true]

/-- **A request is refused only where there is no channel.** -/
theorem write_cases (c : Connection) (r : AppendRequest) :
    (c.channel = none ∧ c.write r = (c.writes.length, c.refuse r)) ∨
      ∃ c₁ ch, (c₁ = c ∨ c₁ = c.reopen (.recover none)) ∧ c₁.channel = some ch ∧
        c.write r = (c₁.writes.length, c₁.accept r) := by
  cases hc : c.channel with
  | none => exact .inl ⟨rfl, write_of_none hc r⟩
  | some ch =>
    cases hu : ch.isUsable with
    | true => exact .inr ⟨c, ch, .inl rfl, hc, write_of_usable hc hu r⟩
    | false =>
      exact .inr ⟨_, _, .inr rfl, (reopen_channels c _).1, write_of_unusable hc hu r⟩

/-! ## Failures of the channel -/

/-- A call that could not be opened leaves no usable channel, and no new one. -/
theorem onFailure_refused (c : Connection) (f : Failure) :
    (c.onFailure f false).generation = c.generation ∧
      ∀ ch, (c.onFailure f false).channel = some ch → ch.isUsable = false := by
  simp only [onFailure, Bool.false_eq_true, if_false]
  split
  · exact ⟨shut_generation _ _, fun ch hch => by simp [onSchemaMismatch, publish] at hch⟩
  · split
    · exact ⟨rfl, fun ch hch => isUsable_tearDown hch⟩
    · split
      · refine ⟨answer_generation _ _ _, fun ch hch => ?_⟩
        rw [answer_channel] at hch
        exact isUsable_tearDown hch
      · exact ⟨rfl, fun ch hch => isUsable_tearDown hch⟩

end RowStream.Stream.Connection
