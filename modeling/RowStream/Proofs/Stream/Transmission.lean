import Mathlib.Data.List.Sort
import RowStream.Proofs.Stream.Writes

/-!
# What goes out on the channels

The logs of a connection say what went out on each of its channels. Only two things add to them: a
new write goes out on the current channel, and the writes of a lost channel go out once more on the
one that takes its place, if the options say so (`SentAgain`).

* `act_sentOn`: what one action adds to the logs, and why.
* `logged_run`: every log is in the order of the writes and holds their requests.
* `transmission_discipline`: what goes out on the channels, in any run.
-/

namespace RowStream.Stream

open Service (AppendRequest Failure)

/-- What went out on a channel, with its generation. -/
def Channel.log (ch : Channel) : Nat × List Sent := (ch.generation, ch.sent)

theorem Channel.map_log {f : Channel → Channel} (h : ∀ ch, (f ch).log = ch.log)
    (l : List Channel) : (l.map f).map log = l.map log := by
  rw [List.map_map]
  exact List.map_congr_left fun ch _ => h ch

namespace Connection

variable {c c' c'' : Connection} {g : Nat}

/-! ## Logs -/

/-- The logs of the channels, oldest channel first. -/
def logs (c : Connection) : List (Nat × List Sent) := c.channels.map Channel.log

theorem sentOn_eq (c : Connection) (g : Nat) :
    c.sentOn g = ((c.logs.find? fun l => l.1 == g).map (·.2)).getD [] := by
  rw [sentOn, channel?, logs, List.find?_map, Option.map_map]
  rfl

theorem mem_sentOn {s : Sent} (h : s ∈ c.sentOn g) : ∃ l ∈ c.logs, l.1 = g ∧ c.sentOn g = l.2 := by
  rw [sentOn_eq] at h ⊢
  cases hf : c.logs.find? fun l => l.1 == g with
  | none => simp [hf] at h
  | some l => exact ⟨l, List.mem_of_find?_eq_some hf, by simpa using List.find?_some hf, rfl⟩

theorem logs_eq (c : Connection) :
    c.logs = c.past.map Channel.log ++ c.channel.toList.map Channel.log :=
  List.map_append

theorem generations_eq (c : Connection) : c.generations = c.logs.map (·.1) := by
  simp [generations, Connection.logs, Channel.log]

theorem generations_of_logs (h : c'.logs = c.logs) : c'.generations = c.generations := by
  rw [generations_eq, generations_eq, h]

/-- Changing channels, but not what went out on them. -/
theorem logs_of_map {f k : Channel → Channel} (hf : ∀ ch, (f ch).log = ch.log)
    (hk : ∀ ch, (k ch).log = ch.log) :
    ({ c with channel := c.channel.map f, past := c.past.map k } : Connection).logs = c.logs := by
  rw [logs_eq, logs_eq, Channel.map_log hk]
  cases c.channel with
  | none => rfl
  | some ch => simp [hf ch]

/-- Quiet moves send nothing. -/
theorem Quiet.logs (q : Quiet c c') : c'.logs = c.logs := by
  cases q with
  | fail g e => simp [logs_eq, failGeneration]
  | shut e =>
    have hlast : (c.channel.toList.map Channel.shutdown).map Channel.log =
        c.channel.toList.map Channel.log :=
      Channel.map_log (f := Channel.shutdown) (fun _ => rfl) _
    rw [logs_eq, logs_eq, shut_past, shut_channel, List.map_append, hlast]
    exact List.append_nil _
  | tearDown =>
    have hmap := logs_of_map (c := c) (f := fun ch => { ch with tornDown := true }) (k := id)
      (fun _ => rfl) fun _ => rfl
    rwa [List.map_id] at hmap
  | hangUp g =>
    refine logs_of_map ?_ ?_ <;>
    · intro ch
      split <;> rfl
  | meet g i on =>
    refine logs_of_map ?_ ?_ <;>
    · intro ch
      split <;> simp [Channel.log]
  | _ => rfl

theorem Quiets.logs (q : Quiets c c') : c'.logs = c.logs := by
  induction q with
  | refl => rfl
  | tail _ q ih => exact q.logs.trans ih

theorem answer_logs (c : Connection) (g : Nat) (r : WriteResult) :
    (c.answer g r).logs = c.logs := by
  simp [logs_eq]

/-- Replacing the channel opens a log. -/
theorem reopen_logs (c : Connection) (h : Handover) :
    (c.reopen h).logs = c.logs ++ [(c.generation + 1, c.resent h)] := by
  obtain ⟨hch, hpast⟩ := reopen_channels c h
  rw [logs_eq, hch, hpast, List.map_append, Channel.map_log, ← logs_eq]
  · rfl
  · intro ch
    split <;> rfl

/-- A new write goes to the end of the current log. -/
theorem accept_logs {ch : Channel} (h : c.channel = some ch) (r : AppendRequest) :
    ∃ older, c.logs = older ++ [(ch.generation, ch.sent)] ∧ (c.accept r).logs =
      older ++ [(ch.generation, ch.sent ++ [⟨c.writes.length, c.complete r⟩])] := by
  refine ⟨c.past.map Channel.log, ?_, ?_⟩
  · rw [logs_eq, h]
    rfl
  · rw [accept_eq h, logs_eq]
    rfl

/-! ## What an action adds -/

/-- Everything that `c'` has in a log and `c` has not is at its end, and `P` holds of it. -/
def Adds (P : Nat → Sent → Prop) (c c' : Connection) : Prop :=
  ∀ g, ∃ new, c'.sentOn g = c.sentOn g ++ new ∧ ∀ s ∈ new, P g s

theorem adds_of_logs {P : Nat → Sent → Prop} (h : c'.logs = c.logs) : Adds P c c' :=
  fun g => ⟨[], by rw [sentOn_eq, sentOn_eq, h, List.append_nil], fun _ hs => absurd hs (by simp)⟩

theorem Adds.trans {P : Nat → Sent → Prop} (h : Adds P c c') (h' : Adds P c' c'') :
    Adds P c c'' := by
  intro g
  obtain ⟨new, heq, hnew⟩ := h g
  obtain ⟨new', heq', hnew'⟩ := h' g
  refine ⟨new ++ new', by rw [heq', heq, List.append_assoc], fun s hs => ?_⟩
  rcases List.mem_append.mp hs with hs | hs
  · exact hnew s hs
  · exact hnew' s hs

theorem Coherent.find?_logs (h : Coherent c) (hg : c.generation < g) :
    (c.logs.find? fun l => l.1 == g) = none := by
  rw [List.find?_eq_none]
  intro l hl
  obtain ⟨ch, hch, rfl⟩ := List.mem_map.mp hl
  have hle := h.bounded ch.generation (mem_generations hch)
  simp only [Channel.log, beq_iff_eq]
  omega

theorem Coherent.adds_reopen (h : Coherent c) (hd : Handover) :
    Adds (fun g s => g = c.generation + 1 ∧ s ∈ c.resent hd) c (c.reopen hd) := by
  intro g
  rw [sentOn_eq, sentOn_eq, reopen_logs, List.find?_append]
  by_cases hg : g = c.generation + 1
  · rw [h.find?_logs (g := g) (by omega)]
    refine ⟨c.resent hd, by simp [hg], fun s hs => ⟨hg, hs⟩⟩
  · refine ⟨[], ?_, fun s hs => absurd hs (by simp)⟩
    have hlast : ([(c.generation + 1, c.resent hd)].find? fun l => l.1 == g) = none := by
      simp [Ne.symm hg]
    rw [hlast, Option.or_none, List.append_nil]

theorem adds_accept {ch : Channel} (h : c.channel = some ch) (r : AppendRequest) :
    Adds (fun _ s => s.write = c.writes.length) c (c.accept r) := by
  intro g
  obtain ⟨older, hold, hnew⟩ := accept_logs h r
  rw [sentOn_eq, sentOn_eq, hold, hnew, List.find?_append, List.find?_append]
  cases older.find? fun l => l.1 == g with
  | some l => exact ⟨[], by simp, fun s hs => absurd hs (by simp)⟩
  | none =>
    by_cases hg : ch.generation = g
    · refine ⟨[⟨c.writes.length, c.complete r⟩], by simp [hg], fun s hs => ?_⟩
      rw [List.mem_singleton.mp hs]
    · exact ⟨[], by simp [hg], fun s hs => absurd hs (by simp)⟩

/-- The first transmission of a write: the call that hands the write back sends it. -/
def SentFirst (c : Connection) (a : Action) (s : Sent) : Prop :=
  c.returns a = some s.write ∧ ∀ g, ∀ s' ∈ c.sentOn g, s'.write ≠ s.write

/-- A further transmission of a write. The options ask for it, the current channel carried the write
and had sent just this request, and it was unusable or has failed with a transient error. The
request goes to the channel that takes its place. -/
def SentAgain (c : Connection) (a : Action) (g : Nat) (s : Sent) : Prop :=
  c.options.inFlightPolicy = .resend ∧ g = c.generation + 1 ∧
    ∃ ch, c.channel = some ch ∧ s.write ∈ c.carried ch.generation ∧ s ∈ ch.sent ∧
      (ch.isUsable = false ∨ ∃ e, a = .receive ch.generation (.failure e) ∧
        (Failure.ofCall e).isTransient = true)

/-! ## Logs are in order and faithful -/

/-- Every log is in the order of the writes, holds their requests, and has what its channel carries.
Without resending no write is in two places. -/
structure Logged (c : Connection) : Prop where
  rising : ∀ l ∈ c.logs, (l.2.map (·.write)).Pairwise (· < ·)
  faithful : ∀ l ∈ c.logs, ∀ s ∈ l.2, (c.writes[s.write]?).map (·.request) = some s.request
  carried : ∀ q ∈ c.queue, ∃ l ∈ c.logs, l.1 = q.generation ∧ q.write ∈ l.2.map (·.write)
  once : c.options.inFlightPolicy = .fail → (c.logs.flatMap fun l => l.2.map (·.write)).Nodup

theorem Logged.known (h : Logged c) {l : Nat × List Sent} (hl : l ∈ c.logs) {s : Sent}
    (hs : s ∈ l.2) : s.write < c.writes.length := by
  obtain ⟨w, hw, -⟩ := Option.map_eq_some_iff.mp (h.faithful l hl s hs)
  exact (List.getElem?_eq_some_iff.mp hw).1

theorem Extends.request (h : Extends c c') {n : Nat} {r : AppendRequest}
    (hr : (c.writes[n]?).map (·.request) = some r) :
    (c'.writes[n]?).map (·.request) = some r := by
  obtain ⟨w, hw, rfl⟩ := Option.map_eq_some_iff.mp hr
  obtain ⟨w', hw', hreq, -⟩ := h n w hw
  rw [hw', Option.map_some, hreq]

/-- Whatever sends nothing and adds nothing to the queue keeps the logs in order. -/
theorem Logged.of_same (h : Logged c) (hl : c'.logs = c.logs) (hx : Extends c c')
    (hq : c'.queue.Sublist c.queue) (ho : c'.options = c.options) : Logged c' := by
  refine ⟨?_, ?_, ?_, ?_⟩
  · rw [hl]; exact h.rising
  · rw [hl]; exact fun l hlm s hs => hx.request (h.faithful l hlm s hs)
  · rw [hl]; exact fun q hqm => h.carried q (hq.subset hqm)
  · rw [hl, ho]; exact h.once

theorem Quiet.options (q : Quiet c c') : c'.options = c.options := by
  cases q with
  | fail g e => exact failWhere_options c _ e
  | shut e => exact shut_options c e
  | _ => rfl

/-- What is sent again are the writes that the lost channel carried, in their order. -/
theorem Numbered.map_write_resent (h : Numbered c) {hd : Handover}
    (hk : c.channel.any hd.keeps = false) (hp : c.options.inFlightPolicy = .resend) :
    (c.resent hd).map (·.write) = c.carried c.generation := by
  rw [resent, if_pos ⟨hk, hp⟩]
  exact map_write_outgoing h.carried_known

theorem resent_rising (h : Numbered c) (hd : Handover) :
    ((c.resent hd).map (·.write)).Pairwise (· < ·) := by
  by_cases hcond : c.channel.any hd.keeps = false ∧ c.options.inFlightPolicy = .resend
  · rw [h.map_write_resent hcond.1 hcond.2]
    exact h.carried_rising _
  · rw [resent, if_neg hcond]
    exact .nil

/-- After a replacement every queued write is in a log of its channel. -/
theorem Logged.carried_reopen (h : Logged c) (hn : Numbered c) (hd : Handover) :
    ∀ q ∈ (c.reopen hd).queue, ∃ l ∈ (c.reopen hd).logs,
      l.1 = q.generation ∧ q.write ∈ l.2.map (·.write) := by
  have hkept {q : Queued} (hq : q ∈ c.queue) : ∃ l ∈ (c.reopen hd).logs,
      l.1 = q.generation ∧ q.write ∈ l.2.map (·.write) := by
    obtain ⟨l, hl, hgen, hmem⟩ := h.carried q hq
    refine ⟨l, ?_, hgen, hmem⟩
    rw [reopen_logs]
    exact List.mem_append_left _ hl
  intro q hq
  rcases reopen_cases c hd with ⟨-, heq⟩ | ⟨hk, hp, heq⟩ | ⟨-, -, heq⟩
  · rw [heq] at hq
    exact hkept hq
  · rw [heq] at hq
    obtain ⟨old, hold, rfl⟩ := List.mem_map.mp hq
    unfold Queued.retag
    split
    · rename_i hgen
      refine ⟨(c.generation + 1, c.resent hd), ?_, rfl, ?_⟩
      · rw [reopen_logs]
        simp
      · rw [hn.map_write_resent hk hp, mem_carried, ← hgen]
        exact hold
    · exact hkept hold
  · rw [heq, failGeneration, failWhere_queue] at hq
    exact hkept (List.mem_of_mem_filter hq)

theorem Logged.reopen (h : Logged c) (hn : Numbered c) (hd : Handover) :
    Logged (c.reopen hd) := by
  have hx := extends_reopen c hd
  refine ⟨?_, ?_, h.carried_reopen hn hd, ?_⟩
  · intro l hl
    rw [reopen_logs] at hl
    rcases List.mem_append.mp hl with hl | hl
    · exact h.rising l hl
    · rw [List.mem_singleton.mp hl]
      exact resent_rising hn hd
  · intro l hl s hs
    rw [reopen_logs] at hl
    rcases List.mem_append.mp hl with hl | hl
    · exact hx.request (h.faithful l hl s hs)
    · rw [List.mem_singleton.mp hl] at hs
      exact hx.request (mem_resent hs).2.2.2
  · intro hp
    rw [reopen_options] at hp
    have hnil : c.resent hd = [] := if_neg (by simp [hp])
    rw [reopen_logs, hnil, List.flatMap_append]
    simpa using h.once hp

/-- A new write has the largest number in the log that it goes to. -/
theorem Logged.rising_send (h : Logged c) {ch : Channel} (hl : ch.log ∈ c.logs) (s : Sent)
    (hs : s.write = c.writes.length) : ((ch.send s).sent.map (·.write)).Pairwise (· < ·) := by
  rw [Channel.send, List.map_append, List.pairwise_append]
  refine ⟨h.rising _ hl, List.pairwise_singleton _ _, ?_⟩
  intro n hn m hm
  obtain ⟨s', hs', rfl⟩ := List.mem_map.mp hn
  rw [List.mem_singleton.mp hm]
  exact Nat.lt_of_lt_of_eq (h.known hl hs') hs.symm

/-- The numbers of all logs, with a new one at the end. -/
theorem Logged.once_send (h : Logged c) (hp : c.options.inFlightPolicy = .fail) :
    ((c.logs.flatMap fun l => l.2.map (·.write)) ++ [c.writes.length]).Nodup := by
  rw [List.nodup_append]
  refine ⟨h.once hp, by simp, ?_⟩
  intro n hn m hm
  obtain ⟨l, hl, hn⟩ := List.mem_flatMap.mp hn
  obtain ⟨s, hs, rfl⟩ := List.mem_map.mp hn
  rw [List.mem_singleton.mp hm]
  exact Nat.ne_of_lt (h.known hl hs)

theorem Logged.accept (h : Logged c) (hc : Coherent c) (ho : c.channel ≠ none)
    (r : AppendRequest) : Logged (c.accept r) := by
  obtain ⟨ch, hch⟩ := Option.ne_none_iff_exists'.mp ho
  obtain ⟨older, hold, hnew⟩ := accept_logs hch r
  have hx : Extends c (c.accept r) := Move.extends (.accept r ho)
  have hlast : ch.log ∈ c.logs := by
    rw [hold]
    exact List.mem_append_right _ (List.mem_singleton_self _)
  have hmem {l : Nat × List Sent} (hl : l ∈ older) : l ∈ c.logs := by
    rw [hold]
    exact List.mem_append_left _ hl
  -- the queued writes of the current channel are in the longer log too
  have hlonger {q : Queued} (hq : q ∈ c.queue) : ∃ l ∈ (c.accept r).logs,
      l.1 = q.generation ∧ q.write ∈ l.2.map (·.write) := by
    obtain ⟨l, hl, hgen, hin⟩ := h.carried q hq
    rw [hold] at hl
    rw [hnew]
    rcases List.mem_append.mp hl with hl | hl
    · exact ⟨l, List.mem_append_left _ hl, hgen, hin⟩
    · rw [List.mem_singleton.mp hl] at hgen hin
      refine ⟨_, List.mem_append_right _ (List.mem_singleton_self _), hgen, ?_⟩
      rw [List.map_append]
      exact List.mem_append_left _ hin
  refine ⟨?_, ?_, ?_, ?_⟩
  · intro l hl
    rw [hnew] at hl
    rcases List.mem_append.mp hl with hl | hl
    · exact h.rising l (hmem hl)
    · rw [List.mem_singleton.mp hl]
      exact h.rising_send hlast ⟨c.writes.length, c.complete r⟩ rfl
  · intro l hl s hs
    rw [hnew] at hl
    rcases List.mem_append.mp hl with hl | hl
    · exact hx.request (h.faithful l (hmem hl) s hs)
    · rw [List.mem_singleton.mp hl] at hs
      rcases List.mem_append.mp hs with hs | hs
      · exact hx.request (h.faithful _ hlast s hs)
      · rw [List.mem_singleton.mp hs, accept_eq hch]
        simp
  · intro q hq
    have hqueue : (c.accept r).queue = c.queue ++ [⟨c.generation, c.writes.length⟩] := by
      rw [accept_eq hch]
    rw [hqueue] at hq
    rcases List.mem_append.mp hq with hq | hq
    · exact hlonger hq
    · rw [List.mem_singleton.mp hq, hnew]
      exact ⟨_, List.mem_append_right _ (List.mem_singleton_self _), hc.current ch hch, by simp⟩
  · intro hp
    have hopt : (c.accept r).options = c.options := by rw [accept_eq hch]
    rw [hopt] at hp
    have honce := h.once_send hp
    rw [hold] at honce
    rw [hnew]
    simpa [List.flatMap_append] using honce

theorem Logged.move (h : Logged c) (hc : Coherent c) (hn : Numbered c) (m : Move c c') :
    Logged c' := by
  have hx : Extends c c' := m.extends
  cases m with
  | quiet q => exact h.of_same q.logs hx q.sublist q.options
  | answer g r =>
    refine h.of_same (answer_logs c g r) hx ?_ (answer_options c g r)
    rw [answer_queue]
    exact List.eraseP_sublist
  | reopen hd => exact h.reopen hn hd
  | accept r ho => exact h.accept hc ho r
  | refuse r => exact h.of_same rfl hx (.refl _) rfl

theorem Logged.act (h : Logged c) (hc : Coherent c) (hn : Numbered c) (a : Action) :
    Logged (c.act a) := by
  have hboth := hc.act_induct (P := fun c => Numbered c ∧ Logged c) a
    (fun hc hnl m => ⟨hnl.1.move m, hnl.2.move hc hnl.1 m⟩)
    (fun n f hf hnl => ⟨hnl.1.of_sublist (.refl _) (Nat.le_of_eq (List.length_modify _ _ _).symm),
      hnl.2.of_same rfl (extends_modify n hf rfl) (.refl _) rfl⟩) ⟨hn, h⟩
  exact hboth.2

/-- **In every run of a new connection the logs are in order and faithful.** -/
theorem logged_run {id : String} {o : Config.ConnectionOptions} (h : create id o = .ok c)
    (as : List Action) : Logged (c.run as) := by
  have hboth : Numbered (c.run as) ∧ Logged (c.run as) := by
    refine run_induct (P := fun c => Numbered c ∧ Logged c) h
      (fun a _ c hc hnl => ⟨hnl.1.act hc a, hnl.2.act hc hnl.1 a⟩) ⟨numbered_blank, ?_⟩
    · exact ⟨fun _ hl => absurd hl List.not_mem_nil, fun _ hl => absurd hl List.not_mem_nil,
        fun _ hq => absurd hq List.not_mem_nil, fun _ => .nil⟩
  exact hboth.2

/-! ## Why something goes out -/

theorem Adds.mono {P Q : Nat → Sent → Prop} (h : Adds P c c') (hPQ : ∀ g s, P g s → Q g s) :
    Adds Q c c' := by
  intro g
  obtain ⟨new, heq, hnew⟩ := h g
  exact ⟨new, heq, fun s hs => hPQ g s (hnew s hs)⟩

/-- What goes out again had gone out on the channel that is replaced. -/
theorem Logged.sent_of_resent (h : Logged c) (hc : Coherent c) {hd : Handover} {s : Sent}
    (hs : s ∈ c.resent hd) : ∃ ch, c.channel = some ch ∧ s ∈ ch.sent := by
  obtain ⟨-, -, hcar, hreq⟩ := mem_resent hs
  have hqueue := mem_carried.mp hcar
  cases hcur : c.channel with
  | none =>
    rw [hc.closed hcur] at hqueue
    exact absurd hqueue List.not_mem_nil
  | some ch =>
    refine ⟨ch, rfl, ?_⟩
    obtain ⟨l, hl, hlgen, hin⟩ := h.carried _ hqueue
    obtain ⟨old, hold, rfl⟩ := List.mem_map.mp hl
    have heq : old = ch := hc.eq_of_generation hold (mem_channels.mpr (.inr hcur))
      (hlgen.trans (hc.current ch hcur).symm)
    subst heq
    obtain ⟨s', hs', hwrite⟩ := List.mem_map.mp hin
    have hreq' := h.faithful _ hl s' hs'
    have hsame : s' = s := by
      rw [hwrite, hreq] at hreq'
      cases s
      cases s'
      simp_all
    exact hsame ▸ hs'

theorem Logged.sentAgain (h : Logged c) (hc : Coherent c) {hd : Handover} {a : Action} {s : Sent}
    (hs : s ∈ c.resent hd) (hwhy : ∀ ch, c.channel = some ch → ch.isUsable = false ∨
      ∃ e, a = .receive c.generation (.failure e) ∧ (Failure.ofCall e).isTransient = true) :
    SentAgain c a (c.generation + 1) s := by
  obtain ⟨-, hp, hcar, -⟩ := mem_resent hs
  obtain ⟨ch, hcur, hsent⟩ := h.sent_of_resent hc hs
  have hgen := hc.current ch hcur
  exact ⟨hp, rfl, ch, hcur, by rwa [hgen], hsent, by rw [hgen]; exact hwhy ch hcur⟩

/-- A write that an action makes was sent nowhere before. -/
theorem Logged.sentFirst (h : Logged c) {a : Action} {s : Sent}
    (hr : c.returns a = some c.writes.length) (hs : s.write = c.writes.length) :
    SentFirst c a s := by
  refine ⟨by rw [hr, hs], fun g s' hs' heq => ?_⟩
  obtain ⟨l, hl, -, hlog⟩ := mem_sentOn hs'
  rw [hlog] at hs'
  have hlt := h.known hl hs'
  omega

/-- **An action adds to the logs only the write that it makes and the writes of a lost channel.** -/
theorem Logged.act_sentOn (h : Logged c) (hc : Coherent c) (a : Action) :
    Adds (fun g s => SentFirst c a s ∨ SentAgain c a g s) c (c.act a) := by
  have hreopen (hd : Handover) (hwhy : ∀ ch, c.channel = some ch → c.channel.any hd.keeps = false →
      ch.isUsable = false ∨
        ∃ e, a = .receive c.generation (.failure e) ∧ (Failure.ofCall e).isTransient = true) :
      Adds (fun g s => SentFirst c a s ∨ SentAgain c a g s) c (c.reopen hd) := by
    refine (hc.adds_reopen hd).mono fun g s hgs => .inr ?_
    rw [hgs.1]
    exact h.sentAgain hc hgs.2 fun ch hch => hwhy ch hch (mem_resent hgs.2).1
  have hreturns (ha : c.alive = true) (r : AppendRequest) :
      c.returns (.call (.write r)) = some c.writes.length := by
    rw [returns, if_pos ha, write_number]
  have o := hc.outcome a
  generalize c.act a = c' at o ⊢
  cases o with
  | quiet _ _ q => exact adds_of_logs q.logs
  | opens _ ho =>
    refine hreopen _ fun ch hch _ => .inl ?_
    rwa [isOpen, hch] at ho
  | replace =>
    refine hreopen _ fun ch hch hk => .inl ?_
    rwa [hch] at hk
  | refuse => exact adds_of_logs rfl
  | accept ha hch =>
    exact (adds_accept hch _).mono fun _ s hs => .inl (h.sentFirst (hreturns ha _) hs)
  | recover ha hch hu =>
    have hsome := (reopen_channels c (.recover none)).1
    refine Adds.trans (hreopen (.recover none) fun ch' hch' _ => .inl ?_) ?_
    · rw [← Option.some.inj (hch.symm.trans hch')]
      exact hu
    · refine (adds_accept hsome _).mono fun _ s hs => .inl (h.sentFirst (hreturns ha _) ?_)
      rw [hs, reopen_length]
  | answer _ q _ q' => exact adds_of_logs (by rw [q'.logs, answer_logs, q.logs])
  | reject q q' => exact adds_of_logs (by rw [q'.logs, answer_logs, q.logs])
  | lose _ ht q =>
    exact Adds.trans (hreopen _ fun _ _ _ => .inr ⟨_, rfl, ht⟩) (adds_of_logs q.logs)
  | mark => exact adds_of_logs rfl
  | retry => exact adds_of_logs rfl

/-! ## Whole runs -/

theorem Move.options (m : Move c c') : c'.options = c.options := by
  cases m with
  | quiet q => exact q.options
  | answer g r => exact answer_options c g r
  | reopen h => exact reopen_options c h
  | accept r ho =>
    obtain ⟨ch, hch⟩ := Option.ne_none_iff_exists'.mp ho
    rw [accept_eq hch]
  | refuse r => rfl

/-- No action changes the options. -/
theorem Coherent.act_options (h : Coherent c) (a : Action) : (c.act a).options = c.options :=
  h.act_induct (P := fun c' => c'.options = c.options) a (fun _ ho m => m.options.trans ho)
    (fun _ _ _ ho => ho) rfl

section Created

variable {id : String} {o : Config.ConnectionOptions}

theorem options_run (h : create id o = .ok c) (as : List Action) : (c.run as).options = o :=
  run_induct (P := fun c => c.options = o) h
    (fun a _ _ hc ho => (hc.act_options a).trans ho) rfl

theorem sublist_range {l : List Nat} (h : l.Pairwise (· < ·)) {n : Nat} (hl : ∀ m ∈ l, m < n) :
    l.Sublist (List.range n) := by
  refine List.sublist_of_subperm_of_pairwise (r := (· < ·)) ?_ h List.pairwise_lt_range
  refine List.subperm_of_subset (h.imp Nat.ne_of_lt) fun m hm => ?_
  exact List.mem_range.mpr (hl m hm)

/-- What went out on a channel, in the order of the calls that handed the writes back. -/
theorem sentOn_sublist (h : create id o = .ok c) (as : List Action) (g : Nat) :
    (((c.run as).sentOn g).map (·.write)).Sublist (c.returned as) := by
  have hlog := logged_run h as
  rw [returned_eq_range h, sentOn_eq]
  cases hf : (c.run as).logs.find? fun l => l.1 == g with
  | none => exact List.nil_sublist _
  | some l =>
    have hl := List.mem_of_find?_eq_some hf
    refine sublist_range (hlog.rising l hl) fun m hm => ?_
    obtain ⟨s, hs, rfl⟩ := List.mem_map.mp hm
    exact hlog.known hl hs

/-- Whenever a write goes out, it is with the same request. -/
theorem sent_request_unique (h : create id o = .ok c) (as : List Action) {g g' : Nat}
    {s s' : Sent} (hs : s ∈ (c.run as).sentOn g) (hs' : s' ∈ (c.run as).sentOn g')
    (heq : s.write = s'.write) : s = s' := by
  have hlog := logged_run h as
  obtain ⟨l, hl, -, hsl⟩ := mem_sentOn hs
  obtain ⟨l', hl', -, hsl'⟩ := mem_sentOn hs'
  rw [hsl] at hs
  rw [hsl'] at hs'
  have hreq := hlog.faithful l hl s hs
  rw [heq, hlog.faithful l' hl' s' hs'] at hreq
  cases s
  cases s'
  simp_all

/-- **What goes out on the channels.** In every run

* on each channel the writes go out in the order of the calls that handed them back, each at most
  once;
* whenever a write goes out, on whichever channel, it is with the same request;
* an action only adds to what went out: the write that it makes, and, if the options say so, the
  writes of the channel that it replaces because that one was unusable or has failed with a
  transient error;
* if the options do not ask for it, no write goes out twice. -/
theorem transmission_discipline (h : create id o = .ok c) (as : List Action) :
    (c.returned as).Nodup ∧
    (∀ g, (((c.run as).sentOn g).map (·.write)).Sublist (c.returned as)) ∧
    (∀ g g' s s', s ∈ (c.run as).sentOn g → s' ∈ (c.run as).sentOn g' → s.write = s'.write →
      s = s') ∧
    (∀ a g, ∃ new, (c.run (as ++ [a])).sentOn g = (c.run as).sentOn g ++ new ∧
      ∀ s ∈ new, SentFirst (c.run as) a s ∨ SentAgain (c.run as) a g s) ∧
    (o.inFlightPolicy = .fail →
      ((c.run as).channels.flatMap fun ch => ch.sent.map (·.write)).Nodup) := by
  have hcoh := coherent_run h as
  have hlog := logged_run h as
  refine ⟨?_, sentOn_sublist h as, fun _ _ _ _ hs hs' => sent_request_unique h as hs hs',
    fun a g => ?_, fun hp => ?_⟩
  · rw [returned_eq_range h]
    exact List.nodup_range
  · rw [run_append]
    exact hlog.act_sentOn hcoh a g
  · have honce := hlog.once (by rw [options_run h, hp])
    rwa [logs, List.flatMap_map] at honce

/-- A write that goes out again on the channel that takes the place of one that hung up, and first
on it, before the write that found it unusable. -/
theorem sent_again_after_hangUp :
    let c := (blank "s" { inFlightPolicy := .resend }).connect
    let as : List Action := [.call (.write {}), .hangUp 1]
    create "s" { inFlightPolicy := .resend } = .ok c ∧
      ((c.run (as ++ [.call (.write {})])).sentOn 2).map (·.write) = [0, 1] ∧
      ∀ s ∈ (c.run (as ++ [.call (.write {})])).sentOn 2,
        SentFirst (c.run as) (.call (.write {})) s ∨
          SentAgain (c.run as) (.call (.write {})) 2 s := by
  intro c as
  have hnew : create "s" { inFlightPolicy := .resend } = .ok c := create_eq (by decide)
  obtain ⟨-, -, -, hadds, -⟩ := transmission_discipline hnew as
  obtain ⟨new, heq, hall⟩ := hadds (.call (.write {})) 2
  refine ⟨hnew, by decide, fun s hs => hall s ?_⟩
  rw [heq] at hs
  exact hs

end Created

end Connection

end RowStream.Stream
