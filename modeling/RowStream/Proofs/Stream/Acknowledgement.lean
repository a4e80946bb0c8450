import RowStream.Proofs.Stream.Carrier
import RowStream.Proofs.Stream.Transmission

/-!
# Answers meet their requests

A connection keeps one queue for all its channels, and an answer of a channel resolves the oldest
write that the channel carries. That this is the write whose request the answer is for, rests on one
invariant (`Follows`): as long as its reader has not stopped, a channel carries just what went out
on it, without as many requests as answers came. A replaced channel may also carry nothing any more.

The invariant speaks of one channel only, and so does what it asks of the other side: that this
channel never brings more answers than requests went out on it (`Paced`).

* `Follows.act`: every action keeps the invariant of every channel.
* `answer_meets_request`: the next answer of a channel resolves the next request of this channel, or
  nothing, in any run.
-/

namespace RowStream.Stream

open Service (AppendRequest)

namespace Connection

variable {c c' : Connection} {g g' k : Nat}

/-- The channel of the generation carries what went out on it without the first `k` requests, for as
long as it is read. A replaced channel may have been relieved of all of it. -/
structure Follows (c : Connection) (g k : Nat) : Prop where
  current : ∀ ch, c.channel = some ch → ch.generation = g → ch.reader ≠ .stopped →
    c.carried g = (ch.sent.map (·.write)).drop k
  replaced : ∀ ch ∈ c.past, ch.generation = g → ch.reader ≠ .stopped →
    c.carried g = (ch.sent.map (·.write)).drop k ∨ c.carried g = []
  paced : k ≤ (c.sentOn g).length

/-! ## Quiet moves -/

theorem sentOn_congr (h : c'.logs = c.logs) (g : Nat) : c'.sentOn g = c.sentOn g := by
  rw [sentOn_eq, sentOn_eq, h]

/-- Changing channels, but neither what went out on them nor readers that have stopped. -/
theorem Follows.of_map (h : Follows c g k) {f e : Channel → Channel}
    (hf : ∀ ch, (f ch).log = ch.log) (he : ∀ ch, (e ch).log = ch.log)
    (hrf : ∀ ch, ch.reader = .stopped → (f ch).reader = .stopped)
    (hre : ∀ ch, ch.reader = .stopped → (e ch).reader = .stopped) :
    Follows { c with channel := c.channel.map f, past := c.past.map e } g k := by
  have hgen {f : Channel → Channel} (hf : ∀ ch, (f ch).log = ch.log) (ch : Channel) :
      (f ch).generation = ch.generation := congrArg Prod.fst (hf ch)
  have hsent {f : Channel → Channel} (hf : ∀ ch, (f ch).log = ch.log) (ch : Channel) :
      (f ch).sent = ch.sent := congrArg Prod.snd (hf ch)
  refine ⟨?_, ?_, ?_⟩
  · intro ch hch hg hread
    obtain ⟨old, hold, rfl⟩ := Option.map_eq_some_iff.mp hch
    rw [hgen hf] at hg
    rw [hsent hf]
    exact h.current old hold hg fun hs => hread (hrf old hs)
  · intro ch hch hg hread
    obtain ⟨old, hold, rfl⟩ := List.mem_map.mp hch
    rw [hgen he] at hg
    rw [hsent he]
    exact h.replaced old hold hg fun hs => hread (hre old hs)
  · rw [sentOn_congr (logs_of_map hf he)]
    exact h.paced

/-- Nothing changed that the invariant looks at. -/
theorem Follows.congr (h : Follows c g k) (hq : c'.queue = c.queue) (hc : c'.channel = c.channel)
    (hp : c'.past = c.past) : Follows c' g k := by
  have hlogs : c'.logs = c.logs := by rw [logs_eq, logs_eq, hc, hp]
  refine ⟨?_, ?_, ?_⟩
  · rw [hc, carried_congr hq]; exact h.current
  · rw [hp, carried_congr hq]; exact h.replaced
  · rw [sentOn_congr hlogs]; exact h.paced

theorem Follows.quiet (h : Follows c g k) (hc : Coherent c) (q : Quiet c c') : Follows c' g k := by
  have hpaced : k ≤ (c'.sentOn g).length := by
    rw [sentOn_congr q.logs]
    exact h.paced
  cases q with
  | publish e => exact h.congr rfl rfl rfl
  | learn s => exact h.congr rfl rfl rfl
  | fail g' e hg =>
    by_cases hgg : g = g'
    · subst hgg
      refine ⟨fun ch hch hgen _ => ?_, fun _ _ _ _ => .inr ?_, hpaced⟩
      · rw [failGeneration, failWhere_channel] at hch
        exact absurd (hgen.symm.trans (hc.current ch hch)) hg
      · exact carried_failGeneration_self c e g
    · refine ⟨?_, ?_, hpaced⟩
      · rw [carried_failGeneration_of_ne c e hgg, failGeneration, failWhere_channel]
        exact h.current
      · rw [carried_failGeneration_of_ne c e hgg, failGeneration, failWhere_past]
        exact h.replaced
  | shut e =>
    refine ⟨fun ch hch => absurd hch (by simp), fun _ _ _ _ => .inr ?_, hpaced⟩
    exact carried_of_queue_nil (shut_queue c e) g
  | bump => exact h.congr rfl rfl rfl
  | letGo => exact h.congr rfl rfl rfl
  | tearDown =>
    have hmap := h.of_map (f := fun ch => { ch with tornDown := true }) (e := id)
      (fun _ => rfl) (fun _ => rfl) (fun _ hs => hs) fun _ hs => hs
    rwa [List.map_id] at hmap
  | hangUp g' =>
    refine h.of_map ?_ ?_ ?_ ?_
    · intro ch; split <;> rfl
    · intro ch; split <;> rfl
    · intro ch hs; split <;> exact hs
    · intro ch hs; split <;> exact hs
  | meet g' i on =>
    have hstop (ch : Channel) (hs : ch.reader = .stopped) : (ch.meet i on).reader = .stopped := by
      cases i <;> simp only [Channel.meet] <;> split <;> simp_all
    refine h.of_map ?_ ?_ ?_ ?_
    · intro ch; split <;> simp [Channel.log]
    · intro ch; split <;> simp [Channel.log]
    · intro ch hs
      split
      · exact hstop ch hs
      · exact hs
    · intro ch hs
      split
      · exact hstop ch hs
      · exact hs

theorem Follows.quiets (h : Follows c g k) (hc : Coherent c) (q : Quiets c c') :
    Follows c' g k := by
  induction q with
  | refl => exact h
  | tail q₀ q ih => exact ih.quiet (hc.quiets q₀) q

/-! ## Answers -/

/-- An answer of another channel takes nothing from this one. -/
theorem Follows.answer_of_ne (h : Follows c g k) (hg : g ≠ g') (r : WriteResult) :
    Follows (c.answer g' r) g k := by
  refine ⟨?_, ?_, ?_⟩
  · rw [carried_answer_of_ne hg, answer_channel]; exact h.current
  · rw [carried_answer_of_ne hg, answer_past]; exact h.replaced
  · rw [sentOn_congr (answer_logs c g' r)]; exact h.paced

/-- An answer of the channel takes the oldest write from it, and one more request is answered. -/
theorem Follows.answer (h : Follows c g k) (hk : k + 1 ≤ (c.sentOn g).length) (r : WriteResult) :
    Follows (c.answer g r) g (k + 1) := by
  have htail {ns : List Nat} (hns : c.carried g = ns.drop k) :
      (c.answer g r).carried g = ns.drop (k + 1) := by
    rw [carried_answer_self, hns, List.tail_drop]
  refine ⟨?_, ?_, ?_⟩
  · intro ch hch hg hread
    rw [answer_channel] at hch
    exact htail (h.current ch hch hg hread)
  · intro ch hch hg hread
    rw [answer_past] at hch
    rcases h.replaced ch hch hg hread with hdrop | hnil
    · exact .inl (htail hdrop)
    · right
      rw [carried_answer_self, hnil, List.tail_nil]
  · rw [sentOn_congr (answer_logs c g r)]
    exact hk

/-! ## Fresh channels and new writes -/

/-- A fresh channel carries what goes out first on it. -/
theorem Coherent.carried_reopen_next (h : Coherent c) (hn : Numbered c) (hd : Handover) :
    (c.reopen hd).carried (c.generation + 1) = (c.resent hd).map (·.write) := by
  have hgt := h.carried_of_gt (Nat.lt_succ_self c.generation)
  rcases reopen_cases c hd with ⟨hk, heq⟩ | ⟨hk, hp, heq⟩ | ⟨-, hp, heq⟩
  · rw [heq, resent, if_neg (by simp [hk])]
    exact hgt
  · rw [hn.map_write_resent hk hp, heq]
    exact carried_retag_next hgt
  · rw [heq, carried_failGeneration_of_ne _ _ (Nat.succ_ne_self _), resent, if_neg (by simp [hp])]
    exact hgt

theorem Follows.reopen (h : Follows c g k) (hc : Coherent c) (hn : Numbered c) (hd : Handover) :
    Follows (c.reopen hd) g k := by
  obtain ⟨hch', hpast'⟩ := reopen_channels c hd
  refine ⟨?_, ?_, ?_⟩
  · -- the fresh channel: no answer came for its generation yet
    intro ch hch hg _
    obtain rfl := Option.some.inj (hch'.symm.trans hch)
    dsimp only at hg
    have hzero : k = 0 := by
      have hpaced := h.paced
      rw [sentOn_eq, hc.find?_logs (g := g) (by omega)] at hpaced
      exact Nat.le_zero.mp hpaced
    rw [hzero, List.drop_zero, ← hg]
    exact hc.carried_reopen_next hn hd
  · intro ch hch hg hread
    rw [hpast'] at hch
    rcases List.mem_append.mp hch with hch | hch
    · have hle := hc.bounded ch.generation (mem_generations (mem_channels.mpr (.inl hch)))
      by_cases hgen : g = c.generation
      · -- a replaced channel has the latest generation only if no channel is there
        right
        cases hcur : c.channel with
        | none =>
          rw [hgen]
          exact carried_reopen_lost (by rw [hcur]; rfl)
        | some cur =>
          have hlt := hc.past_lt hcur hch
          omega
      · rw [carried_reopen_of_ne hd hgen (by omega)]
        exact h.replaced ch hch hg hread
    · obtain ⟨old, hold, rfl⟩ := List.mem_map.mp hch
      rw [Option.mem_toList] at hold
      cases hk : c.channel.any hd.keeps with
      | false =>
        rw [hk] at hread
        exact absurd rfl hread
      | true =>
        left
        rw [hk] at hg hread
        rw [reopen_keeps hk]
        exact h.current old hold hg hread
  · rw [sentOn_eq, reopen_logs, List.find?_append]
    have hpaced := h.paced
    rw [sentOn_eq] at hpaced
    cases hf : c.logs.find? fun l => l.1 == g with
    | none =>
      rw [hf] at hpaced
      exact Nat.le_trans hpaced (Nat.zero_le _)
    | some l =>
      rw [hf] at hpaced
      exact hpaced

theorem Follows.accept (h : Follows c g k) (hc : Coherent c) (ho : c.channel ≠ none)
    (r : AppendRequest) : Follows (c.accept r) g k := by
  obtain ⟨ch, hch⟩ := Option.ne_none_iff_exists'.mp ho
  have hgen := hc.current ch hch
  have hlog : c.sentOn ch.generation = ch.sent := by
    rw [sentOn, hc.channel?_of_mem (mem_channels.mpr (.inr hch))]
    rfl
  have hsame (hg : g ≠ c.generation) : (c.accept r).carried g = c.carried g := by
    rw [accept_eq hch]
    simp [carried, Ne.symm hg]
  refine ⟨?_, ?_, ?_⟩
  · intro ch' hch' hg hread
    rw [accept_eq hch] at hch'
    obtain rfl := Option.some.inj hch'
    have hk : k ≤ ch.sent.length := by
      rw [← hlog, show ch.generation = g from hg]
      exact h.paced
    have hcar : (c.accept r).carried g = c.carried g ++ [c.writes.length] := by
      rw [accept_eq hch]
      simp [carried, ← hg, Channel.send, hgen]
    rw [hcar, h.current ch hch hg hread, Channel.send, List.map_append,
      List.drop_append_of_le_length (by rwa [List.length_map])]
    rfl
  · intro old hold hg hread
    have hold' : old ∈ c.past := by
      rw [accept_eq hch] at hold
      exact hold
    have hlt := hc.past_lt hch hold'
    rw [hsame (by omega)]
    exact h.replaced old hold' hg hread
  · obtain ⟨new, heq, -⟩ := adds_accept hch r g
    rw [heq, List.length_append]
    exact Nat.le_add_right_of_le h.paced

/-! ## Actions and runs -/

theorem answers_unique {a : Action} {r r' : WriteResult} (h : c.answers g a = some r)
    (h' : c.answers g' a = some r') : g' = g ∧ r' = r := by
  cases a with
  | receive b i =>
    simp only [answers, Option.ite_none_right_eq_some] at h h'
    exact ⟨h'.1.1.symm.trans h.1.1, Option.some.inj (h'.2.symm.trans h.2)⟩
  | late b i =>
    simp only [answers, Option.ite_none_right_eq_some] at h h'
    exact ⟨h'.1.1.symm.trans h.1.1, Option.some.inj (h'.2.symm.trans h.2)⟩
  | _ => exact absurd h (by simp [answers])

/-- An answer of a channel is answered for it, and nothing else touches queue, writes or results. -/
theorem Coherent.act_answers (h : Coherent c) {a : Action} {r : WriteResult}
    (ha : c.answers g a = some r) : ∃ c₁, Quiets c c₁ ∧ Alike c c₁ ∧
      Quiets (c₁.answer g r) (c.act a) ∧ Alike (c₁.answer g r) (c.act a) := by
  have o := h.outcome a
  generalize c.act a = c' at o ⊢
  cases o with
  | quiet _ hnone => exact absurd (ha.symm.trans (hnone g)) (by simp)
  | answer ha' q k q' k' =>
    obtain ⟨rfl, rfl⟩ := answers_unique ha ha'
    exact ⟨_, q, k, q', k'⟩
  | lose _ ht => exact absurd ha (by simp [answers, answer?_transient ht])
  | reject => exact absurd ha (by simp [answers, Incoming.answer?])
  | _ => exact absurd ha (by simp [answers])

/-- **Every action keeps the invariant of every channel**, an answer of the channel with one more
request answered. -/
theorem Follows.act (h : Follows c g k) (hc : Coherent c) (hn : Numbered c) (a : Action)
    (hk : k + (c.answers g a).toList.length ≤ ((c.act a).sentOn g).length) :
    Follows (c.act a) g (k + (c.answers g a).toList.length) := by
  cases ha : c.answers g a with
  | some r =>
    obtain ⟨c₁, q, -, q', -⟩ := hc.act_answers ha
    have hlogs : (c.act a).logs = c₁.logs := by rw [q'.logs, answer_logs]
    rw [ha, sentOn_congr hlogs] at hk
    have hc₁ := hc.quiets q
    exact ((h.quiets hc q).answer hk r).quiets (hc₁.move (.answer g r)) q'
  | none =>
    show Follows (c.act a) g k
    have hc' := hc.act a
    have o := hc.outcome a
    generalize c.act a = c' at o hc' ⊢
    have other {c₁ : Connection} {g' : Nat} {r : WriteResult} (hg : g ≠ g') (q : Quiets c c₁)
        (q' : Quiets (c₁.answer g' r) c') : Follows c' g k := by
      have hc₁ := hc.quiets q
      exact ((h.quiets hc q).answer_of_ne hg r).quiets (hc₁.move (.answer g' r)) q'
    cases o with
    | quiet _ _ q => exact h.quiets hc q
    | opens => exact h.reopen hc hn _
    | replace => exact h.reopen hc hn _
    | refuse => exact h.congr rfl rfl rfl
    | accept _ hch => exact h.accept hc (by simp [hch]) _
    | recover hal =>
      exact (h.reopen hc hn _).accept (hc.reopen hal _) (reopen_channel_ne c _) _
    | answer ha' q _ q' =>
      refine other (fun hg => ?_) q q'
      rw [← hg, ha] at ha'
      exact absurd ha' (by simp)
    | reject q q' hs =>
      by_cases hg : g = c.generation
      · -- the reader of the channel has stopped, so nothing is asked of it any more
        subst hg
        have hstopped {ch : Channel} (hch : ch ∈ c'.channels)
            (hgen : ch.generation = c.generation) : ch.reader = .stopped := by
          refine hs ch ?_
          rw [← hgen]
          exact hc'.channel?_of_mem hch
        refine ⟨fun ch hch hgen hread => ?_, fun ch hch hgen hread => ?_, ?_⟩
        · exact absurd (hstopped (mem_channels.mpr (.inr hch)) hgen) hread
        · exact absurd (hstopped (mem_channels.mpr (.inl hch)) hgen) hread
        · have hlogs : c'.logs = c.logs := by rw [q'.logs, answer_logs, q.logs]
          rw [sentOn_congr hlogs]
          exact h.paced
      · exact other hg q q'
    | lose hm _ q =>
      exact (h.reopen hc hn _).quiets (hc.reopen (alive_of_meets hm) _) q
    | mark => exact h.congr rfl rfl rfl
    | retry => exact h.congr rfl rfl rfl

/-- In every paced run a channel carries what went out on it without the requests answered. -/
theorem Follows.run (h : Follows c g k) (hc : Coherent c) (hn : Numbered c) {as : List Action}
    (hp : ∀ p, p <+: as → k + c.answered g p ≤ ((c.run p).sentOn g).length) :
    Follows (c.run as) g (k + c.answered g as) := by
  induction as generalizing c k with
  | nil => exact h
  | cons a as ih =>
    have hstep := hp [a] ⟨as, rfl⟩
    simp only [answered, Nat.add_zero] at hstep
    rw [answered, ← Nat.add_assoc]
    refine ih (h.act hc hn a hstep) (hc.act a) (hn.act hc a) fun p hpre => ?_
    have hlonger := hp (a :: p) (List.cons_prefix_cons.mpr ⟨rfl, hpre⟩)
    rw [answered, ← Nat.add_assoc] at hlonger
    exact hlonger

/-! ## The request of an answer -/

theorem Alike.answer (h : Alike c c') (g : Nat) (r : WriteResult) :
    Alike (c.answer g r) (c'.answer g r) := by
  cases hcar : c.carried g with
  | nil =>
    have hcar' : c'.carried g = [] := by rw [carried_congr h.queue, hcar]
    rw [answer_of_nil r hcar, answer_of_nil r hcar']
    exact h
  | cons n ns =>
    have hcar' : c'.carried g = n :: ns := by rw [carried_congr h.queue, hcar]
    rw [answer_of_cons r hcar, answer_of_cons r hcar']
    simp only [resolve, mapWrite]
    exact ⟨by rw [h.queue], by rw [h.writes], by rw [h.writes, h.given]⟩

theorem Alike.trans {c'' : Connection} (h : Alike c c') (h' : Alike c' c'') : Alike c c'' :=
  ⟨h'.queue.trans h.queue, h'.writes.trans h.writes, h'.given.trans h.given⟩

theorem Alike.results (h : Alike c c') : c'.results = c.results := by
  rw [Connection.results, Connection.results, h.given]

/-- A channel that brings an answer is read, or it was stopped and carries nothing. -/
theorem Coherent.answers_reader (h : Coherent c) {a : Action} {r : WriteResult}
    (ha : c.answers g a = some r) : c.carried g = [] ∨
      ∃ ch ∈ c.channels, ch.generation = g ∧ ch.reader ≠ .stopped := by
  cases a with
  | receive b i =>
    right
    simp only [answers, Option.ite_none_right_eq_some, meets, Bool.and_eq_true,
      Option.any_eq_true] at ha
    obtain ⟨⟨rfl, -, ch, hch, htakes⟩, -⟩ := ha
    obtain ⟨hmem, hgen⟩ := channel?_some hch
    refine ⟨ch, hmem, hgen, fun hs => ?_⟩
    rw [hs] at htakes
    cases i <;> exact absurd htakes (by simp [Reader.takes])
  | late b i =>
    left
    simp only [answers, Option.ite_none_right_eq_some, stopsLate, Bool.and_eq_true,
      Option.any_eq_true, bne_iff_ne, beq_iff_eq] at ha
    obtain ⟨⟨rfl, ⟨-, hne⟩, ch, hch, hs⟩, -⟩ := ha
    obtain ⟨hmem, hgen⟩ := channel?_some hch
    rcases mem_channels.mp hmem with hpast | hcur
    · rw [← hgen]
      exact h.carried_of_stopped hpast hs
    · exact absurd ((h.current ch hcur).symm.trans hgen) hne
  | _ => exact absurd ha (by simp [answers])

/-- What a channel that is read carries begins with the next request that has no answer. -/
theorem Follows.carried_next (h : Follows c g k) (hc : Coherent c) {ch : Channel}
    (hch : ch ∈ c.channels) (hgen : ch.generation = g) (hread : ch.reader ≠ .stopped) {s : Sent}
    (hs : (c.sentOn g)[k]? = some s) :
    c.carried g = [] ∨ ∃ ns, c.carried g = s.write :: ns := by
  have hlog : c.sentOn g = ch.sent := by
    rw [sentOn, ← hgen, hc.channel?_of_mem hch]
    rfl
  have hdrop : c.carried g = (ch.sent.map (·.write)).drop k ∨ c.carried g = [] := by
    rcases mem_channels.mp hch with hpast | hcur
    · exact h.replaced ch hpast hgen hread
    · exact .inl (h.current ch hcur hgen hread)
  rcases hdrop with hdrop | hnil
  · right
    rw [hlog] at hs
    obtain ⟨hlt, hget⟩ := List.getElem?_eq_some_iff.mp hs
    refine ⟨(ch.sent.map (·.write)).drop (k + 1), ?_⟩
    rw [hdrop, List.drop_eq_getElem_cons (by rwa [List.length_map]), List.getElem_map, hget]
  · exact .inl hnil

/-- Taking out the first entry of a kind is taking out this entry. -/
theorem eraseP_eq_erase {p : Queued → Bool} {q : Queued} :
    ∀ {l : List Queued}, l.find? p = some q → l.eraseP p = l.erase q
  | [], h => absurd h (by simp)
  | x :: l, h => by
    cases hx : p x with
    | true =>
      rw [List.find?_cons_of_pos hx] at h
      obtain rfl := Option.some.inj h
      rw [List.eraseP_cons_of_pos hx, List.erase_cons_head]
    | false =>
      rw [List.find?_cons_of_neg (by simp [hx])] at h
      have hne : x ≠ q := by
        intro heq
        rw [heq, List.find?_some h] at hx
        exact absurd hx (by simp)
      rw [List.eraseP_cons_of_neg (by simp [hx]), List.erase_cons_tail (by simpa using hne),
        eraseP_eq_erase h]

/-- The write of a channel was answered: it left the queue and got the result, and no other write
was touched. -/
structure Acknowledged (c : Connection) (g n : Nat) (r : WriteResult) (c' : Connection) : Prop where
  queue : c'.queue = c.queue.erase ⟨g, n⟩
  writes : c'.writes = c.writes.modify n fun w => w.resolve r
  results : c'.results = c.results ++ [(n, r)]

theorem acknowledged_of_cons {n : Nat} {ns : List Nat} (h : c.carried g = n :: ns)
    (r : WriteResult) : Acknowledged c g n r (c.answer g r) := by
  have hfirst : c.queue.find? (fun q => q.generation == g) = some ⟨g, n⟩ := by
    have hhead : (c.queue.find? fun q => q.generation == g).map (·.write) = some n := by
      rw [← List.head?_filter, ← List.head?_map]
      exact congrArg List.head? h
    obtain ⟨q, hq, rfl⟩ := Option.map_eq_some_iff.mp hhead
    have hgen : q.generation = g := by simpa using List.find?_some hq
    rw [hq, ← hgen]
  refine ⟨?_, ?_, ?_⟩
  · rw [answer_queue, eraseP_eq_erase hfirst]
  · rw [answer_of_cons r h]
    rfl
  · rw [answer_of_cons r h, results_resolve]
    rfl

theorem Acknowledged.congr {c₂ : Connection} {n : Nat} {r : WriteResult}
    (h : Acknowledged c g n r c') (k : Alike c' c₂) : Acknowledged c g n r c₂ :=
  ⟨k.queue.trans h.queue, k.writes.trans h.writes, k.results.trans h.results⟩

/-- A write that waits gets just this result. -/
theorem Acknowledged.result? {n : Nat} {r : WriteResult} (h : Acknowledged c g n r c')
    (hs : Settled c c.Waits) (hn : c.Waits n) : c'.result? n = some r := by
  obtain ⟨w, hw⟩ : ∃ w, c.writes[n]? = some w := ⟨_, List.getElem?_eq_getElem (hs.known n hn)⟩
  have hnone : w.result = none := (hs.unresolved n w hw).mpr hn
  rw [Connection.result?, h.writes, List.getElem?_modify, hw]
  simp [PendingWrite.resolve_result_of_none hnone]

section Created

variable {id : String} {o : Config.ConnectionOptions} {as : List Action}

theorem follows_run (h : create id o = .ok c) (hp : Paced c g as) :
    Follows (c.run as) g (c.answered g as) := by
  have hblank : Follows (blank id o) g 0 :=
    ⟨fun _ hch => absurd hch (by simp [blank]), fun _ hch => absurd hch List.not_mem_nil,
      Nat.zero_le _⟩
  have hnew : Follows c g 0 := by
    rw [eq_of_create h]
    exact hblank.act coherent_blank numbered_blank (.call .connect) (Nat.zero_le _)
  have hpaced : ∀ p, p <+: as → 0 + c.answered g p ≤ ((c.run p).sentOn g).length := by
    intro p hpre
    rw [Nat.zero_add]
    exact hp p hpre
  have hrun := hnew.run (coherent_created h) (numbered_run h []) hpaced
  rwa [Nat.zero_add] at hrun

/-- **An answer meets its request.** In every run in which the channel never brings more answers
than requests went out on it, the next answer of the channel belongs to the next request that went
out on it. If the write of this request is queued on the channel, the answer resolves this write and
no other, of whichever channel. If it is not, the answer changes neither the queue nor any
write. -/
theorem answer_meets_request (h : create id o = .ok c) {a : Action} {r : WriteResult}
    (ha : (c.run as).answers g a = some r) (hp : Paced c g (as ++ [a])) :
    ∃ s, ((c.run as).sentOn g)[c.answered g as]? = some s ∧
      (⟨g, s.write⟩ ∈ (c.run as).queue →
        Acknowledged (c.run as) g s.write r (c.run (as ++ [a])) ∧
        ((∀ b ∈ as, b.isOwn = true) → (c.run (as ++ [a])).result? s.write = some r)) ∧
      (⟨g, s.write⟩ ∉ (c.run as).queue → Alike (c.run as) (c.run (as ++ [a]))) := by
  have hcoh := coherent_run h as
  have hfol : Follows (c.run as) g (c.answered g as) :=
    follows_run h fun p hpre => hp p (hpre.trans (List.prefix_append _ _))
  obtain ⟨c₁, q, k, q', k'⟩ := hcoh.act_answers ha
  have hact : Alike ((c.run as).answer g r) (c.run (as ++ [a])) := by
    rw [run_append]
    exact (k.answer g r).trans k'
  -- the answer itself is paced, so there is a request without an answer
  have hlt : c.answered g as < ((c.run as).sentOn g).length := by
    have hlast := hp (as ++ [a]) (List.prefix_refl _)
    have hlogs : (c.run (as ++ [a])).logs = (c.run as).logs := by
      rw [run_append]
      exact q'.logs.trans ((answer_logs _ _ _).trans q.logs)
    rw [sentOn_congr hlogs, answered_append] at hlast
    simp only [answered, ha, Option.toList_some, List.length_singleton] at hlast
    omega
  refine ⟨_, List.getElem?_eq_getElem hlt, ?_⟩
  generalize hs : ((c.run as).sentOn g)[c.answered g as] = s
  have hget : ((c.run as).sentOn g)[c.answered g as]? = some s := by
    rw [List.getElem?_eq_getElem hlt, hs]
  have hnext : (c.run as).carried g = [] ∨ ∃ ns, (c.run as).carried g = s.write :: ns := by
    rcases hcoh.answers_reader ha with hnil | ⟨ch, hch, hgen, hread⟩
    · exact .inl hnil
    · exact hfol.carried_next hcoh hch hgen hread hget
  rw [← mem_carried]
  rcases hnext with hnil | ⟨ns, hcons⟩
  · refine ⟨fun hmem => ?_, fun _ => ?_⟩
    · rw [hnil] at hmem
      exact absurd hmem List.not_mem_nil
    · rwa [answer_of_nil r hnil] at hact
  · refine ⟨fun hmem => ?_, fun hnot => ?_⟩
    · have hdone := (acknowledged_of_cons hcons r).congr hact
      refine ⟨hdone, fun hown => hdone.result? (settled_run h hown) ?_⟩
      exact List.mem_map_of_mem (mem_carried.mp hmem)
    · rw [hcons] at hnot
      exact absurd List.mem_cons_self hnot

/-- The channel that was replaced answers its write after the current one answered a later write. -/
theorem answer_of_replaced_channel :
    let c := (blank "s" {}).connect
    let as : List Action := [.call (.write {}), .call .reconnect, .call (.write {}),
      .receive 1 .opened, .receive 2 .opened, .receive 2 (.response {})]
    let a : Action := .receive 1 (.response {})
    (create "s" {} = .ok c ∧ (c.run as).answers 1 a = some (.ok {}) ∧ Paced c 1 (as ++ [a])) ∧
      Acknowledged (c.run as) 1 0 (.ok {}) (c.run (as ++ [a])) := by
  intro c as a
  have hnew : create "s" {} = .ok c := create_eq (by decide)
  have hmeets : (c.run as).meets 1 (.response {}) = true := by decide +kernel
  have hanswer : (c.run as).answers 1 a = some (.ok {}) :=
    (answers_receive hmeets).trans rfl
  have hpaced : Paced c 1 (as ++ [a]) := by decide +kernel
  obtain ⟨s, hs, hdone, -⟩ := answer_meets_request hnew hanswer hpaced
  have hzero : s.write = 0 := by
    have hwrite : (((c.run as).sentOn 1)[c.answered 1 as]?).map (·.write) = some 0 := by
      decide +kernel
    rw [hs] at hwrite
    exact Option.some.inj hwrite
  rw [hzero] at hdone
  exact ⟨⟨hnew, hanswer, hpaced⟩, (hdone (by decide +kernel)).1⟩

end Created

end Connection

end RowStream.Stream
