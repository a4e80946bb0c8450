import RowStream.Proofs.Stream.Failure

/-!
# A call that could not be opened

The current channel whose call could not be opened is of no more use, and its reader has stopped. Nothing
that happens by itself gives the connection another (`Idle`): only a caller does, who asks for a channel or
sends a request.

The failure is published, with one exception. Where it can be taken for the refusal of a request, which
takes an `InvalidArgument` that is no mismatch while the channel carries a write, the oldest write fails
with it and no event tells that the channel is gone.

* `Idle.act`: what an action does to an idle connection.
* `refused_call_reported`: what is published, and that the connection stays idle, in every run.
-/

namespace RowStream.Stream

open Service (AppendRequest CallError Failure)

/-- The action may open a channel: somebody asks for one, or sends a request. -/
def Action.reopens : Action → Bool
  | .call (.write _) => true
  | a => a.opens

/-- The error that tells of a call that could not be opened. -/
def WriteError.ofRefused (f : Failure) : WriteError :=
  if f.isSchemaMismatch then .schemaMismatch f else .connection f

namespace Connection

variable {c c' : Connection} {ch : Channel} {e : CallError} {f : Failure}

/-! ## Idle connections -/

/-- The channel, if there is one, takes no more writes, and its reader has stopped. -/
def Idle (c : Connection) : Prop :=
  ∀ ch, c.channel = some ch → ch.isUsable = false ∧ ch.reader = .stopped

theorem Idle.isOpen (h : Idle c) : c.isOpen = false :=
  isOpen_eq_false.mpr fun ch hch => (h ch hch).1

theorem Idle.congr (h : Idle c) (hch : c'.channel = c.channel) : Idle c' :=
  fun ch hch' => h ch (hch ▸ hch')

theorem idle_of_none (hch : c.channel = none) : Idle c :=
  fun _ hch' => absurd (hch.symm.trans hch') (by simp)

/-- Changing the channel does not bring it back. -/
theorem Idle.of_map (h : Idle c) {k : Channel → Channel} (hch : c'.channel = c.channel.map k)
    (hk : ∀ ch, ch.isUsable = false ∧ ch.reader = .stopped →
      (k ch).isUsable = false ∧ (k ch).reader = .stopped) : Idle c' := by
  intro ch hch'
  obtain ⟨old, hold, rfl⟩ := Option.map_eq_some_iff.mp (hch.symm.trans hch')
  exact hk old (h old hold)

theorem Idle.quiet (h : Idle c) (q : Quiet c c') : Idle c' := by
  cases q with
  | publish e => exact h
  | learn s => exact h
  | fail g e => exact h.congr (failWhere_channel c _ e)
  | shut e => exact idle_of_none (shut_channel c e)
  | bump hnone => exact idle_of_none hnone
  | letGo hnone => exact idle_of_none hnone
  | tearDown => exact h.of_map rfl fun ch hch => ⟨rfl, hch.2⟩
  | hangUp g =>
    refine h.of_map rfl fun ch hch => ?_
    split
    · exact ⟨by simp [Channel.isUsable], hch.2⟩
    · exact hch
  | meet g i on =>
    refine h.of_map rfl fun ch hch => ?_
    split
    · exact ⟨Channel.meet_isUsable_of_not hch.1, Channel.meet_reader_stopped hch.2 i on⟩
    · exact hch

theorem Idle.quiets (h : Idle c) (q : Quiets c c') : Idle c' := by
  induction q with
  | refl => exact h
  | tail _ q ih => exact ih.quiet q

/-- An answer opens no channel, whatever happens quietly before and after it. -/
theorem generations_of_answer {c₁ : Connection} {g : Nat} {r : WriteResult} (q : Quiets c c₁)
    (q' : Quiets (c₁.answer g r) c') : c'.generations = c.generations :=
  generations_of_logs (by rw [q'.logs, answer_logs, q.logs])

/-- The reader of the latest channel of an idle connection meets nothing. -/
theorem Idle.not_meets (h : Idle c) (hc : Coherent c) (hh : Halts c) (i : Incoming) :
    c.meets c.generation i = false := by
  by_contra hm
  rw [Bool.not_eq_false, meets, Bool.and_eq_true, Option.any_eq_true] at hm
  obtain ⟨-, ch, hch, htakes⟩ := hm
  obtain ⟨hmem, hgen⟩ := channel?_some hch
  have hstopped : ch.reader = .stopped := by
    rcases mem_channels.mp hmem with hpast | hcurrent
    · cases hcur : c.channel with
      | none => exact hh hcur ch hpast hgen
      | some cur => exact absurd hgen (Nat.ne_of_lt (hc.past_lt hcur hpast))
    · exact (h ch hcurrent).2
  rw [hstopped] at htakes
  exact absurd htakes (by cases i <;> simp [Reader.takes])

/-- **Nothing opens a channel for an idle connection** but a caller who asks for it. -/
theorem Idle.act (h : Idle c) (hc : Coherent c) (hh : Halts c) {a : Action} (ha : a.reopens = false) :
    Idle (c.act a) ∧ (c.act a).generations = c.generations := by
  have hquiets {c' : Connection} (q : Quiets c c') : Idle c' ∧ c'.generations = c.generations :=
    ⟨h.quiets q, generations_of_logs q.logs⟩
  have hanswer {c₁ c' : Connection} (g : Nat) (r : WriteResult) (q : Quiets c c₁)
      (q' : Quiets (c₁.answer g r) c') : Idle c' ∧ c'.generations = c.generations := by
    have hidle : Idle (c₁.answer g r) := (h.quiets q).congr (answer_channel c₁ g r)
    exact ⟨hidle.quiets q', generations_of_answer q q'⟩
  have hout := hc.outcome a
  generalize hc' : c.act a = c' at hout
  cases hout with
  | quiet _ _ q => exact hquiets q
  | opens => exact absurd ha (by simp [Action.reopens, Action.opens])
  | replace hal hk =>
    rename_i k
    -- a writer that keeps its descriptor asks for no channel
    cases k with
    | setDescriptor w d =>
      have hsame : d = w.descriptor := by simpa [Action.reopens, Action.opens] using ha
      rw [← hc', Connection.act, if_pos hal, call, Writer.setDescriptor, if_pos hsame]
      exact ⟨h, rfl⟩
    | _ => exact absurd ha (by simp_all [Action.reopens, Action.opens, Call.replaces])
  | refuse => exact absurd ha (by simp [Action.reopens])
  | accept => exact absurd ha (by simp [Action.reopens])
  | recover => exact absurd ha (by simp [Action.reopens])
  | answer _ q _ q' => exact hanswer _ _ q q'
  | reject q q' => exact hanswer _ _ q q'
  | lose hm => exact absurd hm (by simp [h.not_meets hc hh])
  | mark => exact ⟨h, rfl⟩
  | retry => exact ⟨h, rfl⟩

theorem Idle.run (h : Idle c) (hc : Coherent c) (hh : Halts c) {as : List Action}
    (has : ∀ a ∈ as, a.reopens = false) :
    Idle (c.run as) ∧ (c.run as).generations = c.generations := by
  induction as generalizing c with
  | nil => exact ⟨h, rfl⟩
  | cons a as ih =>
    obtain ⟨hidle, hgens⟩ := h.act hc hh (has a List.mem_cons_self)
    obtain ⟨hrest, hgens'⟩ := ih hidle (hc.act a) (hh.act hc a)
      fun b hb => has b (List.mem_cons_of_mem a hb)
    exact ⟨hrest, hgens'.trans hgens⟩

/-! ## A call that could not be opened -/

/-- What can be taken for the refusal of a request fails the oldest write. -/
theorem onFailure_refused_of_request (h : IsKind c f .request) :
    c.onFailure f false = c.tearDown.answer c.generation (.error (.request f)) := by
  rw [isKind_iff] at h
  unfold kindOf at h
  split_ifs at h with hm ht hr
  have hr' : f.code = .invalidArgument ∧ c.tearDown.carried c.tearDown.generation ≠ [] := hr
  simp only [onFailure, hm, ht, Bool.false_eq_true, if_false]
  exact if_pos hr'

/-- Whatever else it is gets published. -/
theorem onFailure_refused_published (h : ¬IsKind c f .request) :
    (c.onFailure f false).published = c.published ++ [.error (.ofRefused f)] := by
  rw [isKind_iff] at h
  unfold kindOf at h
  unfold WriteError.ofRefused
  have hr : ¬ f.isSchemaMismatch → ¬ f.isTransient →
      ¬ (f.code = .invalidArgument ∧ c.tearDown.carried c.tearDown.generation ≠ []) := by
    intro hm ht hr
    exact h (by rw [if_neg hm, if_neg ht]; exact if_pos hr)
  simp only [onFailure, Bool.false_eq_true, if_false]
  split_ifs with hm ht hreq
  · exact congrArg (· ++ [_]) (shut_published c.tearDown _)
  · rfl
  · exact absurd hreq (hr hm ht)
  · rfl

theorem handle_refused (c : Connection) (e : CallError) :
    c.handle c.generation (.refused e) = c.onFailure (Failure.ofCall e) false := if_pos rfl

/-- A call that could not be opened leaves the connection idle, and opens no channel. -/
theorem Coherent.idle_of_refused (h : Coherent c) (hch : c.channel = some ch)
    (hm : c.meets ch.generation (.refused e) = true) :
    Idle (c.receive ch.generation (.refused e)) ∧
      (c.receive ch.generation (.refused e)).generations = c.generations := by
  have hcoh := h.moves ((handled c ch.generation (.refused e)).moves (alive_of_meets hm))
  have hout := h.outcome (.receive ch.generation (.refused e))
  rw [Connection.act] at hout
  have hreceive := receive_of_meets hm
  rw [h.current ch hch] at hcoh hout hreceive ⊢
  rw [handle_refused] at hcoh hreceive
  constructor
  · intro last hlast
    rw [hreceive] at hlast
    obtain ⟨old, hold, rfl⟩ := Option.map_eq_some_iff.mp hlast
    have hgen : old.generation = c.generation :=
      (hcoh.current old hold).trans (onFailure_refused c _).1
    rw [if_pos hgen]
    exact ⟨by simp [Channel.meet, Channel.isUsable], rfl⟩
  · generalize c.receive c.generation (.refused e) = c' at hout
    cases hout with
    | quiet _ _ q => exact generations_of_logs q.logs
    | answer _ q _ q' => exact generations_of_answer q q'
    | reject q q' => exact generations_of_answer q q'

/-- **A call that could not be opened is reported, but for one case.** When the call of the current channel
could not be opened, in any run,

* one event is published, which tells of the failure, unless it can be taken for the refusal of a request:
  then the oldest write of the channel fails with it and no event is published;
* the connection is not open any more, and no channel is opened for it until somebody asks for one or sends
  a request. -/
theorem refused_call_reported {id : String} {o : Config.ConnectionOptions} (h : create id o = .ok c)
    (as : List Action) (hch : (c.run as).channel = some ch)
    (hm : (c.run as).meets ch.generation (.refused e) = true) :
    let s := c.run as
    let s' := c.run (as ++ [.receive ch.generation (.refused e)])
    let f := Failure.ofCall e
    (¬IsKind s f .request → s'.published = s.published ++ [.error (.ofRefused f)]) ∧
    (IsKind s f .request → s'.published = s.published ∧
      ∃ n ns, s.carried s.generation = n :: ns ∧ Gives s [n] (.error (.request f)) s') ∧
    ∀ bs, (∀ b ∈ bs, b.reopens = false) →
      (s'.run bs).isOpen = false ∧ (s'.run bs).generations = s.generations := by
  intro s s' f
  have hcoh := coherent_run h as
  have hs' : s' = s.receive ch.generation (.refused e) := run_concat c as _
  have hgen : ch.generation = s.generation := hcoh.current ch hch
  have hhandled : s.handle ch.generation (.refused e) = s.onFailure f false := by
    rw [hgen, handle_refused]
  refine ⟨fun hk => ?_, fun hk => ?_, fun bs hbs => ?_⟩
  · rw [hs', receive_of_meets hm, hhandled]
    exact onFailure_refused_published hk
  · have hnum : Numbered s := numbered_run h as
    obtain ⟨n, ns, hcons⟩ := List.exists_cons_of_ne_nil hk.2.2
    have hdown : Numbered s.tearDown := ⟨hnum.rising, hnum.known⟩
    have hgives := gives_answer (c := s.tearDown) hdown hcons (.error (.request f))
    rw [hs', receive_of_meets hm, hhandled, onFailure_refused_of_request hk]
    exact ⟨answer_published s.tearDown _ _, n, ns, hcons, hgives.results, hgives.resolved, hgives.others⟩
  · obtain ⟨hidle, hgens⟩ := hcoh.idle_of_refused hch hm
    have hhalts : Halts (s.receive ch.generation (.refused e)) :=
      (halts_run h as).act hcoh (.receive ch.generation (.refused e))
    obtain ⟨hrest, hgens'⟩ := hidle.run (hcoh.act (.receive ch.generation (.refused e))) hhalts hbs
    rw [hs']
    exact ⟨hrest.isOpen, hgens'.trans hgens⟩

/-- The call could not be opened for an internal error: the event tells of it, also where a write waits. -/
theorem reported_with_write_waiting :
    let c := (blank "s" {}).connect
    let as : List Action := [.call (.write {})]
    let e : CallError := ⟨.internal, "broken", []⟩
    let s' := c.run (as ++ [.receive 1 (.refused e)])
    create "s" {} = .ok c ∧ (c.run as).meets 1 (.refused e) = true ∧ s'.published.length = 1 ∧
      (s'.run [.hangUp 1, .late 1 .ended]).isOpen = false := by
  intro c as e s'
  have hnew : create "s" {} = .ok c := create_eq (by decide)
  obtain ⟨ch, hch, hgen⟩ : ∃ ch, (c.run as).channel = some ch ∧ ch.generation = 1 := ⟨_, rfl, rfl⟩
  have hm : (c.run as).meets 1 (.refused e) = true := by decide
  obtain ⟨hpublished, -, hidle⟩ := refused_call_reported hnew as hch (hgen ▸ hm)
  rw [hgen] at hpublished hidle
  have hkind : ¬IsKind (c.run as) (Failure.ofCall e) .request := by
    rw [isKind_iff]
    decide
  refine ⟨hnew, hm, ?_, (hidle [.hangUp 1, .late 1 .ended] (by decide)).1⟩
  rw [hpublished hkind]
  decide

/-- The call could not be opened for an `InvalidArgument` while a write waits: the write fails, and nothing
tells that the channel is gone. -/
theorem unreported_with_write_waiting :
    let c := (blank "s" {}).connect
    let e : CallError := ⟨.invalidArgument, "no such stream", []⟩
    let s := c.run [.call (.write {})]
    let s' := c.run [.call (.write {}), .receive 1 (.refused e)]
    create "s" {} = .ok c ∧ s.meets 1 (.refused e) = true ∧ s.generation = 1 ∧ s.isOpen = true ∧
      s'.isOpen = false ∧ s'.isUnresolved 0 = false ∧
      ¬∃ err, s'.published = s.published ++ [.error err] := by
  intro c e s s'
  have hsame : s'.published.length = s.published.length := by decide
  refine ⟨create_eq (by decide), by decide, rfl, by decide, by decide, by decide, ?_⟩
  rintro ⟨err, hpublished⟩
  rw [hpublished, List.length_append] at hsame
  exact absurd hsame (Nat.succ_ne_self _)

end Connection

end RowStream.Stream
