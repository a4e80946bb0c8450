import RowStream.Proofs.Stream.Coherent

/-!
# What an action comes to

`Outcome c a c'` lists all that an action does to a coherent connection, with what it takes for it:
which call replaces a channel and when, which item of which reader answers a write, and which
failure loses the channel. `Coherent.outcome` says that there is nothing else. A proof about runs
goes through the outcomes, or through the moves that they are made of, and opens no operation
again.

* `Coherent.outcome`: every action has one of the outcomes.
* `coherent_run`: every run of a new connection is coherent.
* `run_induct`: what every action keeps holds along every run.
-/

namespace RowStream.Stream

open Service (AppendRequest CallError Failure)

/-- The call asks for a fresh channel although the old one may do. -/
def Connection.Call.replaces : Connection.Call → Bool
  | .reconnect | .setDescriptor _ _ => true
  | _ => false

/-- A change of a write that keeps its request, and its result once it has one. -/
def PendingWrite.Keeps (f : PendingWrite → PendingWrite) : Prop :=
  ∀ w, (f w).request = w.request ∧ ∀ r, w.result = some r → (f w).result = some r

theorem PendingWrite.keeps_resolve (r : WriteResult) : Keeps fun w => w.resolve r := by
  intro w
  cases hw : w.result with
  | some r' => simp [resolve, hw]
  | none => simp [resolve, hw]

theorem PendingWrite.keeps_retry : Keeps retry := fun _ => ⟨rfl, fun _ hr => hr⟩

namespace Connection

/-- The queue, the writes and their results are as they were. -/
structure Alike (c c' : Connection) : Prop where
  queue : c'.queue = c.queue
  writes : c'.writes = c.writes
  given : c'.given = c.given

/-- What a reader's item does to a connection that is alive. -/
inductive Handled (c : Connection) (g : Nat) : Incoming → Connection → Prop
  | quiet {i : Incoming} {c' : Connection} (hi : i.answer? = none) (q : Quiets c c') :
      Handled c g i c'
  | answer {i : Incoming} {r : WriteResult} {c' : Connection} (hi : i.answer? = some r)
      (q : Quiets c c') (k : Alike c c') : Handled c g i (c'.answer g r)
  | reject {e : CallError} {r : WriteResult} {c' : Connection} (hg : c.generation = g)
      (q : Quiets c c') : Handled c g (.refused e) (c'.answer g r)
  | lose {e : CallError} (hg : c.generation = g) (ht : (Failure.ofCall e).isTransient = true) :
      Handled c g (.failure e) (c.reopen (.recover (some (Failure.ofCall e))))

/-- What an action does to a connection. -/
inductive Outcome (c : Connection) : Action → Connection → Prop
  | quiet {a : Action} {c' : Connection} (hr : c.returns a = none)
      (ha : ∀ g, c.answers g a = none) (q : Quiets c c') : Outcome c a c'
  | opens (ha : c.alive = true) (ho : c.isOpen = false) :
      Outcome c (.call .connect) (c.reopen (.recover none))
  | replace {k : Call} (ha : c.alive = true) (hk : k.replaces = true) :
      Outcome c (.call k) (c.reopen .drain)
  | refuse {r : AppendRequest} (ha : c.alive = true) (hc : c.channel = none) :
      Outcome c (.call (.write r)) (c.refuse r)
  | accept {r : AppendRequest} {ch : Channel} (ha : c.alive = true) (hc : c.channel = some ch)
      (hu : ch.isUsable = true) : Outcome c (.call (.write r)) (c.accept r)
  | recover {r : AppendRequest} {ch : Channel} (ha : c.alive = true) (hc : c.channel = some ch)
      (hu : ch.isUsable = false) :
      Outcome c (.call (.write r)) ((c.reopen (.recover none)).accept r)
  | answer {a : Action} {g : Nat} {r : WriteResult} {c₁ c' : Connection}
      (ha : c.answers g a = some r) (q : Quiets c c₁) (k : Alike c c₁)
      (q' : Quiets (c₁.answer g r) c') (k' : Alike (c₁.answer g r) c') : Outcome c a c'
  | reject {e : CallError} {r : WriteResult} {c₁ c' : Connection} (q : Quiets c c₁)
      (q' : Quiets (c₁.answer c.generation r) c')
      (hs : ∀ ch, c'.channel? c.generation = some ch → ch.reader = .stopped) :
      Outcome c (.receive c.generation (.refused e)) c'
  | lose {e : CallError} {c' : Connection} (hm : c.meets c.generation (.failure e) = true)
      (ht : (Failure.ofCall e).isTransient = true)
      (q : Quiets (c.reopen (.recover (some (Failure.ofCall e)))) c') :
      Outcome c (.receive c.generation (.failure e)) c'
  | mark {n : Nat} {r : WriteResult} :
      Outcome c (.mark n r) (c.mapWrite n fun w => w.resolve r)
  | retry {n : Nat} : Outcome c (.retry n) (c.mapWrite n PendingWrite.retry)

variable {c c' : Connection} {g : Nat} {i : Incoming}

/-! ## What a reader's item does -/

theorem alive_of_meets (h : c.meets g i = true) : c.alive = true := by
  rw [meets, Bool.and_eq_true] at h
  exact h.1

theorem Alike.refl (c : Connection) : Alike c c := ⟨rfl, rfl, rfl⟩

/-- An answer to a channel that carries nothing changes nothing. -/
theorem Handled.of_nil {r : WriteResult} (hi : i.answer? = some r) (hc : c'.carried g = [])
    (q : Quiets c c') (k : Alike c c') : Handled c g i c' := by
  have hdone := Handled.answer (g := g) hi q k
  rwa [answer_of_nil r hc] at hdone

/-- A failure is an answer if it is that of a single request. -/
theorem answer?_failure {e : CallError} (hcode : (Failure.ofCall e).code = .invalidArgument)
    (hs : (Failure.ofCall e).isSchemaMismatch = false) :
    (Incoming.failure e).answer? = some (.error (.request (Failure.ofCall e))) :=
  if_pos ⟨hcode, hs⟩

theorem answer?_mismatch {e : CallError} (hs : (Failure.ofCall e).isSchemaMismatch = true) :
    (Incoming.failure e).answer? = none :=
  if_neg fun h => absurd (hs.symm.trans h.2) (by simp)

theorem answer?_other {e : CallError} (hcode : (Failure.ofCall e).code ≠ .invalidArgument) :
    (Incoming.failure e).answer? = none :=
  if_neg fun h => hcode h.1

theorem answer?_transient {e : CallError} (ht : (Failure.ofCall e).isTransient = true) :
    (Incoming.failure e).answer? = none := by
  refine answer?_other fun hcode => ?_
  rw [Failure.isTransient, hcode] at ht
  exact absurd ht (by decide)

theorem onResponse_handled (g : Nat) (r : Service.AppendResponse) :
    Handled c g (.response r) (c.onResponse g r) := by
  unfold onResponse
  cases r.updatedSchema with
  | none => exact .answer rfl .refl (.refl c)
  | some s =>
    exact .answer rfl ((Relation.ReflTransGen.single (.learn s)).tail (.publish _)) ⟨rfl, rfl, rfl⟩

/-- A failure of the current channel, whose call was open. -/
theorem onFailure_handled (hg : c.generation = g) (e : CallError) :
    Handled c g (.failure e) (c.onFailure (Failure.ofCall e) true) := by
  simp only [onFailure, if_true]
  split
  · rename_i hs
    exact .quiet (answer?_mismatch hs) ((Relation.ReflTransGen.single (.shut _)).tail (.publish _))
  · rename_i hs
    rw [Bool.not_eq_true] at hs
    split
    · rename_i ht
      exact .lose hg ht
    · have hreport : Quiets c (c.reportFailure (Failure.ofCall e)) :=
        (Relation.ReflTransGen.single .tearDown).tail (.publish _)
      split
      · rename_i hcode
        rw [hg]
        exact .answer (answer?_failure hcode.1 hs) .refl (.refl c)
      · rename_i hnot
        by_cases hcode : (Failure.ofCall e).code = .invalidArgument
        · have hnil : c.carried g = [] := by
            rw [hg] at hnot
            exact Decidable.not_not.mp fun hne => hnot ⟨hcode, hne⟩
          exact .of_nil (answer?_failure hcode hs) hnil hreport ⟨rfl, rfl, rfl⟩
        · exact .quiet (answer?_other hcode) hreport

/-- The call of the current channel could not be opened. -/
theorem onRefused_handled (hg : c.generation = g) (e : CallError) :
    Handled c g (.refused e) (c.onFailure (Failure.ofCall e) false) := by
  have hfirst : Quiets c c.tearDown := .single .tearDown
  simp only [onFailure, Bool.false_eq_true, if_false]
  split
  · exact .quiet rfl ((hfirst.tail (.shut _)).tail (.publish _))
  · split
    · exact .quiet rfl (hfirst.tail (.publish _))
    · split
      · rw [tearDown_generation, hg]
        exact .reject hg hfirst
      · exact .quiet rfl ((hfirst.tail .tearDown).tail (.publish _))

/-- A failure of a channel that was replaced. -/
theorem onReplacedFailure_handled (hg : c.generation ≠ g) (e : CallError) :
    Handled c g (.failure e) (c.onReplacedFailure g (Failure.ofCall e)) := by
  unfold onReplacedFailure
  split
  · rename_i hcode
    exact .answer (answer?_failure hcode.1 hcode.2) .refl (.refl c)
  · rename_i hcode
    exact .quiet (if_neg hcode) (.single (.fail g _ (Ne.symm hg)))

/-- An item of a channel that carries nothing any more. -/
theorem handled_of_nil (i : Incoming) (hc : c.carried g = []) : Handled c g i c := by
  cases hi : i.answer? with
  | none => exact .quiet hi .refl
  | some r => exact .of_nil hi hc .refl (.refl c)

/-- An item leads to a move or two, whatever it is and whichever channel it comes from. -/
theorem handled (c : Connection) (g : Nat) (i : Incoming) : Handled c g i (c.handle g i) := by
  by_cases hg : c.generation = g
  · cases i with
    | opened => exact .quiet rfl .refl
    | refused e =>
      rw [handle, onRefused, if_pos hg]
      exact onRefused_handled hg e
    | response r =>
      rw [handle, onItem, if_pos hg]
      exact onResponse_handled g r
    | failure e =>
      rw [handle, onItem, if_pos hg]
      exact onFailure_handled hg e
    | ended =>
      rw [handle, onEnded, if_pos hg]
      exact .quiet rfl (.single .tearDown)
  · cases i with
    | opened => exact .quiet rfl .refl
    | refused e =>
      rw [handle, onRefused, if_neg hg]
      exact .quiet rfl (.single (.fail g _ (Ne.symm hg)))
    | response r =>
      rw [handle, onItem, if_neg hg]
      split
      · rename_i hnil
        exact handled_of_nil _ (List.isEmpty_iff.mp hnil)
      · exact onResponse_handled g r
    | failure e =>
      rw [handle, onItem, if_neg hg]
      split
      · rename_i hnil
        exact handled_of_nil _ (List.isEmpty_iff.mp hnil)
      · exact onReplacedFailure_handled hg e
    | ended =>
      rw [handle, onEnded, if_neg hg]
      exact .quiet rfl (.single (.fail g _ (Ne.symm hg)))

theorem Handled.moves (ha : c.alive = true) (h : Handled c g i c') : Moves c c' := by
  cases h with
  | quiet _ q => exact q.moves
  | answer _ q => exact q.moves.tail (.answer g _)
  | reject _ q => exact q.moves.tail (.answer g _)
  | lose => exact .single (.reopen _ ha)

/-! ## When a reader stops -/

/-- Nothing is left to the reader of a channel: the channel is a replaced one without writes, or the
current one and failed. -/
def Spent (c : Connection) (g : Nat) : Prop :=
  (g ≠ c.generation → c.carried g = []) ∧
    (g = c.generation → ∀ ch, c.channel = some ch → ch.isUsable = false)

theorem Coherent.spent (h : Coherent c) (hc : c.channel = none) (g : Nat) : Spent c g := by
  refine ⟨fun _ => carried_of_queue_nil (h.closed hc) g, fun _ ch hch => ?_⟩
  rw [hc] at hch
  exact absurd hch (by simp)

theorem spent_of_readsOn (h : c.readsOn g = false) : Spent c g := by
  refine ⟨fun hg => ?_, fun hg ch hch => ?_⟩
  · rw [readsOn, if_neg (Ne.symm hg)] at h
    simpa using h
  · rw [readsOn, if_pos hg.symm, hch] at h
    exact absurd h (by simp)

theorem spent_failGeneration (hg : c.generation ≠ g) (e : WriteError) :
    Spent (c.failGeneration g e) g := by
  refine ⟨fun _ => carried_failGeneration_self _ _ g, fun heq => ?_⟩
  rw [failGeneration, failWhere_generation] at heq
  exact absurd heq.symm hg

/-- A reader stops only when nothing is left to it. -/
theorem Coherent.spent_handle (h : Coherent (c.handle g i)) (hs : i.stops
    ((c.handle g i).alive && (c.handle g i).readsOn g) = true) : Spent (c.handle g i) g := by
  have item (hon : ((c.handle g i).alive && (c.handle g i).readsOn g) = false) :
      Spent (c.handle g i) g := by
    cases ha : (c.handle g i).alive with
    | false => exact h.spent (h.held ha) g
    | true =>
      rw [ha, Bool.true_and] at hon
      exact spent_of_readsOn hon
  cases i with
  | opened => exact absurd hs (by simp [Incoming.stops])
  | response r => exact item (by simpa only [Incoming.stops, Bool.not_eq_true'] using hs)
  | failure e => exact item (by simpa only [Incoming.stops, Bool.not_eq_true'] using hs)
  | refused e =>
    simp only [handle, onRefused]
    split
    · rename_i hg
      obtain ⟨hgen, husable⟩ := onFailure_refused c (Failure.ofCall e)
      refine ⟨fun hne => absurd hg.symm ?_, fun _ => husable⟩
      rwa [hgen] at hne
    · rename_i hg
      exact spent_failGeneration hg _
  | ended =>
    simp only [handle, onEnded]
    split
    · rename_i hg
      exact ⟨fun hne => absurd hg.symm hne, fun _ _ => isUsable_tearDown⟩
    · rename_i hg
      exact spent_failGeneration hg _

theorem Spent.meet (h : Spent c g) (i : Incoming) (on : Bool) :
    Quiet c (c.mapChannel g fun ch => ch.meet i on) :=
  .meet g i on (fun _ => h.1) fun _ => h.2

/-! ## The outcomes of the actions -/

theorem outcome_call (ha : c.alive = true) (k : Call) : Outcome c (.call k) (c.call k) := by
  have hclose : Quiets c c.close := (Relation.ReflTransGen.single (.shut _)).tail (.bump rfl)
  cases k with
  | connect =>
    simp only [call, connect]
    split
    · exact .quiet rfl (fun _ => rfl) .refl
    · rename_i ho
      exact .opens ha (by simpa using ho)
  | reconnect => exact .replace ha rfl
  | close => exact .quiet rfl (fun _ => rfl) hclose
  | write r =>
    rw [call]
    cases hc : c.channel with
    | none => rw [write_of_none hc]; exact .refuse ha hc
    | some ch =>
      cases hu : ch.isUsable with
      | true => rw [write_of_usable hc hu]; exact .accept ha hc hu
      | false => rw [write_of_unusable hc hu]; exact .recover ha hc hu
  | flush m offset =>
    simp only [call, flush]
    split
    · exact .quiet rfl (fun _ => rfl) hclose
    · split <;> exact .quiet rfl (fun _ => rfl) hclose
  | finalize m =>
    simp only [call, finalize]
    split
    · exact .quiet rfl (fun _ => rfl) hclose
    · split <;> exact .quiet rfl (fun _ => rfl) hclose
  | setDescriptor w d =>
    simp only [call, Writer.setDescriptor]
    split
    · exact .quiet rfl (fun _ => rfl) .refl
    · exact .replace ha rfl
  | release =>
    have hgone : Quiets c c.release := (Relation.ReflTransGen.single (.shut _)).tail (.letGo rfl)
    exact .quiet rfl (fun _ => rfl) hgone

/-- The reader has met the item and stopped or goes on. -/
theorem Coherent.quiet_meet (h : Coherent (c.handle g i)) : Quiet (c.handle g i)
    ((c.handle g i).mapChannel g
      fun ch => ch.meet i ((c.handle g i).alive && (c.handle g i).readsOn g)) :=
  .meet g i _ (fun hs => (h.spent_handle hs).1) fun hs => (h.spent_handle hs).2

theorem mapChannel_channel? {f : Channel → Channel} {ch : Channel}
    (h : (c.mapChannel g f).channel? g = some ch) : ∃ old, ch = f old := by
  obtain ⟨hmem, hgen⟩ := channel?_some h
  rw [channels_mapChannel] at hmem
  obtain ⟨old, -, rfl⟩ := List.mem_map.mp hmem
  split
  · exact ⟨old, rfl⟩
  · rename_i hne
    rw [if_neg hne] at hgen
    exact absurd hgen hne

/-- A reader that can meet the item has it handled, and stops or goes on. -/
theorem receive_of_meets (h : c.meets g i = true) : c.receive g i =
    (c.handle g i).mapChannel g
      fun ch => ch.meet i ((c.handle g i).alive && (c.handle g i).readsOn g) := by
  rw [meets, Bool.and_eq_true, Option.any_eq_true] at h
  obtain ⟨ha, ch, hch, htakes⟩ := h
  unfold receive
  simp only [hch, ha, if_true]
  exact if_pos htakes

/-- Nothing is handled for any other reader; at most it stops, if the connection is gone. -/
theorem receive_of_not_meets (h : c.meets g i = false) :
    c.receive g i = c ∨
      c.alive = false ∧ c.receive g i = c.mapChannel g fun ch => ch.meet i false := by
  unfold receive
  cases hch : c.channel? g with
  | none => exact .inl rfl
  | some ch =>
    dsimp only
    split
    · rename_i htakes
      have ha : c.alive = false := by simpa [meets, hch, htakes] using h
      right
      simp [ha]
    · exact .inl rfl

theorem Coherent.outcome_receive (h : Coherent c) (g : Nat) (i : Incoming) :
    Outcome c (.receive g i) (c.receive g i) := by
  cases hm : c.meets g i with
  | false =>
    have hnone : ∀ g', c.answers g' (.receive g i) = none := fun g' => by simp [answers, hm]
    rcases receive_of_not_meets hm with heq | ⟨ha, heq⟩
    · rw [heq]
      exact .quiet rfl hnone .refl
    · rw [heq]
      exact .quiet rfl hnone (.single ((h.spent (h.held ha) g).meet i _))
  | true =>
    have ha := alive_of_meets hm
    have hrec := receive_of_meets hm
    have hdone := handled c g i
    have hlast := (h.moves (hdone.moves ha)).quiet_meet
    rw [← hrec] at hlast
    generalize c.handle g i = c₁ at hdone hlast hrec
    cases hdone with
    | quiet hi q => exact .quiet rfl (fun _ => by simp [answers, hi]) (q.tail hlast)
    | answer hi q k =>
      refine .answer ((answers_receive hm).trans hi) q k (.single hlast) ?_
      rw [hrec]
      exact ⟨rfl, rfl, rfl⟩
    | reject hg q =>
      subst hg
      refine .reject q (.single hlast) fun ch' hch' => ?_
      rw [hrec] at hch'
      obtain ⟨old, rfl⟩ := mapChannel_channel? hch'
      exact Channel.meet_reader_of_stops rfl
    | lose hg ht =>
      subst hg
      exact .lose hm ht (.single hlast)

theorem outcome_late (g : Nat) (i : Incoming) : Outcome c (.late g i) (c.act (.late g i)) := by
  simp only [act]
  split
  · rename_i hlate
    have hne : c.generation ≠ g := by
      simp only [stopsLate, Bool.and_eq_true, bne_iff_ne] at hlate
      exact hlate.1.2
    have hdone := handled c g i
    generalize hk : c.handle g i = c₁ at hdone
    cases hdone with
    | quiet hi q => exact .quiet rfl (fun _ => by simp [answers, hi]) q
    | answer hi q k => exact .answer ((answers_late hlate i).trans hi) q k .refl (.refl _)
    | reject hg => exact absurd hg hne
    | lose hg => exact absurd hg hne
  · rename_i hlate
    exact .quiet rfl (fun _ => by simp [answers, hlate]) .refl

/-- **Every action has one of the outcomes.** -/
theorem Coherent.outcome (h : Coherent c) (a : Action) : Outcome c a (c.act a) := by
  cases a with
  | call k =>
    simp only [act]
    split
    · rename_i ha
      exact outcome_call ha k
    · rename_i ha
      refine .quiet ?_ (fun _ => rfl) .refl
      cases k with
      | write r => exact if_neg ha
      | _ => rfl
  | receive g i => exact h.outcome_receive g i
  | late g i => exact outcome_late g i
  | hangUp g => exact .quiet rfl (fun _ => rfl) (.single (.hangUp g))
  | mark n r => exact .mark
  | retry n => exact .retry

/-- An outcome is made of moves, or somebody who holds a write did something to it. -/
theorem Outcome.moves {a : Action} (o : Outcome c a c') : Moves c c' ∨
    (∃ n r, a = .mark n r ∧ c' = c.mapWrite n fun w => w.resolve r) ∨
    ∃ n, a = .retry n ∧ c' = c.mapWrite n PendingWrite.retry := by
  cases o with
  | quiet _ _ q => exact .inl q.moves
  | opens ha => exact .inl (.single (.reopen _ ha))
  | replace ha => exact .inl (.single (.reopen _ ha))
  | refuse => exact .inl (.single (.refuse _))
  | accept _ hc => exact .inl (.single (.accept _ (by simp [hc])))
  | recover ha =>
    have hopen : Moves c (c.reopen (.recover none)) := .single (.reopen _ ha)
    exact .inl (hopen.tail (.accept _ (reopen_channel_ne c _)))
  | answer _ q _ q' => exact .inl ((q.moves.tail (.answer _ _)).trans q'.moves)
  | reject q q' => exact .inl ((q.moves.tail (.answer _ _)).trans q'.moves)
  | lose hm _ q =>
    exact .inl (q.moves.head (.reopen _ (alive_of_meets hm)))
  | mark => exact .inr (.inl ⟨_, _, rfl, rfl⟩)
  | retry => exact .inr (.inr ⟨_, rfl, rfl⟩)

/-- What every move keeps, some moves keep. -/
theorem Coherent.moves_induct (h : Coherent c) (m : Moves c c') {P : Connection → Prop}
    (move : ∀ {c c'}, Coherent c → P c → Move c c' → P c') (hP : P c) : P c' := by
  induction m with
  | refl => exact hP
  | tail m₀ m ih => exact move (h.moves m₀) ih m

/-- What every move keeps and every change of a single write, every action keeps. -/
theorem Coherent.act_induct (h : Coherent c) (a : Action) {P : Connection → Prop}
    (move : ∀ {c c'}, Coherent c → P c → Move c c' → P c')
    (touch : ∀ {c} n f, PendingWrite.Keeps f → P c → P (c.mapWrite n f)) (hP : P c) :
    P (c.act a) := by
  rcases (h.outcome a).moves with m | ⟨n, r, -, heq⟩ | ⟨n, -, heq⟩
  · exact h.moves_induct m move hP
  · rw [heq]
    exact touch n _ (PendingWrite.keeps_resolve r) hP
  · rw [heq]
    exact touch n _ PendingWrite.keeps_retry hP

/-! ## Runs -/

theorem Coherent.act (h : Coherent c) (a : Action) : Coherent (c.act a) :=
  h.act_induct a (fun _ hc m => hc.move m)
    (fun _ _ _ hc => hc.of_subset rfl rfl rfl rfl fun _ hq => hq) h

theorem Coherent.run (h : Coherent c) (as : List Action) : Coherent (c.run as) := by
  induction as generalizing c with
  | nil => exact h
  | cons a as ih => exact ih (h.act a)

/-- What every action of a run keeps, the run keeps. -/
theorem Coherent.run_induct (h : Coherent c) {P : Connection → Prop} {as : List Action}
    (step : ∀ a ∈ as, ∀ {c}, Coherent c → P c → P (c.act a)) (hP : P c) : P (c.run as) := by
  induction as generalizing c with
  | nil => exact hP
  | cons a as ih =>
    exact ih (h.act a) (fun b hb => step b (List.mem_cons_of_mem a hb))
      (step a List.mem_cons_self h hP)

section Created

variable {id : String} {o : Config.ConnectionOptions}

/-- A connection before its first channel. -/
def blank (id : String) (o : Config.ConnectionOptions) : Connection :=
  { streamId := id, options := o }

theorem coherent_blank : Coherent (blank id o) :=
  ⟨.nil, fun _ hg => absurd hg List.not_mem_nil, fun _ hch => absurd hch (by simp [blank]),
    fun _ => rfl, fun _ hq => absurd hq List.not_mem_nil, fun _ hch => absurd hch (by simp [blank]),
    fun _ => rfl⟩

/-- A new connection is a blank one that was told to connect. -/
theorem eq_of_create (h : create id o = .ok c) : c = (blank id o).act (.call .connect) := by
  unfold create at h
  split at h
  · exact (Except.ok.inj h).symm
  · exact absurd h (by simp)

theorem create_eq (h : isHeaderText (routingHeader id) = true) :
    create id o = .ok (blank id o).connect := if_pos h

theorem coherent_created (h : create id o = .ok c) : Coherent c := by
  rw [eq_of_create h]
  exact coherent_blank.act _

/-- **Every run of a new connection is coherent.** -/
theorem coherent_run (h : create id o = .ok c) (as : List Action) : Coherent (c.run as) :=
  (coherent_created h).run as

/-- What holds of a blank connection and is kept by every action holds along every run. -/
theorem run_induct (h : create id o = .ok c) {P : Connection → Prop} {as : List Action}
    (step : ∀ a ∈ Action.call .connect :: as, ∀ {c}, Coherent c → P c → P (c.act a))
    (hP : P (blank id o)) : P (c.run as) := by
  rw [eq_of_create h]
  exact coherent_blank.run_induct step hP

end Created

end Connection

end RowStream.Stream
