import RowStream.Proofs.Stream.Outcome

/-!
# What a connection reports

A connection publishes events, keeps all of them in their order, and remembers the schema that it
published last. Both happen in one step when a response brings a schema; everything else that happens to
a connection publishes errors or nothing.

* `tells_act`: what one action adds to the events, and the schema that is the latest after it.
* `latestSchema_run`: the latest schema is the last one among the events, in every run.
-/

namespace RowStream.Stream

open Service (AppendRequest AppendResponse CallError Failure)

/-- The schema that an event reports. -/
def Event.schema? : Event → Option Table.Schema
  | .schemaUpdated t => some t
  | .error _ => none

namespace Connection

variable {c c' c'' : Connection} {g : Nat}

/-- The later connection has published more, and its latest schema is the last of the new ones, or the
old one where there are none. -/
def Tells (c c' : Connection) : Prop :=
  ∃ es, c'.published = c.published ++ es ∧
    c'.latestSchema = (es.filterMap Event.schema?).getLast?.or c.latestSchema

theorem Tells.of_same (hp : c'.published = c.published) (hl : c'.latestSchema = c.latestSchema) :
    Tells c c' :=
  ⟨[], by rw [hp, List.append_nil], hl⟩

theorem Tells.refl (c : Connection) : Tells c c := .of_same rfl rfl

theorem Tells.trans (h : Tells c c') (h' : Tells c' c'') : Tells c c'' := by
  obtain ⟨es, hp, hl⟩ := h
  obtain ⟨es', hp', hl'⟩ := h'
  refine ⟨es ++ es', by rw [hp', hp, List.append_assoc], ?_⟩
  rw [hl', hl, List.filterMap_append, List.getLast?_append, Option.or_assoc]

theorem tells_error (c : Connection) (e : WriteError) : Tells c (c.publish (.error e)) :=
  ⟨[.error e], rfl, rfl⟩

/-! ## The operations -/

theorem tells_failWhere (c : Connection) (p : Queued → Bool) (e : WriteError) :
    Tells c (c.failWhere p e) :=
  .of_same (failWhere_published c p e) (failWhere_latestSchema c p e)

theorem tells_answer (c : Connection) (g : Nat) (r : WriteResult) : Tells c (c.answer g r) :=
  .of_same (answer_published c g r) (by rw [answer_eq])

theorem tells_shut (c : Connection) (e : WriteError) : Tells c (c.shut e) :=
  (tells_failWhere c _ e).trans (.of_same rfl rfl)

theorem tells_reopen (c : Connection) (h : Handover) : Tells c (c.reopen h) :=
  .of_same (reopen_published c h) (reopen_latestSchema c h)

theorem tells_write (c : Connection) (r : AppendRequest) : Tells c (c.write r).2 := by
  rcases c.write_cases r with ⟨-, heq⟩ | ⟨c₁, ch, hopen, hch, heq⟩ <;> rw [heq]
  · exact .of_same rfl rfl
  · have hfirst : Tells c c₁ := by
      rcases hopen with rfl | rfl
      · exact .refl c₁
      · exact tells_reopen c _
    refine hfirst.trans ?_
    rw [accept_eq hch]
    exact .of_same rfl rfl

theorem tells_call (c : Connection) (k : Call) : Tells c (c.call k) := by
  have hclose : Tells c c.close := (tells_shut c .aborted).trans (.of_same rfl rfl)
  cases k with
  | connect =>
    simp only [call, connect]
    split
    · exact .refl c
    · exact tells_reopen c _
  | reconnect => exact tells_reopen c _
  | close => exact hclose
  | write r => exact tells_write c r
  | flush m offset =>
    simp only [call, flush]
    split
    · exact hclose
    · split <;> exact hclose
  | finalize m =>
    simp only [call, finalize]
    split
    · exact hclose
    · split <;> exact hclose
  | setDescriptor w d =>
    simp only [call, Writer.setDescriptor]
    split
    · exact .refl c
    · exact tells_reopen c _
  | release => exact (tells_shut c .aborted).trans (.of_same rfl rfl)

/-! ## What readers meet -/

/-- A response that brings a schema publishes it, and makes it the latest. -/
theorem tells_onResponse (c : Connection) (g : Nat) (r : AppendResponse) :
    Tells c (c.onResponse g r) := by
  unfold onResponse
  refine Tells.trans ?_ (tells_answer _ g _)
  cases r.updatedSchema with
  | none => exact .refl c
  | some s => exact ⟨[.schemaUpdated s], rfl, rfl⟩

theorem tells_onFailure (c : Connection) (f : Failure) (established : Bool) :
    Tells c (c.onFailure f established) := by
  unfold onFailure
  have hdown : Tells c (if established then c else c.tearDown) := by
    split
    · exact .refl c
    · exact .of_same rfl rfl
  refine hdown.trans ?_
  generalize (if established then c else c.tearDown) = c₁
  simp only
  split
  · exact (tells_shut c₁ _).trans (tells_error _ _)
  · split
    · split
      · exact tells_reopen c₁ _
      · exact tells_error c₁ _
    · split
      · exact tells_answer c₁ _ _
      · exact Tells.trans (.of_same rfl rfl) (tells_error c₁.tearDown _)

theorem tells_handle (c : Connection) (g : Nat) (i : Incoming) : Tells c (c.handle g i) := by
  have hitem (item : Except CallError AppendResponse) : Tells c (c.onItem g item) := by
    unfold onItem
    split
    · cases item with
      | ok r => exact tells_onResponse c g r
      | error e => exact tells_onFailure c _ true
    · split
      · exact .refl c
      · cases item with
        | ok r => exact tells_onResponse c g r
        | error e =>
          simp only [onReplacedFailure]
          split
          · exact tells_answer c g _
          · exact tells_failWhere c _ _
  cases i with
  | opened => exact .refl c
  | refused e =>
    simp only [handle, onRefused]
    split
    · exact tells_onFailure c _ false
    · exact tells_failWhere c _ _
  | response r => exact hitem (.ok r)
  | failure e => exact hitem (.error e)
  | ended =>
    simp only [handle, onEnded]
    split
    · exact .of_same rfl rfl
    · exact tells_failWhere c _ _

/-- **What one action adds to the events**, and the latest schema after it. -/
theorem tells_act (c : Connection) (a : Action) : Tells c (c.act a) := by
  cases a with
  | call k =>
    simp only [act]
    split
    · exact tells_call c k
    · exact .refl c
  | receive g i =>
    cases hm : c.meets g i with
    | true =>
      simp only [act, receive_of_meets hm]
      exact (tells_handle c g i).trans (.of_same rfl rfl)
    | false =>
      rcases receive_of_not_meets hm with heq | ⟨-, heq⟩ <;> rw [act, heq]
      · exact .refl c
      · exact .of_same rfl rfl
  | late g i =>
    simp only [act]
    split
    · exact tells_handle c g i
    · exact .refl c
  | hangUp g => exact .of_same rfl rfl
  | mark n r => exact .of_same rfl rfl
  | retry n => exact .of_same rfl rfl

/-! ## The latest schema -/

/-- The latest schema is the last one that was published. -/
def Told (c : Connection) : Prop := c.latestSchema = (c.published.filterMap Event.schema?).getLast?

theorem Tells.told (h : Tells c c') (hc : Told c) : Told c' := by
  obtain ⟨es, hp, hl⟩ := h
  rw [Told, hl, hc, hp, List.filterMap_append, List.getLast?_append]

/-- **The latest schema of a connection is the last that it published**, in every run. -/
theorem latestSchema_run {id : String} {o : Config.ConnectionOptions} (h : create id o = .ok c)
    (as : List Action) : Told (c.run as) :=
  run_induct (P := Told) h (fun a _ _ _ hc => (tells_act _ a).told hc) rfl

end Connection

end RowStream.Stream
