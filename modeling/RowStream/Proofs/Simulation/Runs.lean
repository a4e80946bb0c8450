import RowStream.Proofs.Stream.Holders
import RowStream.Simulation.Step

/-!
# What goes on between two worlds

Most of what can be done in a world reaches its connections only through their runs: the client, the
handles and the number of connections stay, and every connection goes on by actions of its own
(`Runs P`, where `P` says of what kind). The background is of this kind, and its actions are
those of readers.

* `Runs.alive`: which connections are alive stays, unless somebody lets one go.
* `Goes.sealed`: a connection without a channel stays so, unless somebody asks for one.
* `runs_settle`: the background.
-/

namespace RowStream.Simulation

open RowStream.Stream

/-- The reader of a channel meets something. -/
def OfReader (a : Action) : Prop := ∃ g i, a = .receive g i

/-- Nobody lets the connection go. -/
def Keeping (a : Action) : Prop := a ≠ .call .release

/-- Nobody asks for a channel, or lets the connection go. -/
def Calm (a : Action) : Prop := a.opens = false ∧ Keeping a

theorem Calm.of_reader {a : Action} (h : OfReader a) : Calm a := by
  obtain ⟨g, i, rfl⟩ := h
  exact ⟨rfl, by simp [Keeping]⟩

section Connections

variable {c c' c'' : Connection} {P Q : Action → Prop}

/-- The connection goes on by actions of the kind `P`. -/
def Goes (P : Action → Prop) (c c' : Connection) : Prop :=
  ∃ as, (∀ a ∈ as, P a) ∧ c' = c.run as

theorem Goes.refl (c : Connection) : Goes P c c := ⟨[], by simp, rfl⟩

theorem Goes.act {a : Action} (ha : P a) (c : Connection) : Goes P c (c.act a) :=
  ⟨[a], by simpa using ha, rfl⟩

theorem Goes.trans (h : Goes P c c') (h' : Goes P c' c'') : Goes P c c'' := by
  obtain ⟨as, has, rfl⟩ := h
  obtain ⟨bs, hbs, rfl⟩ := h'
  refine ⟨as ++ bs, fun a ha => ?_, (Connection.run_append ..).symm⟩
  exact (List.mem_append.mp ha).elim (has a) (hbs a)

theorem Goes.mono (h : Goes P c c') (hPQ : ∀ a, P a → Q a) : Goes Q c c' := by
  obtain ⟨as, has, rfl⟩ := h
  exact ⟨as, fun a ha => hPQ a (has a ha), rfl⟩

theorem Goes.alive (h : Goes P c c') (hP : ∀ a, P a → Keeping a) : c'.alive = c.alive := by
  obtain ⟨as, has, rfl⟩ := h
  exact Connection.run_alive (fun a ha => hP a (has a ha)) c

theorem Goes.reachable (h : Goes P c c') (hc : c.Reachable) : c'.Reachable := by
  obtain ⟨as, -, rfl⟩ := h
  exact hc.run as

/-- A connection without a channel stays so. -/
theorem Goes.sealed (h : Goes Calm c c') (hc : c.Reachable) (hnone : c.channel = none) :
    c'.channel = none := by
  obtain ⟨as, has, rfl⟩ := h
  exact (hc.coherent.run_sealed hc.halts hnone fun a ha => (has a ha).1).channel

end Connections

namespace World

variable {w w' w'' : World} {P Q : Action → Prop} {id : Nat} {c c' : Connection}

/-- The names in the hands of the caller, with the connection of each. -/
def holders (w : World) : Keyed Nat := w.handles.map fun e => (e.1, e.2.id)

/-- The client and the holders stay, and every connection goes on by actions of the kind `P`. -/
structure Runs (P : Action → Prop) (w w' : World) : Prop where
  client : w'.client = w.client
  holders : w'.holders = w.holders
  count : w'.connections.length = w.connections.length
  goes : ∀ (id : Nat) (c : Connection), w.connections[id]? = some c →
    ∃ c', w'.connections[id]? = some c' ∧ Goes P c c'

/-- What leaves client, handles and connections alone. -/
theorem Runs.of_eq (hc : w'.client = w.client) (hh : w'.handles = w.handles)
    (hn : w'.connections = w.connections) : Runs P w w' where
  client := hc
  holders := by rw [World.holders, hh, World.holders]
  count := by rw [hn]
  goes id c h := ⟨c, by rw [hn, h], .refl c⟩

theorem Runs.refl (w : World) : Runs P w w := .of_eq rfl rfl rfl

theorem Runs.trans (h : Runs P w w') (h' : Runs P w' w'') : Runs P w w'' where
  client := h'.client.trans h.client
  holders := h'.holders.trans h.holders
  count := h'.count.trans h.count
  goes id c hc := by
    obtain ⟨c', hc', hgoes⟩ := h.goes id c hc
    obtain ⟨c'', hc'', hgoes'⟩ := h'.goes id c' hc'
    exact ⟨c'', hc'', hgoes.trans hgoes'⟩

/-- What leaves client, handles and connections alone may come before. -/
theorem Runs.after_same (h : Runs P w' w'') (hc : w'.client = w.client)
    (hh : w'.handles = w.handles) (hn : w'.connections = w.connections) : Runs P w w'' :=
  Runs.trans (.of_eq hc hh hn) h

theorem Runs.mono (h : Runs P w w') (hPQ : ∀ a, P a → Q a) : Runs Q w w' where
  client := h.client
  holders := h.holders
  count := h.count
  goes id c hc := by
    obtain ⟨c', hc', hgoes⟩ := h.goes id c hc
    exact ⟨c', hc', hgoes.mono hPQ⟩

/-! ## One connection -/

@[simp] theorem setConnection_connections (w : World) (id : Nat) (c : Connection) :
    (w.setConnection id c).connections = w.connections.set id c := rfl

theorem runs_setConnection (hc : w.connections[id]? = some c) (h : Goes P c c') :
    Runs P w (w.setConnection id c') where
  client := rfl
  holders := rfl
  count := List.length_set
  goes id' old hold := by
    rw [setConnection_connections, List.getElem?_set]
    by_cases hid : id = id'
    · subst hid
      obtain ⟨hlt, -⟩ := List.getElem?_eq_some_iff.mp hc
      obtain rfl := Option.some.inj (hc.symm.trans hold)
      exact ⟨c', by simp [hlt], h⟩
    · exact ⟨old, by simp [hid, hold], .refl old⟩

theorem runs_updateConnection (w : World) (id : Nat) {f : Connection → Connection}
    (hf : ∀ c, w.connections[id]? = some c → Goes P c (f c)) :
    Runs P w (w.updateConnection id f) := by
  cases hc : w.connections[id]? with
  | none => simpa only [updateConnection, hc] using Runs.refl w
  | some c => simpa only [updateConnection, hc] using runs_setConnection hc (hf c hc)

/-! ## What a run keeps -/

/-- **Which connections are alive stays.** -/
theorem Runs.alive (h : Runs P w w') (hP : ∀ a, P a → Keeping a) (id : Nat) :
    w'.isAlive id = w.isAlive id := by
  cases hc : w.connections[id]? with
  | none =>
    have hnone : w'.connections[id]? = none := by
      rw [List.getElem?_eq_none_iff, h.count]
      exact List.getElem?_eq_none_iff.mp hc
    simp only [isAlive, hc, hnone]
  | some c =>
    obtain ⟨c', hc', hgoes⟩ := h.goes id c hc
    simp only [isAlive, hc, hc']
    exact hgoes.alive hP

/-- Connections that runs come to stay of this kind. -/
theorem Runs.reachable (h : Runs P w w') (hr : ∀ c ∈ w.connections, c.Reachable) :
    ∀ c ∈ w'.connections, c.Reachable := by
  intro c' hmem
  obtain ⟨id, hid⟩ := List.mem_iff_getElem?.mp hmem
  obtain ⟨hlt, -⟩ := List.getElem?_eq_some_iff.mp hid
  rw [h.count] at hlt
  obtain ⟨c'', hc'', hgoes⟩ := h.goes id _ (List.getElem?_eq_getElem hlt)
  obtain rfl := Option.some.inj (hid.symm.trans hc'')
  exact hgoes.reachable (hr _ (List.getElem_mem hlt))

/-! ## Sessions -/

theorem runs_wake (w : World) (s : Session) : Runs P w (w.wake s) := by
  unfold wake
  dsimp only
  split
  · exact .refl w
  · exact .of_eq rfl rfl rfl

theorem runs_send (w : World) (n : Nat) (i : Incoming) : Runs P w (w.send n i).2 := by
  unfold send
  split
  · exact .refl w
  · split
    · exact (runs_wake (w.setSession n _) _).after_same rfl rfl rfl
    · exact .refl w

/-- The end of a session is that the other side of its channel hangs up. -/
theorem runs_endSession (w : World) (n : Nat) (hP : ∀ g, P (.hangUp g)) :
    Runs P w (w.endSession n) := by
  unfold endSession
  split
  · exact .refl w
  · rename_i s _
    have hwake : Runs P w ((w.setSession n { s with ended := true }).wake s) :=
      (runs_wake _ s).after_same rfl rfl rfl
    exact hwake.trans (runs_updateConnection _ _ fun c _ => .act (hP s.generation) c)

theorem runs_forgetSession (w : World) (name : String) (hP : ∀ g, P (.hangUp g)) :
    Runs P w (w.forgetSession name) := by
  unfold forgetSession
  split
  · exact (runs_endSession _ _ hP).after_same rfl rfl rfl
  · exact .refl w

/-! ## The background -/

theorem runs_receive (w : World) (t : Task) (i : Incoming) : Runs OfReader w (w.receive t i) :=
  runs_updateConnection w t.connection fun c _ =>
    .act (a := .receive t.generation i) ⟨_, _, rfl⟩ c

theorem runs_openCall (w : World) (t : Task) : Runs OfReader w (w.openCall t) := by
  unfold openCall
  split
  · exact (runs_receive _ _ _).after_same rfl rfl rfl
  · exact (runs_receive _ t .opened).after_same rfl rfl rfl

theorem runs_takeAll (w : World) (t : Task) (is : List Incoming) :
    Runs OfReader w (w.takeAll t is) := by
  induction is generalizing w with
  | nil => exact .refl w
  | cons i is ih =>
    unfold takeAll
    split
    · exact (runs_receive w t i).trans (ih _)
    · exact .refl w

theorem runs_run (w : World) (t : Task) : Runs OfReader w (w.run t) := by
  unfold run
  split
  · exact .refl w
  · exact runs_openCall w t
  · split
    · exact .refl w
    · split
      · exact .refl w
      · rename_i n _ _ s _
        have hall : Runs OfReader w
            ((w.setSession n { s with unread := [] }).takeAll t s.unread) :=
          (runs_takeAll _ t s.unread).after_same rfl rfl rfl
        dsimp only
        split
        · exact hall.trans (runs_receive _ _ _)
        · exact hall

theorem runs_runAll (count : Nat) (w : World) : Runs OfReader w (runAll count w) := by
  induction count generalizing w with
  | zero => exact .refl w
  | succ count ih =>
    unfold runAll
    split
    · exact .refl w
    · exact ((runs_run _ _).trans (ih _)).after_same rfl rfl rfl

/-- **The background is a run of readers.** -/
theorem runs_settle (w : World) : Runs OfReader w w.settle :=
  (runs_runAll w.workLeft w).trans (.of_eq rfl rfl rfl)

/-- What follows the step itself: the background, unless it is held back, and the report. -/
theorem runs_after (w : World) (s : Step) (hold : Bool) :
    Runs OfReader (w.apply s).2 (w.step s hold).2 := by
  have hreport (w : World) (answer : Answer) : Runs OfReader w (w.report answer).2 :=
    .of_eq rfl rfl rfl
  unfold step
  dsimp only
  split
  · exact hreport _ _
  · exact (runs_settle _).trans (hreport _ _)

end World

end RowStream.Simulation
