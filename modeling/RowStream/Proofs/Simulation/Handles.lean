import RowStream.Proofs.Keyed
import RowStream.Proofs.RowWriter.Run
import RowStream.Proofs.Simulation.Runs

/-!
# Handles and the connections they hold

Every name in the hands of the caller holds a connection of its own, and a connection is alive exactly
while something holds it (`Sound`). While a handle is made, its maker is what holds the connection; so
soundness is stated with the connection that is held without a name, if there is one.

* `apply_runs`: a step that makes no handle, takes none away and does not close the client reaches the
  connections through their runs only.
* `Sound.dropHandle`, `Sound.release`, `Sound.addConnection`, `Sound.setHandle`: what the others do.
-/

namespace RowStream.Simulation

open RowStream.Stream

/-- The step neither makes a handle nor takes one away, and leaves the list of the client alone. -/
def Step.isPlain : Step → Bool
  | .connect _ _ _ | .connectRaw _ _ _ | .drop _ | .clientClose => false
  | _ => true

/-! ## What writers do to their connection -/

section Writers

variable {c c' : Connection}

theorem goes_call (ha : c.alive = true) {k : Connection.Call} (hk : k ≠ .release) :
    Goes Keeping c (c.call k) := by
  have hact : c.act (.call k) = c.call k := by simp [Connection.act, ha]
  rw [← hact]
  exact .act (fun h => hk (Action.call.inj h)) c

theorem goes_switchAll (ha : c.alive = true) (w : Writer) (ds : List Descriptor.Message) :
    Goes Keeping c ((Writing.mk w c).switchAll ds).connection :=
  Writing.switchAll_induct (s := ⟨w, c⟩) (P := Goes Keeping c)
    (fun _ h => h.trans (goes_call (k := .reconnect) ((h.alive fun _ hk => hk).trans ha) (by simp)))
    (.refl c) ds

theorem goes_append (ha : c.alive = true) (w : RowWriter) (rows : List Row)
    (offset : Option Int64) : Goes Keeping c (w.append c rows offset).2.2 := by
  have hswitch := goes_switchAll ha w.writer (w.takes c)
  rcases w.append_cases c rows offset with ⟨-, heq⟩ | ⟨bytes, -, heq⟩
  · rwa [← congrArg Writing.connection heq] at hswitch
  · have hconn : (w.append c rows offset).2.2 =
        ((w.plain c).switchAll (w.takes c)).connection.call (.write _) :=
      congrArg Writing.connection heq
    rw [hconn]
    exact hswitch.trans (goes_call ((hswitch.alive fun _ hk => hk).trans ha) (by simp))

theorem goes_appendJson (ha : c.alive = true) (w : RowWriter) (vs : List Json)
    (offset : Option Int64) : Goes Keeping c (w.appendJson c vs offset).2.2 := by
  cases h : RowWriter.rowsOfJson 0 vs with
  | error n => rw [RowWriter.appendJson_of_error h]; exact .refl c
  | ok rows => rw [RowWriter.appendJson_of_ok h]; exact goes_append ha w rows offset

end Writers

/-! ## Who holds what -/

namespace World

variable {w w' w₁ : World} {P : Action → Prop} {id : Nat} {c c' : Connection} {name : String}
  {h h' : Handle} {made made₁ : Option Nat}

/-- The connections that are held: by a name, or by the maker of a handle at work. -/
def held (w : World) (made : Option Nat) : List Nat :=
  w.handles.map (·.2.id) ++ made.toList

theorem held_of_holders (h : w'.holders = w.holders) : w'.held made = w.held made := by
  have hids (w : World) : w.handles.map (·.2.id) = w.holders.map (·.2) := by
    rw [holders, List.map_map]
    rfl
  rw [held, hids, h, ← hids, held]

/-- Names are different, every one holds a connection of its own, and a connection is alive exactly
while it is held. -/
structure Sound (w : World) (made : Option Nat) : Prop where
  reachable : ∀ c ∈ w.connections, c.Reachable
  named : Keyed.Ordered w.handles
  single : (w.held made).Nodup
  alive : ∀ id, w.isAlive id = true ↔ id ∈ w.held made

theorem isAlive_eq_true : w.isAlive id = true ↔
    ∃ c, w.connections[id]? = some c ∧ c.alive = true := by
  unfold isAlive
  cases w.connections[id]? <;> simp

theorem ordered_holders : Keyed.Ordered w.holders ↔ Keyed.Ordered w.handles := List.pairwise_map

theorem sound_start (config : Config.WriterConfig) : Sound (start config) none :=
  ⟨fun _ hc => absurd hc List.not_mem_nil, .nil, .nil, fun _ => by simp [isAlive, held, start]⟩

theorem Sound.runs (hs : Sound w made) (r : Runs P w w') (hP : ∀ a, P a → Keeping a) :
    Sound w' made where
  reachable := r.reachable hs.reachable
  named := by rw [← ordered_holders, r.holders, ordered_holders]; exact hs.named
  single := by rw [held_of_holders r.holders]; exact hs.single
  alive id := by rw [r.alive hP, held_of_holders r.holders]; exact hs.alive id

/-- What a name stands for holds a connection that is alive. -/
theorem Sound.alive_of_get? (hs : Sound w made) (hget : Keyed.get? w.handles name = some h) :
    ∃ c, w.connections[h.id]? = some c ∧ c.alive = true := by
  rw [← isAlive_eq_true, hs.alive]
  exact List.mem_append_left _ (List.mem_map_of_mem (Keyed.mem_of_get? hget))

/-! ## Handles that are taken away -/

theorem isAlive_congr (h : w'.connections = w.connections) (id : Nat) :
    w'.isAlive id = w.isAlive id := by
  simp only [isAlive, h]

/-- A connection that is let go is the only one that is not alive any more. -/
theorem isAlive_release (hc : w.connections[id]? = some c) (id' : Nat) :
    (w.updateConnection id Connection.release).isAlive id' =
      if id' = id then false else w.isAlive id' := by
  obtain ⟨hlt, -⟩ := List.getElem?_eq_some_iff.mp hc
  simp only [updateConnection, hc, isAlive, setConnection_connections]
  by_cases hid : id' = id
  · subst hid
    simp [hlt, Connection.release]
  · simp [hid, List.getElem?_set_ne (Ne.symm hid)]

/-- A connection that is held no more is let go. -/
theorem Sound.release (hs : Sound w made) (hconn : w₁.connections = w.connections)
    (hnamed : Keyed.Ordered w₁.handles) (hheld : (w.held made).Perm (id :: w₁.held made₁)) :
    Sound (w₁.updateConnection id Connection.release) made₁ := by
  obtain ⟨hnot, hnodup⟩ := List.nodup_cons.mp (hheld.nodup_iff.mp hs.single)
  obtain ⟨c, hc, ha⟩ := isAlive_eq_true.mp ((hs.alive id).mpr (hheld.mem_iff.mpr List.mem_cons_self))
  have hc₁ : w₁.connections[id]? = some c := by rw [hconn, hc]
  have hrel : Goes (fun _ => True) c c.release := by
    have hact : c.act (.call .release) = c.release := by simp [Connection.act, ha, Connection.call]
    exact hact ▸ .act trivial c
  have r : Runs (fun _ => True) w₁ (w₁.updateConnection id Connection.release) := by
    simpa only [updateConnection, hc₁] using runs_setConnection hc₁ hrel
  have hheld₁ : (w₁.updateConnection id Connection.release).held made₁ = w₁.held made₁ :=
    held_of_holders r.holders
  refine ⟨r.reachable (by rw [hconn]; exact hs.reachable), ?_, ?_, fun id' => ?_⟩
  · rw [← ordered_holders, r.holders, ordered_holders]
    exact hnamed
  · rw [hheld₁]
    exact hnodup
  · rw [hheld₁, isAlive_release hc₁]
    by_cases hid : id' = id
    · subst hid
      simpa using hnot
    · rw [if_neg hid, isAlive_congr hconn, hs.alive, hheld.mem_iff, List.mem_cons]
      simp [hid]

/-- The name is free after its handle was taken away, and what it held is let go. -/
theorem Sound.dropHandle (hs : Sound w made) (name : String) :
    Sound (w.dropHandle name) made ∧ name ∉ (w.dropHandle name).holders.map (·.1) := by
  cases hget : Keyed.get? w.handles name with
  | none =>
    simp only [World.dropHandle, hget]
    refine ⟨hs, ?_⟩
    rw [holders, List.map_map]
    exact Keyed.get?_eq_none.mp hget
  | some h =>
    simp only [World.dropHandle, hget]
    have hperm := (hs.named.perm_filter_ne hget).map (·.2.id)
    refine ⟨hs.release rfl (hs.named.filter _) (hperm.append_right _), ?_⟩
    obtain ⟨c, hc, -⟩ := hs.alive_of_get? hget
    simp only [updateConnection, hc]
    simp [holders, setConnection]

/-! ## Handles that are made -/

theorem isAlive_addConnection (w : World) (c : Connection) (id : Nat) :
    (w.addConnection c).2.isAlive id =
      if id = w.connections.length then c.alive else w.isAlive id := by
  simp only [isAlive, World.addConnection, List.getElem?_append]
  rcases Nat.lt_trichotomy id w.connections.length with hlt | rfl | hgt
  · rw [if_pos hlt, if_neg (Nat.ne_of_lt hlt)]
  · simp
  · have hnone : w.connections[id]? = none := List.getElem?_eq_none (Nat.le_of_lt hgt)
    have hlast : [c][id - w.connections.length]? = none := List.getElem?_eq_none (by
      rw [List.length_singleton]
      omega)
    rw [if_neg (Nat.lt_asymm hgt), if_neg (Nat.ne_of_gt hgt), hnone, hlast]

/-- A new connection is held by whoever made it. -/
theorem Sound.addConnection (hs : Sound w none) (hc : c.Reachable) (ha : c.alive = true) :
    Sound (w.addConnection c).2 (some w.connections.length) := by
  have hnew : w.isAlive w.connections.length = false := by simp [isAlive]
  have hheld : (w.addConnection c).2.held (some w.connections.length) =
      w.held none ++ [w.connections.length] := by
    simp [held, World.addConnection]
  refine ⟨?_, hs.named, ?_, fun id => ?_⟩
  · intro c' hc'
    rcases List.mem_append.mp hc' with hc' | hc'
    · exact hs.reachable c' hc'
    · exact (List.mem_singleton.mp hc') ▸ hc
  · rw [hheld, List.nodup_append]
    refine ⟨hs.single, by simp, fun a hmem b hb => ?_⟩
    rw [List.mem_singleton.mp hb]
    rintro rfl
    rw [(hs.alive _).mpr hmem] at hnew
    exact absurd hnew (by simp)
  · rw [hheld, List.mem_append, List.mem_singleton, ← hs.alive, isAlive_addConnection]
    by_cases hid : id = w.connections.length
    · simp [hid, ha]
    · simp [hid]

/-- To give a name to the handle of a new connection, in place of one that had the name. -/
theorem Sound.setHandle (hs : Sound w (some h.id)) (name : String) :
    Sound (w.setHandle name h) none := by
  obtain ⟨hdropped, hfree⟩ := hs.dropHandle name
  rw [holders, List.map_map] at hfree
  have hheld : ((w.dropHandle name).held (some h.id)).Perm ((w.setHandle name h).held none) := by
    have hput := (Keyed.put_perm (a := h) hfree).map (·.2.id)
    rw [held, Option.toList_some, held, Option.toList_none, List.append_nil]
    exact (List.perm_append_comm).trans hput.symm
  exact ⟨hdropped.reachable, hdropped.named.put name h, hheld.nodup_iff.mp hdropped.single,
    fun id => (hdropped.alive id).trans hheld.mem_iff⟩

/-! ## Steps that leave the holders alone -/

theorem runs_withSession (w : World) (name : String) {f : Nat → Session → Answer × World}
    (hf : ∀ n s, Runs P w (f n s).2) : Runs P w (w.withSession name f).2 := by
  unfold withSession
  split
  · exact .refl w
  · split
    · exact .refl w
    · exact hf _ _

theorem runs_withWrite (w : World) (n : Nat) {f : PendingWrite → Answer × World}
    (hf : ∀ p, Runs P w (f p).2) : Runs P w (w.withWrite n f).2 := by
  unfold withWrite
  split
  · exact hf _
  · exact .refl w

/-- Whoever holds a write does something with it. -/
theorem runs_updateWrite (w : World) (n : Nat) {f : PendingWrite → PendingWrite}
    (hf : ∀ (c : Connection) write, Goes P c (c.mapWrite write f)) :
    Runs P w (w.updateWrite n f) := by
  unfold updateWrite
  split
  · exact runs_updateConnection w _ fun c _ => hf c _
  · exact .refl w

theorem runs_withHandle (hs : Sound w made) {f : Handle → Connection → Answer × World}
    (hf : ∀ h c, Keyed.get? w.handles name = some h → w.connections[h.id]? = some c →
      c.alive = true → Runs P w (f h c).2) : Runs P w (w.withHandle name f).2 := by
  unfold withHandle
  split
  · exact .refl w
  · rename_i h hget
    obtain ⟨c, hc, ha⟩ := hs.alive_of_get? hget
    rw [hc]
    exact hf h c hget hc ha

theorem runs_changeConnection (hs : Sound w made) (name : String) {k : Connection.Call}
    (hk : k ≠ .release) : Runs Keeping w (w.changeConnection name fun c => c.call k).2 :=
  runs_withHandle hs fun _ _ _ hc ha => runs_setConnection hc (goes_call ha hk)

/-- A handle that changed holds the same connection. -/
theorem runs_keepHandle (hs : Sound w made) (hget : Keyed.get? w.handles name = some h)
    (hid : h'.id = h.id) : Runs P w (w.keepHandle name h') where
  client := rfl
  holders := hs.named.map_put hget hid
  count := rfl
  goes _ c hc := ⟨c, hc, .refl c⟩

theorem runs_putBack (hs : Sound w made) (hget : Keyed.get? w.handles name = some h)
    (hid : h'.id = h.id) (hc : w.connections[h.id]? = some c) (hgoes : Goes P c c') :
    Runs P w (w.putBack name h' c') := by
  rw [← hid] at hc
  exact (runs_keepHandle hs hget hid).trans (runs_setConnection hc hgoes)

theorem runs_answerWrite (w : World) (connection write : Nat) :
    Runs P w (w.answerWrite connection write).2 :=
  .of_eq rfl rfl rfl

theorem runs_append (hs : Sound w made) (name : String) (rows : Rows) (offset : Option Int64) :
    Runs Keeping w (w.append name rows offset).2 := by
  refine runs_withHandle hs fun h c hget hc ha => ?_
  have hfinish {id : Nat} (hid : id = h.id) {r : Except RowWriterError Nat × RowWriter × Connection}
      (hr : Goes Keeping c r.2.2) : Runs Keeping w (append.finish w name id r).2 := by
    obtain ⟨result, writer, c'⟩ := r
    have hput : Runs Keeping w (w.putBack name (.rowWriter id writer) c') :=
      runs_putBack hs hget hid hc hr
    cases result with
    | ok n => exact hput.trans (runs_answerWrite _ _ _)
    | error e => exact hput
  split
  · exact (runs_setConnection hc (goes_call ha (k := .write _) (by simp))).trans
      (runs_answerWrite _ _ _)
  · exact hfinish rfl (goes_append ha _ _ _)
  · exact hfinish rfl (goes_appendJson ha _ _ _)
  · exact .refl w

theorem runs_answerChange (hs : Sound w made) {id : Nat}
    (hget : Keyed.get? w.handles name = some h) (hid : id = h.id)
    (hc : w.connections[h.id]? = some c) {r : Except Shape.Error (RowWriter × Connection)}
    (hr : ∀ writer c', r = .ok (writer, c') → Goes P c c') :
    Runs P w (w.answerChange name id r).2 := by
  cases r with
  | error e => exact .refl w
  | ok r => exact runs_putBack hs hget hid hc (hr r.1 r.2 rfl)

theorem goes_setDescriptor (ha : c.alive = true) {w w' : RowWriter} {d : Descriptor.Message}
    (h : w.setDescriptor c d = .ok (w', c')) : Goes Keeping c c' := by
  obtain ⟨-, -, -, rfl⟩ := RowWriter.setDescriptor_eq_ok.mp h
  exact goes_call (k := .setDescriptor w.writer d) ha (by simp)

theorem runs_setDescriptor (hs : Sound w made) (name : String) (d : Descriptor.Message) :
    Runs Keeping w (w.setDescriptor name d).2 := by
  refine runs_withHandle hs fun h c hget hc ha => ?_
  cases h with
  | connection id => exact .refl w
  | writer id writer =>
    exact runs_putBack hs hget rfl hc (goes_call (k := .setDescriptor writer d) ha (by simp))
  | rowWriter id writer =>
    exact runs_answerChange hs hget rfl hc fun _ _ => goes_setDescriptor ha

theorem runs_setTableSchema (hs : Sound w made) (name : String) (t : Table.Schema) :
    Runs Keeping w (w.setTableSchema name t).2 := by
  refine runs_withHandle hs fun h c hget hc ha => ?_
  cases h with
  | rowWriter id writer =>
    refine runs_answerChange hs hget rfl hc fun writer' c' heq => ?_
    obtain ⟨d, -, hd⟩ := RowWriter.setTableSchema_eq_ok.mp heq
    exact goes_setDescriptor ha hd
  | _ => exact .refl w

theorem runs_changeWriter (hs : Sound w made) (name : String) (f : Writer → Writer) :
    Runs P w (w.changeWriter name f).2 := by
  refine runs_withHandle hs fun h c hget _ _ => ?_
  cases h with
  | connection id => exact .refl w
  | writer id writer => exact runs_keepHandle hs hget rfl
  | rowWriter id writer => exact runs_keepHandle hs hget rfl

theorem runs_accept (w : World) (name : String) : Runs Keeping w (w.accept name).2 := by
  unfold accept
  split
  · exact .refl w
  · split
    · exact .refl w
    · rename_i n ns _ _ _ _
      have hforget : Runs Keeping w ({ w with offered := ns }.forgetSession name) :=
        (runs_forgetSession _ name (by simp [Keeping])).after_same rfl rfl rfl
      exact hforget.trans (.of_eq rfl rfl rfl)

theorem runs_take (w : World) (name : String) : Runs P w (w.take name).2 := by
  refine runs_withSession w name fun n s => ?_
  split
  · exact .refl w
  · split
    · exact .of_eq rfl rfl rfl
    · exact .refl w

theorem runs_drain (w : World) (name : String) : Runs P w (w.drain name).2 := by
  unfold drain
  split
  · exact .refl w
  · split
    · exact .refl w
    · exact .of_eq rfl rfl rfl

theorem runs_resolveWrite (w : World) (n : Nat) (r : WriteResult) :
    Runs Keeping w (w.resolveWrite n r).2 :=
  runs_withWrite w n fun _ => runs_updateWrite w n fun c i =>
    .act (a := .mark i r) (by simp [Keeping]) c

theorem runs_answerReached (hc : w.connections[id]? = some c)
    {r : Except WriteError (Option Int64) × Connection × Service.Memory}
    (hr : Goes P c r.2.1) : Runs P w (w.answerReached id r).2 := by
  obtain ⟨result, c', service⟩ := r
  have hset : Runs P w ({ w with service := service }.setConnection id c') :=
    (runs_setConnection (w := { w with service := service }) hc hr).after_same rfl rfl rfl
  cases result <;> exact hset

/-- **A step that is plain reaches the connections through their runs**, and nobody lets one go. -/
theorem apply_runs (hs : Sound w made) {s : Step} (hplain : s.isPlain = true) :
    Runs Keeping w (w.apply s).2 := by
  have hcall {α : Type} (f : α → Answer) (r : Except ClientError α × Service.Memory) :
      Runs Keeping w (w.answerCall f r).2 := by
    unfold answerCall
    split <;> exact .of_eq rfl rfl rfl
  cases s with
  | createStream type table => exact hcall _ _
  | createStreamFull type table => exact hcall _ _
  | getStream stream view => exact hcall _ _
  | commit table streams => exact hcall _ _
  | accept name => exact runs_accept w name
  | take name => exact runs_take w name
  | send name i => exact runs_withSession w name fun n _ => runs_send w n i
  | isRead name => exact runs_withSession w name fun _ _ => .refl w
  | endSession name =>
    exact runs_withSession w name fun _ _ => runs_forgetSession w name (by simp [Keeping])
  | result n => exact runs_withWrite w n fun _ => .refl w
  | abort n => exact runs_resolveWrite w n _
  | resolve n r => exact runs_resolveWrite w n _
  | retry n =>
    exact runs_withWrite w n fun _ => runs_updateWrite w n fun c i =>
      .act (a := .retry i) (by simp [Keeping]) c
  | writeText n => exact runs_withWrite w n fun _ => .refl w
  | writeRequest n => exact runs_withWrite w n fun _ => .refl w
  | subscribe handle name => exact runs_withHandle hs fun _ _ _ _ _ => .of_eq rfl rfl rfl
  | drain name => exact runs_drain w name
  | unsubscribe name =>
    simp only [apply]
    split <;> exact .of_eq rfl rfl rfl
  | write handle r =>
    exact runs_withHandle hs fun h c _ hc ha =>
      (runs_setConnection hc (goes_call (k := .write r) ha (by simp))).trans
        (runs_answerWrite _ _ _)
  | openChannel handle => exact runs_changeConnection (k := .connect) hs handle (by simp)
  | reconnect handle => exact runs_changeConnection (k := .reconnect) hs handle (by simp)
  | close handle => exact runs_changeConnection (k := .close) hs handle (by simp)
  | pending handle => exact runs_withHandle hs fun _ _ _ _ _ => .refl w
  | state handle => exact runs_withHandle hs fun _ _ _ _ _ => .refl w
  | flush handle offset =>
    exact runs_withHandle hs fun h c _ hc ha =>
      runs_answerReached hc (goes_call (k := .flush w.service offset) ha (by simp))
  | finalize handle =>
    exact runs_withHandle hs fun h c _ hc ha =>
      runs_answerReached hc (goes_call (k := .finalize w.service) ha (by simp))
  | append handle rows offset => exact runs_append hs handle rows offset
  | setDescriptor handle d => exact runs_setDescriptor hs handle d
  | setTableSchema handle t => exact runs_setTableSchema hs handle t
  | setDefaultMissingValue handle m => exact runs_changeWriter hs handle _
  | setMissingValues handle m => exact runs_changeWriter hs handle _
  | descriptor handle =>
    refine runs_withHandle hs fun h _ _ _ _ => ?_
    cases h <;> exact .refl w
  | connect | connectRaw | drop | clientClose => exact absurd hplain (by simp [Step.isPlain])
  | _ => exact .of_eq rfl rfl rfl

end World

end RowStream.Simulation
