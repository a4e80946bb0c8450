import Mathlib
import RowStream.Proofs.Fallible
import RowStream.Proofs.Simulation.Handles

/-!
# The connections that a client lists

A client keeps the numbers of the connections that it opened, and forgets those that are gone only when
it opens another one. What it lists are those that are alive. The invariant is that they are the ones
alive among what was opened since the client was closed last (`Lists`). Whatever can only end connections
keeps it (`Ends`), which leaves the opening of a connection and the closing of the client.

* `Lists.connect`: a creation, which can fail before there is a connection and after.
* `Lists.close`: the client is closed.
* `connections_exactly_live`: what the client lists after every run.
-/

namespace RowStream.Simulation

open RowStream.Stream
open Config (WriterConfig)

namespace World

variable {w w' : World} {P : Action → Prop} {id : Nat} {c : Connection} {name : String}
  {h : Handle} {made made' : Option Nat} {l : List Nat}

/-! ## Runs of a world -/

/-- The world after steps; each says whether it holds the background back. -/
def after (w : World) (ss : List (Step × Bool)) : World :=
  ss.foldl (fun w s => (w.step s.1 s.2).2) w

/-- The connection that the client opens in a step: that of the handle that came back. -/
def opens (w : World) (s : Step) (hold : Bool) : Option Nat :=
  match s, (w.step s hold).1.answer with
  | .connect name _ _, .made _ => (Keyed.get? (w.step s hold).2.handles name).map Handle.id
  | _, _ => none

/-- What the client opened since it was closed last, after a step. -/
def openedBy (w : World) (before : List Nat) (s : Step) (hold : Bool) : List Nat :=
  match s with
  | .clientClose => []
  | s => before ++ (w.opens s hold).toList

/-- What the client opened since it was closed last, oldest first, after what it opened before. -/
def opened (w : World) (before : List Nat) : List (Step × Bool) → List Nat
  | [] => before
  | (s, hold) :: ss => (w.step s hold).2.opened (w.openedBy before s hold) ss

/-- A name holds the connection. -/
def holds (w : World) (id : Nat) : Bool := w.handles.any fun e => e.2.id == id

/-- What the client lists: the connections that it tracks and that are alive. -/
def listed (w : World) : List Nat := w.client.tracked.filter w.isAlive

theorem Sound.holds (hs : Sound w none) (id : Nat) : w.holds id = w.isAlive id := by
  rw [Bool.eq_iff_iff, hs.alive, World.holds, held]
  simp

/-! ## What ends connections only -/

/-- Some of the connections may be alive no more, and others may be there that the client does not
track. -/
structure Ends (w w' : World) : Prop where
  client : w'.client = w.client
  count : w.connections.length ≤ w'.connections.length
  ends : ∀ id < w.connections.length, w'.isAlive id = true → w.isAlive id = true

theorem Ends.refl (w : World) : Ends w w := ⟨rfl, Nat.le_refl _, fun _ _ ha => ha⟩

theorem Runs.ends (r : Runs P w w') (hP : ∀ a, P a → Keeping a) : Ends w w' :=
  ⟨r.client, Nat.le_of_eq r.count.symm, fun id _ ha => (r.alive hP id) ▸ ha⟩

theorem ends_addConnection (w : World) (c : Connection) : Ends w (w.addConnection c).2 where
  client := rfl
  count := by simp [addConnection]
  ends id hid ha := by
    rwa [isAlive_addConnection, if_neg (Nat.ne_of_lt hid)] at ha

theorem ends_release (w : World) (id : Nat) : Ends w (w.updateConnection id Connection.release) := by
  cases hc : w.connections[id]? with
  | none => simpa only [updateConnection, hc] using Ends.refl w
  | some c =>
    refine ⟨?_, ?_, fun id' _ ha => ?_⟩
    · simp [updateConnection, hc, setConnection]
    · simp [updateConnection, hc]
    · rw [isAlive_release hc] at ha
      split at ha
      · exact absurd ha (by simp)
      · exact ha

theorem ends_dropHandle (w : World) (name : String) : Ends w (w.dropHandle name) := by
  unfold dropHandle
  split
  · rename_i h _
    have e := ends_release { w with handles := w.handles.filter fun e => e.1 != name } h.id
    exact ⟨e.client, e.count, e.ends⟩
  · exact .refl w

theorem ends_setHandle (w : World) (name : String) (h : Handle) : Ends w (w.setHandle name h) :=
  have e := ends_dropHandle w name
  ⟨e.client, e.count, e.ends⟩

/-! ## The list of the client -/

/-- The client lists those of `l` that are alive. -/
structure Lists (w : World) (made : Option Nat) (l : List Nat) : Prop where
  sound : Sound w made
  listed : w.listed = l.filter w.isAlive
  rising : l.Pairwise (· < ·)
  known : ∀ id ∈ w.client.tracked ++ l, id < w.connections.length

theorem filter_of_implies {p q : Nat → Bool} (h : ∀ id ∈ l, q id = true → p id = true) :
    (l.filter p).filter q = l.filter q := by
  rw [List.filter_filter]
  refine List.filter_congr fun id hid => ?_
  cases hq : q id with
  | false => rfl
  | true => rw [h id hid hq]; rfl

/-- **What ends connections only takes them from the list.** -/
theorem Lists.ends (hl : Lists w made l) (e : Ends w w') (hs : Sound w' made') :
    Lists w' made' l := by
  have hknown : ∀ id ∈ w'.client.tracked ++ l, id < w.connections.length := by
    rw [e.client]
    exact hl.known
  have hkeep {l' : List Nat} (h' : ∀ id ∈ l', id < w.connections.length) :
      (l'.filter w.isAlive).filter w'.isAlive = l'.filter w'.isAlive :=
    filter_of_implies fun id hid => e.ends id (h' id hid)
  refine ⟨hs, ?_, hl.rising, fun id hid => Nat.lt_of_lt_of_le (hknown id hid) e.count⟩
  have htracked : w'.client.tracked.filter w.isAlive = l.filter w.isAlive := by
    rw [e.client]
    exact hl.listed
  rw [World.listed, ← hkeep fun id hid => hknown id (List.mem_append_left _ hid), htracked,
    hkeep fun id hid => hknown id (List.mem_append_right _ hid)]

theorem lists_start (config : WriterConfig) : Lists (start config) none [] :=
  ⟨sound_start config, rfl, .nil, fun _ hid => absurd hid List.not_mem_nil⟩

/-- A connection that the client begins to track is the last of its list. -/
theorem Lists.track {n : Nat} (hl : Lists w (some n) l) (hn : n < w.connections.length)
    (hlast : ∀ id ∈ l, id < n) :
    Lists { w with client := w.client.track w.isAlive n } (some n) (l ++ [n]) := by
  refine ⟨⟨hl.sound.reachable, hl.sound.named, hl.sound.single, hl.sound.alive⟩, ?_, ?_, ?_⟩
  · show (w.listed ++ [n]).filter w.isAlive = (l ++ [n]).filter w.isAlive
    rw [List.filter_append, List.filter_append, hl.listed, filter_of_implies fun _ _ ha => ha]
  · rw [List.pairwise_append]
    refine ⟨hl.rising, List.pairwise_singleton _ _, fun id hid m hm => ?_⟩
    exact (List.mem_singleton.mp hm) ▸ hlast id hid
  · have hknown : ∀ id ∈ (w.listed ++ [n]) ++ (l ++ [n]), id < w.connections.length := by
      simp only [List.forall_mem_append, List.forall_mem_singleton]
      have hold := List.forall_mem_append.mp hl.known
      exact ⟨⟨fun id hid => hold.1 id (List.mem_of_mem_filter hid), hn⟩, hold.2, hn⟩
    exact hknown

theorem Lists.runs (hl : Lists w made l) (r : Runs P w w') (hP : ∀ a, P a → Keeping a) :
    Lists w' made l :=
  hl.ends (r.ends hP) (hl.sound.runs r hP)

theorem Runs.listed (r : Runs P w w') (hP : ∀ a, P a → Keeping a) : w'.listed = w.listed := by
  rw [World.listed, r.client, World.listed, funext (r.alive hP)]

/-! ## Connections that the client opens -/

theorem reachable_create {streamId : String} {options : Config.ConnectionOptions}
    (h : Connection.create streamId options = .ok c) : c.Reachable ∧ c.alive = true := by
  refine ⟨Connection.reachable_created h, ?_⟩
  rw [Connection.eq_of_create h]
  exact Connection.act_alive _ (by simp)

theorem reachable_connect {client : Client} {m m' : Service.Memory} {d : Destination}
    (h : client.connect m d = (.ok c, m')) : c.Reachable ∧ c.alive = true := by
  unfold Client.connect at h
  split at h
  · exact absurd (congrArg Prod.fst h) (by simp)
  · split at h
    · rename_i hcreate
      obtain rfl : _ = c := Except.ok.inj (congrArg Prod.fst h)
      exact reachable_create hcreate
    · exact absurd (congrArg Prod.fst h) (by simp)

theorem make_id {maker : Maker} (h' : w.make id c maker = .ok h) : h.id = id := by
  cases maker with
  | connection => exact (Except.ok.inj h') ▸ rfl
  | writer d => exact (Except.ok.inj h') ▸ rfl
  | rowWriter d convertDates =>
    obtain ⟨r, -, rfl⟩ := map_eq_ok.mp h'
    rfl

theorem get?_holders (w : World) (name : String) :
    Keyed.get? w.holders name = (Keyed.get? w.handles name).map Handle.id := by
  rw [holders, Keyed.get?, List.find?_map, Keyed.get?, Option.map_map, Option.map_map]
  rfl

/-- The handle that came back has the name. -/
theorem Sound.get?_setHandle (hs : Sound w (some h.id)) (name : String) :
    Keyed.get? (w.setHandle name h).holders name = some h.id := by
  have hput : Keyed.get? (w.setHandle name h).handles name = some h :=
    (hs.setHandle name).named.get?_of_mem (Keyed.mem_put_self _ _ _)
  rw [get?_holders, hput, Option.map_some]

/-- To open a connection fails and leaves the list as it was, or it makes a connection that nothing but
its maker holds yet. -/
theorem Lists.connectTo (hl : Lists w none l) (d : Destination) :
    (∃ e w', w.connectTo d = (.error e, w') ∧ Lists w' none l ∧ w'.listed = w.listed) ∨
      ∃ c n w', w.connectTo d = (.ok n, w') ∧ w'.connections[n]? = some c ∧
        Lists w' (some n) (l ++ [n]) ∧ ∀ id ∈ l, id ≠ n ∧ w'.isAlive id = w.isAlive id := by
  unfold World.connectTo
  cases hc : w.client.connect w.service d with
  | mk result service =>
    have hservice : Lists { w with service := service } none l :=
      hl.runs (P := Keeping) (.of_eq rfl rfl rfl) fun _ hk => hk
    cases result with
    | error e => exact .inl ⟨e, _, rfl, hservice, rfl⟩
    | ok c =>
      obtain ⟨hreach, ha⟩ := reachable_connect hc
      have hlast (id : Nat) (hid : id ∈ l) : id < w.connections.length :=
        hl.known id (List.mem_append_right _ hid)
      have hadded := hservice.ends (ends_addConnection _ c) (hservice.sound.addConnection hreach ha)
      refine .inr ⟨c, w.connections.length, _, rfl, ?_, hadded.track ?_ hlast, fun id hid => ?_⟩
      · simp
      · simp [addConnection]
      · have hne : id ≠ w.connections.length := Nat.ne_of_lt (hlast id hid)
        exact ⟨hne, (isAlive_addConnection _ c id).trans (if_neg hne)⟩

/-- **A creation that fails, at whatever stage, leaves the list as it was.** One that does not fail adds
the connection of the handle that comes back. -/
theorem Lists.connect (hl : Lists w none l) (name : String) (d : Destination) (maker : Maker) :
    (∃ f w', w.connect name d maker = (.fault f, w') ∧ Lists w' none l ∧ w'.listed = w.listed) ∨
      ∃ streamId n w', w.connect name d maker = (.made streamId, w') ∧ Lists w' none (l ++ [n]) ∧
        Keyed.get? w'.holders name = some n := by
  unfold World.connect
  rcases hl.connectTo d with ⟨e, w', heq, hw', hlisted⟩ | ⟨c, n, w', heq, hc, hw', hsame⟩
  · rw [heq]
    exact .inl ⟨_, _, rfl, hw', hlisted⟩
  · simp only [heq, hc]
    cases hmake : w'.make n c maker with
    | error e =>
      -- the connection that was opened for the handle is let go, so the list is what it was
      have hheld : (w'.held (some n)).Perm (n :: w'.held none) := by
        simp [held]
      have hend : Lists (w'.updateConnection n Connection.release) none (l ++ [n]) :=
        hw'.ends (ends_release w' n) (hw'.sound.release rfl hw'.sound.named hheld)
      have hlast : (w'.updateConnection n Connection.release).isAlive n = false := by
        rw [isAlive_release hc, if_pos rfl]
      have hgone : (w'.updateConnection n Connection.release).listed =
          l.filter (w'.updateConnection n Connection.release).isAlive := by
        rw [hend.listed, List.filter_append, List.filter_singleton, hlast]
        exact List.append_nil _
      refine .inl ⟨_, _, rfl, ⟨hend.sound, hgone, hl.rising, fun id hid => ?_⟩, ?_⟩
      · refine hend.known id ?_
        rw [← List.append_assoc]
        exact List.mem_append_left _ hid
      · rw [hgone, hl.listed]
        refine List.filter_congr fun id hid => ?_
        obtain ⟨hne, halive⟩ := hsame id hid
        rw [isAlive_release hc, if_neg hne, halive]
    | ok h =>
      have hid : h.id = n := make_id hmake
      subst hid
      exact .inr ⟨_, _, _, rfl, hw'.ends (ends_setHandle w' name h) (hw'.sound.setHandle name),
        hw'.sound.get?_setHandle name⟩

/-! ## Closing -/

theorem calm_close : Calm (.call .close) := ⟨rfl, by simp [Keeping]⟩

/-- To close connections that are alive leaves each of them without a channel. -/
theorem runs_closeEach {ids : List Nat} (hr : ∀ c ∈ w.connections, c.Reachable)
    (ha : ∀ id ∈ ids, w.isAlive id = true) :
    let w' := ids.foldl (fun w id => w.updateConnection id Connection.close) w
    Runs Calm w w' ∧ ∀ id ∈ ids, ∃ c, w'.connections[id]? = some c ∧ c.channel = none := by
  induction ids generalizing w with
  | nil => exact ⟨.refl w, fun _ hid => absurd hid List.not_mem_nil⟩
  | cons id ids ih =>
    obtain ⟨c, hc, hca⟩ := isAlive_eq_true.mp (ha id List.mem_cons_self)
    have hclose : Goes Calm c c.close := by
      have hact : c.act (.call .close) = c.close := by simp [Connection.act, hca, Connection.call]
      exact hact ▸ .act calm_close c
    have hfirst : Runs Calm w (w.updateConnection id Connection.close) := by
      simpa only [updateConnection, hc] using runs_setConnection hc hclose
    have hc' : (w.updateConnection id Connection.close).connections[id]? = some c.close := by
      obtain ⟨hlt, -⟩ := List.getElem?_eq_some_iff.mp hc
      simp only [updateConnection, hc, setConnection_connections, List.getElem?_set_self hlt]
    have hr' := hfirst.reachable hr
    obtain ⟨hrest, hnone⟩ := ih hr' fun id' hid' => by
      rw [hfirst.alive fun a ha => ha.2]
      exact ha id' (List.mem_cons_of_mem _ hid')
    refine ⟨hfirst.trans hrest, fun id' hid' => ?_⟩
    rcases List.mem_cons.mp hid' with rfl | hid'
    · obtain ⟨c', hget, hgoes⟩ := hrest.goes id' _ hc'
      exact ⟨c', hget, hgoes.sealed (hr' _ (List.mem_of_getElem? hc')) rfl⟩
    · exact hnone id' hid'

/-- **To close the client** forgets its connections; each of those that it listed has no channel any more,
and every write on it its result. -/
theorem Lists.close (hl : Lists w none l) (hold : Bool) :
    let w' := (w.step .clientClose hold).2
    Lists w' none [] ∧ ∀ id ∈ w.listed, ∃ c, w'.connections[id]? = some c ∧ c.channel = none ∧
      ∀ p ∈ c.writes, p.result.isSome := by
  intro w'
  have hs : Sound { w with client := { w.client with tracked := [] } } none :=
    ⟨hl.sound.reachable, hl.sound.named, hl.sound.single, hl.sound.alive⟩
  have halive : ∀ id ∈ w.listed, w.isAlive id = true := fun id hid => (List.mem_filter.mp hid).2
  obtain ⟨hclose, hnone⟩ := runs_closeEach hs.reachable halive
  have hafter : Runs Calm w.closeAll w' :=
    (runs_after w .clientClose hold).mono fun _ => Calm.of_reader
  have hempty : Lists { w with client := { w.client with tracked := [] } } none [] :=
    ⟨hs, rfl, .nil, fun _ hid => absurd hid List.not_mem_nil⟩
  refine ⟨hempty.runs (hclose.trans hafter) fun _ ha => ha.2, fun id hid => ?_⟩
  obtain ⟨c, hc, hchannel⟩ := hnone id hid
  have hc_reach : c.Reachable := hclose.reachable hs.reachable c (List.mem_of_getElem? hc)
  obtain ⟨c', hc', hgoes⟩ := hafter.goes id c hc
  have hchannel' : c'.channel = none := hgoes.sealed hc_reach hchannel
  exact ⟨c', hc', hchannel', (hgoes.reachable hc_reach).resolved hchannel'⟩

/-! ## Steps -/

/-- The background and the report leave the list alone. -/
theorem Lists.background {s : Step} (hl : Lists (w.apply s).2 none l) (hold : Bool) :
    Lists (w.step s hold).2 none l ∧ (w.step s hold).2.listed = (w.apply s).2.listed :=
  have r := runs_after w s hold
  have hkeep (a : Action) (ha : OfReader a) : Keeping a := (Calm.of_reader ha).2
  ⟨hl.runs r hkeep, r.listed hkeep⟩

theorem Lists.connectRaw (hl : Lists w none l) (name streamId : String)
    (options : Config.ConnectionOptions) : Lists (w.connectRaw name streamId options).2 none l := by
  unfold World.connectRaw
  cases hc : Connection.create streamId options with
  | error e => exact hl
  | ok c =>
    obtain ⟨hreach, ha⟩ := reachable_create hc
    have hadded := hl.ends (ends_addConnection w c) (hl.sound.addConnection hreach ha)
    exact hadded.ends (ends_setHandle _ name _) (hadded.sound.setHandle name)

theorem Lists.drop (hl : Lists w none l) (name : String) :
    Lists (w.apply (.drop name)).2 none l := by
  show Lists (w.withHandle name fun _ _ => (.flag true, w.dropHandle name)).2 none l
  unfold withHandle
  split
  · exact hl
  · split
    · exact hl
    · exact hl.ends (ends_dropHandle w name) (hl.sound.dropHandle name).1

/-- What the client opens in a step is the connection of the handle that comes back. -/
theorem opens_connect {d : Destination} {maker : Maker} {streamId : String} {n : Nat}
    (heq : w.connect name d maker = (.made streamId, w'))
    (hget : Keyed.get? w'.holders name = some n) (hold : Bool) :
    w.opens (.connect name d maker) hold = some n := by
  have happly : w.apply (.connect name d maker) = (.made streamId, w') := heq
  have hanswer : (w.step (.connect name d maker) hold).1.answer = .made streamId :=
    congrArg Prod.fst happly
  have hholders := (runs_after w (.connect name d maker) hold).holders
  rw [happly] at hholders
  simp only [opens, hanswer]
  rw [← get?_holders, hholders, hget]

theorem opens_of_fault {s : Step} {f : Fault} (h : (w.apply s).1 = .fault f) (hold : Bool) :
    w.opens s hold = none := by
  have hanswer : (w.step s hold).1.answer = .fault f := h
  unfold opens
  split
  · simp_all
  · rfl

/-- **After every step the client lists what it opened and is alive.** -/
theorem Lists.step (hl : Lists w none l) (s : Step) (hold : Bool) :
    Lists (w.step s hold).2 none (w.openedBy l s hold) := by
  have hother {s : Step} (hs : w.opens s hold = none) (hclose : s ≠ .clientClose)
      (h : Lists (w.apply s).2 none l) : Lists (w.step s hold).2 none (w.openedBy l s hold) := by
    have hsame : w.openedBy l s hold = l := by
      unfold openedBy
      split
      · exact absurd rfl hclose
      · rw [hs]
        exact List.append_nil l
    rw [hsame]
    exact (h.background hold).1
  cases s with
  | clientClose => exact (hl.close hold).1
  | connectRaw name streamId options => exact hother rfl (by simp) (hl.connectRaw _ _ _)
  | drop name => exact hother rfl (by simp) (hl.drop name)
  | connect name d maker =>
    rcases hl.connect name d maker with ⟨f, w', heq, hw', -⟩ | ⟨streamId, n, w', heq, hw', hget⟩
    · obtain rfl : (w.apply (.connect name d maker)).2 = w' := congrArg Prod.snd heq
      exact hother (opens_of_fault (s := .connect name d maker) (congrArg Prod.fst heq) hold)
        (by simp) hw'
    · simp only [openedBy, opens_connect heq hget hold]
      obtain rfl : (w.apply (.connect name d maker)).2 = w' := congrArg Prod.snd heq
      exact (hw'.background hold).1
  | _ => exact hother rfl (by simp) (hl.runs (apply_runs hl.sound rfl) fun _ hk => hk)

theorem Lists.after (hl : Lists w none l) (ss : List (Step × Bool)) :
    Lists (w.after ss) none (w.opened l ss) := by
  induction ss generalizing w l with
  | nil => exact hl
  | cons s ss ih => exact ih (hl.step s.1 s.2)

/-- The streams of connections that are there. -/
theorem map_some_streams {ids : List Nat} (h : ∀ id ∈ ids, w.isAlive id = true) :
    (ids.filterMap fun id => (w.connections[id]?).map (·.streamId)).map some =
      ids.map fun id => (w.connections[id]?).map (·.streamId) := by
  induction ids with
  | nil => rfl
  | cons id ids ih =>
    obtain ⟨c, hc, -⟩ := isAlive_eq_true.mp (h id List.mem_cons_self)
    rw [List.filterMap_cons, hc, List.map_cons, hc]
    simp only [Option.map_some, List.map_cons]
    rw [ih fun id' hid' => h id' (List.mem_cons_of_mem _ hid')]

/-- **The client lists exactly its live connections.** After every run of a world, let `live` be the
connections that the client opened since it was closed last and that something still holds, oldest first.
Each of them is there once, and

* the client lists them, in this order, and answers with their streams;
* to close the client leaves each of them without a channel and every write on it with a result, and
  nothing is listed any more;
* a creation that fails leaves the list as it was. -/
theorem connections_exactly_live (config : WriterConfig) (ss : List (Step × Bool)) :
    let w := (start config).after ss
    let live := ((start config).opened [] ss).filter w.holds
    live.Pairwise (· < ·) ∧ w.listed = live ∧
    (∃ streams, (∀ hold, (w.step .connections hold).1.answer = .ids streams) ∧
      streams.map some = live.map fun id => (w.connections[id]?).map (·.streamId)) ∧
    (∀ hold, (w.step .clientClose hold).2.listed = [] ∧
      ∀ id ∈ live, ∃ c, (w.step .clientClose hold).2.connections[id]? = some c ∧
        c.channel = none ∧ ∀ p ∈ c.writes, p.result.isSome) ∧
    ∀ name d maker hold f, (w.step (.connect name d maker) hold).1.answer = .fault f →
      (w.step (.connect name d maker) hold).2.listed = live := by
  intro w live
  have hl : Lists w none ((start config).opened [] ss) := (lists_start config).after ss
  have hlive : w.listed = live := by
    rw [hl.listed]
    exact List.filter_congr fun id _ => (hl.sound.holds id).symm
  refine ⟨hl.rising.filter _, hlive, ⟨_, fun _ => rfl, ?_⟩, fun hold => ?_, ?_⟩
  · rw [← hlive]
    exact map_some_streams fun id hid => (List.mem_filter.mp hid).2
  · obtain ⟨hclosed, hend⟩ := hl.close hold
    rw [hlive] at hend
    exact ⟨hclosed.listed, hend⟩
  · intro name d maker hold f hf
    have hanswer : (w.connect name d maker).1 = .fault f := hf
    rcases hl.connect name d maker with ⟨f', w', heq, hw', hsame⟩ | ⟨streamId, n, w', heq, -⟩
    · obtain rfl : (w.apply (.connect name d maker)).2 = w' := congrArg Prod.snd heq
      rw [(hw'.background hold).2, hsame, hlive]
    · rw [heq] at hanswer
      exact absurd hanswer (by simp)

/-- Of two connections the first was let go, and the second has a write that is not answered. A row writer
for a third cannot be made, since a field of its descriptor has a type that is not there. -/
theorem live_after_failed_creation :
    let ss : List (Step × Bool) :=
      [(.connect "a" (.stream "s/1") .connection, false),
        (.connect "b" (.stream "s/2") .connection, false), (.write "b" {}, true),
        (.drop "a", false)]
    let w := (start {}).after ss
    let d : Descriptor.Message :=
      { fields := [{ name := some "x", number := some 1, type := some 11, typeName := some "y" }] }
    let failed := w.step (.connect "c" (.stream "s/3") (.rowWriter d false)) false
    w.listed = [1] ∧
      failed.1.answer = .fault (.client (.shape (.pool (.undefined "y")))) ∧ failed.2.listed = [1] ∧
      ∃ c, (w.step .clientClose true).2.connections[1]? = some c ∧ c.channel = none ∧
        ∀ p ∈ c.writes, p.result.isSome := by
  have hlive : let ss : List (Step × Bool) :=
      [(.connect "a" (.stream "s/1") .connection, false),
        (.connect "b" (.stream "s/2") .connection, false), (.write "b" {}, true),
        (.drop "a", false)]
    ((start {}).opened [] ss).filter ((start {}).after ss).holds = [1] ∧
      (((start {}).after ss).step (.connect "c" (.stream "s/3") (.rowWriter
        { fields := [{ name := some "x", number := some 1, type := some 11, typeName := some "y" }] }
        false)) false).1.answer = .fault (.client (.shape (.pool (.undefined "y")))) := by
    refine ⟨?_, ?_⟩ <;> cbv
  intro ss w d failed
  obtain ⟨-, hlisted, -, hclose, hfail⟩ := connections_exactly_live {} ss
  rw [hlive.1] at hlisted hclose hfail
  exact ⟨hlisted, hlive.2, hfail _ _ _ _ _ hlive.2,
    (hclose true).2 1 List.mem_cons_self⟩

end World

end RowStream.Simulation
