import Mathlib.Data.List.Nodup
import RowStream.Pool.Names
import RowStream.Proofs.Fallible

/-!
# What the pass over the names keeps

The names that the pass returns are those that its steps define, each with its file and its role.
Outside of packages no name comes twice: the pass succeeds exactly on names that are new.

* `mem_take_all`, `take_all`: the steps of one file.
* `mem_addFiles`, `taken_of_addFiles`: the steps of several files.
* `role_of_addFiles`, `nodup_of_addFiles`, `addFiles_single`: files that hold one message each, the
  form in which tables are described.
-/

namespace RowStream.Pool

open Descriptor (Dialect)

variable {names names' : Names} {file : String}

/-! ## The steps of a file -/

theorem find_eq_none {name : String} : names.find name = none ↔ ∀ d ∈ names, d.name ≠ name := by
  simp [Names.find]

theorem find_eq_some {name : String} {d : Definition} (h : names.find name = some d) :
    d ∈ names ∧ d.name = name :=
  ⟨List.mem_of_find?_eq_some h, by simpa using List.find?_some h⟩

/-- One step keeps the names, and it may define its own. -/
theorem mem_take {step : Step} (h : names.take file step = .ok names') {d : Definition}
    (hd : d ∈ names') : d ∈ names ∨ d.file = file ∧ step = .define d.name d.role := by
  cases step with
  | fail fault => simp [Names.take] at h
  | define name role =>
    unfold Names.take at h
    cases hfind : names.find name with
    | none =>
      simp only [hfind] at h
      obtain rfl := Except.ok.inj h
      rcases List.mem_cons.mp hd with rfl | hd
      · exact .inr ⟨rfl, rfl⟩
      · exact .inl hd
    | some e =>
      simp only [hfind] at h
      split at h
      · obtain rfl := Except.ok.inj h
        exact .inl hd
      · split at h <;> simp at h

/-- The names after some steps are those before, and those that the steps define. -/
theorem mem_take_all {steps : List Step} (h : steps.foldlM (Names.take file) names = .ok names')
    {d : Definition} (hd : d ∈ names') :
    d ∈ names ∨ d.file = file ∧ .define d.name d.role ∈ steps := by
  induction steps generalizing names with
  | nil =>
    rw [List.foldlM_nil, pure_eq_ok] at h
    exact .inl (h ▸ hd)
  | cons step steps ih =>
    rw [List.foldlM_cons] at h
    obtain ⟨names₁, hstep, hrest⟩ := bind_eq_ok.mp h
    rcases ih hrest with hd | ⟨hfile, hmem⟩
    · rcases mem_take hstep hd with hd | ⟨hfile, rfl⟩
      · exact .inl hd
      · exact .inr ⟨hfile, List.mem_cons_self⟩
    · exact .inr ⟨hfile, List.mem_cons_of_mem step hmem⟩

/-- A name with a role that is no package can be defined once. -/
theorem take_define {name : String} {role : Role} (hrole : role ≠ .package) :
    names.take file (.define name role) = .ok names' ↔
      names.find name = none ∧ names' = ⟨name, file, role⟩ :: names := by
  rw [Names.take]
  cases names.find name with
  | none => simp only [Except.ok.injEq, true_and, eq_comm]
  | some d =>
    simp only [hrole, false_and, if_false, reduceCtorEq, iff_false]
    split <;> simp

/-- **The pass over a file succeeds exactly on new names**, as long as no packages are named. -/
theorem take_all {steps : List (String × Role)} (hrole : ∀ s ∈ steps, s.2 ≠ .package) :
    (steps.map fun s => Step.define s.1 s.2).foldlM (Names.take file) names = .ok names' ↔
      (steps.map (·.1)).Nodup ∧ (∀ s ∈ steps, names.find s.1 = none) ∧
        names' = (steps.map fun s => ⟨s.1, file, s.2⟩).reverse ++ names := by
  induction steps generalizing names with
  | nil =>
    rw [List.map_nil, List.foldlM_nil, pure_eq_ok]
    simp [eq_comm]
  | cons s steps ih =>
    have hs := hrole s List.mem_cons_self
    have hsteps := fun t ht => hrole t (List.mem_cons_of_mem s ht)
    rw [List.map_cons, List.foldlM_cons, bind_eq_ok]
    -- a later name is new to the names with the first one exactly if it is new, and is another
    have hfresh : (∀ t ∈ steps, Names.find (⟨s.1, file, s.2⟩ :: names) t.1 = none) ↔
        s.1 ∉ steps.map (·.1) ∧ ∀ t ∈ steps, names.find t.1 = none := by
      simp only [find_eq_none, List.forall_mem_cons, List.mem_map, not_exists, not_and]
      refine ⟨fun h => ⟨fun t ht heq => (h t ht).1 heq.symm, fun t ht => (h t ht).2⟩, fun h t ht => ?_⟩
      exact ⟨fun heq => h.1 t ht heq.symm, h.2 t ht⟩
    simp only [take_define hs, ih hsteps, List.map_cons, List.nodup_cons, List.forall_mem_cons,
      List.reverse_cons, List.append_assoc, List.singleton_append]
    constructor
    · rintro ⟨_, ⟨hs, rfl⟩, hnodup, hnew, rfl⟩
      exact ⟨⟨(hfresh.mp hnew).1, hnodup⟩, ⟨hs, (hfresh.mp hnew).2⟩, rfl⟩
    · rintro ⟨⟨hnot, hnodup⟩, ⟨hs, hnew⟩, rfl⟩
      exact ⟨_, ⟨hs, rfl⟩, hnodup, hfresh.mpr ⟨hnot, hnew⟩, rfl⟩

/-! ## The steps of several files -/

variable {files : List Descriptor.File} {seen : List String}

theorem addFiles_cons {f : Descriptor.File} : names.addFiles seen (f :: files) = .ok names' ↔
    ∃ dialect names₁, dialectOf f = .ok dialect ∧ f.nameText ∉ seen ∧
      (fileSteps dialect f).foldlM (Names.take f.nameText) names = .ok names₁ ∧
      names₁.addFiles (f.nameText :: seen) files = .ok names' := by
  simp only [Names.addFiles, bind_eq_ok, refuse_eq_ok, List.contains_eq_mem, decide_eq_true_eq,
    exists_and_left]

/-- Every definition is one of a file. -/
theorem mem_addFiles (h : names.addFiles seen files = .ok names') {d : Definition}
    (hd : d ∈ names') : d ∈ names ∨ ∃ f ∈ files, ∃ dialect, dialectOf f = .ok dialect ∧
      d.file = f.nameText ∧ .define d.name d.role ∈ fileSteps dialect f := by
  induction files generalizing names seen with
  | nil =>
    obtain rfl := Except.ok.inj h
    exact .inl hd
  | cons f files ih =>
    obtain ⟨dialect, names₁, hdialect, -, htake, hrest⟩ := addFiles_cons.mp h
    rcases ih hrest with hd | ⟨g, hg, hrest⟩
    · rcases mem_take_all htake hd with hd | ⟨hfile, hmem⟩
      · exact .inl hd
      · exact .inr ⟨f, List.mem_cons_self, dialect, hdialect, hfile, hmem⟩
    · exact .inr ⟨g, List.mem_cons_of_mem f hg, hrest⟩

/-- The steps of every file could be taken. -/
theorem taken_of_addFiles (h : names.addFiles seen files = .ok names') {f : Descriptor.File}
    (hf : f ∈ files) : ∃ dialect before after, dialectOf f = .ok dialect ∧
      (fileSteps dialect f).foldlM (Names.take f.nameText) before = .ok after := by
  induction files generalizing names seen with
  | nil => exact absurd hf List.not_mem_nil
  | cons g files ih =>
    obtain ⟨dialect, names₁, hdialect, -, htake, hrest⟩ := addFiles_cons.mp h
    rcases List.mem_cons.mp hf with rfl | hf
    · exact ⟨dialect, names, names₁, hdialect, htake⟩
    · exact ih hrest hf

/-! ## Messages without enums -/

/-- The message defines nothing inside. -/
structure Leaf (m : Descriptor.Message) : Prop where
  nested : m.nested = []
  enums : m.enums = []

/-- The message defines no enums, and messages one level deep at most. -/
structure Flat (m : Descriptor.Message) : Prop where
  nested : ∀ n ∈ m.nested, Leaf n
  enums : m.enums = []

/-- What a message in a scope is called in full. -/
def fullName (scope : String) (m : Descriptor.Message) : String := Text.qualify scope m.nameText

/-- The names of a message in a scope, of its choices and of its fields. -/
def ownNames (scope : String) (m : Descriptor.Message) : List (String × Role) :=
  (fullName scope m, .message) ::
    (m.oneofs.map (fun o => (Text.qualify (fullName scope m) o.nameText, .oneof)) ++
      m.fields.map fun f => (Text.qualify (fullName scope m) f.nameText, .field))

/-- The names of a message in a scope, and of the messages inside. -/
def treeNames (scope : String) (m : Descriptor.Message) : List (String × Role) :=
  ownNames scope m ++ m.nested.flatMap (ownNames (fullName scope m))

variable {dialect : Dialect} {scope : String} {m : Descriptor.Message}

theorem role_of_mem_ownNames {s : String × Role} (h : s ∈ ownNames scope m) :
    s.2 ≠ .enum ∧ s.2 ≠ .package := by
  simp only [ownNames, List.mem_cons, List.mem_append, List.mem_map] at h
  rcases h with rfl | ⟨o, -, rfl⟩ | ⟨f, -, rfl⟩ <;> exact ⟨by simp, by simp⟩

theorem role_of_mem_treeNames {s : String × Role} (h : s ∈ treeNames scope m) :
    s.2 ≠ .enum ∧ s.2 ≠ .package := by
  rcases List.mem_append.mp h with h | h
  · exact role_of_mem_ownNames h
  · obtain ⟨n, -, h⟩ := List.mem_flatMap.mp h
    exact role_of_mem_ownNames h

/-- The rule on letters defines nothing. -/
theorem not_define_sameLetters {name : String} {role : Role} (seen all : List String) :
    .define name role ∉ sameLetters seen all := by
  induction all generalizing seen with
  | nil => simp [sameLetters]
  | cons n all ih =>
    rw [sameLetters]
    split <;> simp [ih]

/-- The steps of a message apart from those of the messages inside. -/
def ownSteps (dialect : Dialect) (scope : String) (m : Descriptor.Message) : List Step :=
  .define (fullName scope m) .message ::
    ((match dialect with
      | .proto3 => sameLetters [] (m.fields.map (·.nameText))
      | .proto2 => []) ++
      m.oneofs.map (fun o => .define (Text.qualify (fullName scope m) o.nameText) .oneof) ++
      m.fields.map (fun f => .define (Text.qualify (fullName scope m) f.nameText) .field))

theorem define_mem_ownSteps {name : String} {role : Role}
    (h : .define name role ∈ ownSteps dialect scope m) : (name, role) ∈ ownNames scope m := by
  cases dialect with
  | proto2 => simpa [ownSteps, ownNames, eq_comm] using h
  | proto3 => simpa [ownSteps, ownNames, not_define_sameLetters, eq_comm] using h

/-- In the older dialect the steps define the names and do nothing else. -/
theorem ownSteps_proto2 (scope : String) (m : Descriptor.Message) :
    ownSteps .proto2 scope m = (ownNames scope m).map fun s => .define s.1 s.2 := by
  simp only [ownSteps, ownNames, List.nil_append, List.map_cons, List.map_append, List.map_map]
  rfl

theorem messagesSteps_eq (ms : List Descriptor.Message) :
    messagesSteps dialect scope ms = ms.flatMap (messageSteps dialect scope) := by
  induction ms with
  | nil => rw [messagesSteps, List.flatMap_nil]
  | cons m ms ih => rw [messagesSteps, ih, List.flatMap_cons]

theorem messageSteps_eq (h : m.enums = []) : messageSteps dialect scope m =
    ownSteps dialect scope m ++ m.nested.flatMap (messageSteps dialect (fullName scope m)) := by
  obtain ⟨name, fields, nested, enums, options, oneofs, reserve⟩ := m
  obtain rfl : enums = [] := h
  rw [messageSteps.eq_def, ← messagesSteps_eq]
  simp only [List.flatMap_nil, List.append_nil]
  rfl

theorem messageSteps_leaf (h : Leaf m) :
    messageSteps dialect scope m = ownSteps dialect scope m := by
  rw [messageSteps_eq h.enums, h.nested, List.flatMap_nil, List.append_nil]

theorem messageSteps_flat (h : Flat m) : messageSteps dialect scope m =
    ownSteps dialect scope m ++ m.nested.flatMap (ownSteps dialect (fullName scope m)) := by
  rw [messageSteps_eq h.enums]
  exact congrArg _ (List.flatMap_congr fun n hn => messageSteps_leaf (h.nested n hn))

/-- What the steps of a message without enums define. -/
theorem define_mem_flat (h : Flat m) {name : String} {role : Role}
    (hs : .define name role ∈ messageSteps dialect scope m) : (name, role) ∈ treeNames scope m := by
  rw [messageSteps_flat h, List.mem_append, List.mem_flatMap] at hs
  rcases hs with hs | ⟨n, hn, hs⟩
  · exact List.mem_append_left _ (define_mem_ownSteps hs)
  · exact List.mem_append_right _ (List.mem_flatMap.mpr ⟨n, hn, define_mem_ownSteps hs⟩)

theorem messageSteps_proto2 (h : Flat m) : messageSteps .proto2 scope m =
    (treeNames scope m).map fun s => .define s.1 s.2 := by
  rw [messageSteps_flat h, ownSteps_proto2, treeNames, List.map_append, List.map_flatMap]
  exact congrArg _ (List.flatMap_congr fun n _ => ownSteps_proto2 (fullName scope m) n)

/-! ## Files of one message -/

/-- The file holds one message and nothing else. -/
structure Holds (f : Descriptor.File) (m : Descriptor.Message) : Prop where
  package : f.package = none
  messages : f.messages = [m]
  enums : f.enums = []

theorem fileSteps_eq {f : Descriptor.File} (h : Holds f m) :
    fileSteps dialect f = messageSteps dialect "" m := by
  have hpackage : f.packageText = "" := by rw [Descriptor.File.packageText, h.package]; rfl
  rw [fileSteps, hpackage, h.messages, h.enums, messagesSteps_eq]
  simp [packageNames]

/-- Where files hold one message each, without enums, a type is a message. -/
theorem role_of_addFiles (h : Names.addFiles [] seen files = .ok names)
    (hfiles : ∀ f ∈ files, ∃ m, Holds f m ∧ Flat m) {d : Definition} (hd : d ∈ names) :
    d.role ≠ .enum := by
  rcases mem_addFiles h hd with hd | ⟨f, hf, dialect, -, -, hstep⟩
  · exact absurd hd List.not_mem_nil
  · obtain ⟨m, hm, hflat⟩ := hfiles f hf
    rw [fileSteps_eq hm] at hstep
    exact (role_of_mem_treeNames (define_mem_flat hflat hstep)).1

/-- In the older dialect the names of a file are different. -/
theorem nodup_of_addFiles (h : names.addFiles seen files = .ok names') {f : Descriptor.File}
    (hf : f ∈ files) (hm : Holds f m) (hflat : Flat m) (hdialect : dialectOf f = .ok .proto2) :
    ((treeNames "" m).map (·.1)).Nodup := by
  obtain ⟨dialect, before, after, hd, htake⟩ := taken_of_addFiles h hf
  obtain rfl : dialect = .proto2 := Except.ok.inj (hd.symm.trans hdialect)
  rw [fileSteps_eq hm, messageSteps_proto2 hflat] at htake
  exact ((take_all fun s hs => (role_of_mem_treeNames hs).2).mp htake).1

/-- **One file of the older dialect passes exactly if its names are different.** -/
theorem addFiles_single {f : Descriptor.File} (hm : Holds f m) (hflat : Flat m)
    (hdialect : dialectOf f = .ok .proto2) : Names.addFiles [] [] [f] = .ok names ↔
      ((treeNames "" m).map (·.1)).Nodup ∧
        names = ((treeNames "" m).map fun s => ⟨s.1, f.nameText, s.2⟩).reverse := by
  have hfold : Names.addFiles [] [] [f] = .ok names ↔
      ((treeNames "" m).map fun s => Step.define s.1 s.2).foldlM (Names.take f.nameText) [] =
        .ok names := by
    rw [addFiles_cons, ← messageSteps_proto2 hflat, ← fileSteps_eq hm]
    constructor
    · rintro ⟨dialect, names₁, hd, -, htake, hrest⟩
      obtain rfl : dialect = .proto2 := Except.ok.inj (hd.symm.trans hdialect)
      exact Except.ok.inj hrest ▸ htake
    · exact fun h => ⟨.proto2, names, hdialect, List.not_mem_nil, h, rfl⟩
  rw [hfold, take_all fun s hs => (role_of_mem_treeNames hs).2, List.append_nil]
  exact and_congr_right fun _ => and_iff_right fun _ _ => rfl

end RowStream.Pool
