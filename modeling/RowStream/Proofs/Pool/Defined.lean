import RowStream.Proofs.Pool.Declared

/-!
# What a pool defines

The first pass over the files of a pool takes their names, each once. It goes over the declarations in the
same order as the second one, which makes messages and enums of them: so a pool has just the names that the
first pass took for messages, for enums and for the values of enums (`NamedBy`), and no two of these are
the same.

The values of an enum are named in the scope around it, beside the enum itself (`Enum.scope`). Enums of one
scope therefore have no value name in common.

* `held_of_addFiles`: the names of a role are those that the files define.
* `names_of_message`, `names_of_messageEnums`: the passes go the same way.
* `namedBy_of_ofFiles`, `nodup_of_ofFiles`: the names of a pool.
-/

namespace RowStream.Pool

open Descriptor (Dialect)

variable {names names' : Names} {file : String} {role : Role}

/-! ## Names by what they stand for -/

/-- The names that stand for a role, the latest first. -/
def Names.held (names : Names) (role : Role) : List String :=
  (names.filter fun d => d.role = role).map (·.name)

/-- The names of a role that steps define, in their order. -/
def definedAs (role : Role) (steps : List Step) : List String :=
  steps.filterMap fun
    | .define name r => if r = role then some name else none
    | .fail _ => none

theorem mem_held {n : String} : n ∈ names.held role ↔ ∃ d ∈ names, d.role = role ∧ d.name = n := by
  simp [Names.held, and_assoc]

theorem definedAs_append (role : Role) (as bs : List Step) :
    definedAs role (as ++ bs) = definedAs role as ++ definedAs role bs :=
  List.filterMap_append

theorem definedAs_cons (role : Role) (step : Step) (steps : List Step) :
    definedAs role (step :: steps) = definedAs role [step] ++ definedAs role steps :=
  definedAs_append role [step] steps

/-- What a step comes to: it defines a new name, or it names a package again. -/
theorem take_cases {step : Step} (h : names.take file step = .ok names') :
    (∃ name r, step = .define name r ∧ names.find name = none ∧ names' = ⟨name, file, r⟩ :: names) ∨
      ∃ name, step = .define name .package ∧ names' = names := by
  cases step with
  | fail fault => simp [Names.take] at h
  | define name r =>
    unfold Names.take at h
    cases hfind : names.find name with
    | none =>
      simp only [hfind] at h
      exact .inl ⟨name, r, rfl, hfind, (Except.ok.inj h).symm⟩
    | some d =>
      simp only [hfind] at h
      split at h
      · rename_i hpackage
        exact .inr ⟨name, by rw [hpackage.1], (Except.ok.inj h).symm⟩
      · split at h <;> simp at h

/-- **A step keeps the names apart**, and adds its own to those of its role. -/
theorem held_of_take {step : Step} (h : names.take file step = .ok names') (hrole : role ≠ .package) :
    names'.held role = (definedAs role [step]).reverse ++ names.held role ∧
      ((names.map (·.name)).Nodup → (names'.map (·.name)).Nodup) := by
  rcases take_cases h with ⟨name, r, rfl, hnone, rfl⟩ | ⟨name, rfl, rfl⟩
  · refine ⟨?_, fun hnodup => List.nodup_cons.mpr ⟨fun hmem => ?_, hnodup⟩⟩
    · by_cases hr : r = role <;> simp [Names.held, definedAs, hr]
    · obtain ⟨d, hd, hname⟩ := List.mem_map.mp hmem
      exact find_eq_none.mp hnone d hd hname
  · exact ⟨by simp [definedAs, Ne.symm hrole], id⟩

theorem held_of_take_all {steps : List Step} (h : steps.foldlM (Names.take file) names = .ok names')
    (hrole : role ≠ .package) :
    names'.held role = (definedAs role steps).reverse ++ names.held role ∧
      ((names.map (·.name)).Nodup → (names'.map (·.name)).Nodup) := by
  induction steps generalizing names with
  | nil =>
    rw [List.foldlM_nil, pure_eq_ok] at h
    exact h ▸ ⟨rfl, id⟩
  | cons step steps ih =>
    rw [List.foldlM_cons] at h
    obtain ⟨names₁, hstep, hrest⟩ := bind_eq_ok.mp h
    obtain ⟨hheld, hnodup⟩ := held_of_take hstep hrole
    obtain ⟨hheld', hnodup'⟩ := ih hrest
    refine ⟨?_, hnodup' ∘ hnodup⟩
    rw [hheld', hheld, definedAs_cons role step steps, List.reverse_append, List.append_assoc]

/-- The names of a role that a file defines. -/
def fileNames (role : Role) (f : Descriptor.File) : List String :=
  match dialectOf f with
  | .ok dialect => definedAs role (fileSteps dialect f)
  | .error _ => []

theorem fileNames_eq {f : Descriptor.File} {dialect : Dialect} (h : dialectOf f = .ok dialect) :
    fileNames role f = definedAs role (fileSteps dialect f) := by
  rw [fileNames, h]

/-- **The first pass takes the names of all files**, each once. -/
theorem held_of_addFiles {seen : List String} {files : List Descriptor.File}
    (h : names.addFiles seen files = .ok names') (hrole : role ≠ .package) :
    names'.held role = (files.flatMap (fileNames role)).reverse ++ names.held role ∧
      ((names.map (·.name)).Nodup → (names'.map (·.name)).Nodup) := by
  induction files generalizing names seen with
  | nil =>
    obtain rfl := Except.ok.inj h
    exact ⟨rfl, id⟩
  | cons f files ih =>
    obtain ⟨dialect, names₁, hdialect, -, htake, hrest⟩ := addFiles_cons.mp h
    obtain ⟨hheld, hnodup⟩ := held_of_take_all htake hrole
    obtain ⟨hheld', hnodup'⟩ := ih hrest
    refine ⟨?_, hnodup' ∘ hnodup⟩
    rw [hheld', hheld, List.flatMap_cons, fileNames_eq hdialect, List.reverse_append, List.append_assoc]

/-- The names of a role are different where all names are. -/
theorem nodup_held (h : (names.map (·.name)).Nodup) (role : Role) : (names.held role).Nodup :=
  h.sublist (List.filter_sublist.map _)

/-! ## Names of enums -/

namespace Enum

/-- The scope in which the enum is named. -/
def scope (e : Enum) : String :=
  String.ofList (e.fullName.toList.take
    (e.fullName.toList.length - e.descriptor.nameText.toList.length - 1))

theorem scope_qualify (scope : String) (d : Descriptor.Enum) :
    Enum.scope ⟨Text.qualify scope d.nameText, d⟩ = scope := by
  unfold Enum.scope Text.qualify
  by_cases hscope : scope = ""
  · simp [hscope]
  · have hlength : (scope ++ "." ++ d.nameText).toList.length - d.nameText.toList.length - 1 =
        scope.toList.length := by
      simp only [String.toList_append, List.length_append]
      have hdot : ".".toList.length = 1 := rfl
      omega
    simp only [if_neg hscope]
    rw [hlength, String.append_assoc, String.toList_append, List.take_left, String.ofList_toList]

/-- The full names of the values, which are named beside the enum. -/
def valueNames (e : Enum) : List String :=
  e.descriptor.values.map fun v => Text.qualify e.scope v.nameText

/-- The names of a role that come with the enum: its own, and those of its values. -/
def namesAs (role : Role) (e : Enum) : List String :=
  (if .enum = role then [e.fullName] else []) ++ if .enumValue = role then e.valueNames else []

end Enum

/-- The enums that are declared in a scope. -/
def enumsIn (scope : String) (es : List Descriptor.Enum) : List Enum :=
  es.map fun e => ⟨Text.qualify scope e.nameText, e⟩

/-! ## The steps of messages and enums -/

section Steps

variable {dialect : Dialect} {scope : String}

theorem definedAs_define (name : String) (r : Role) :
    definedAs role [.define name r] = if r = role then [name] else [] := by
  by_cases hr : r = role <;> simp [definedAs, hr]

theorem definedAs_map_define {α : Type} (name : α → String) (r : Role) (xs : List α) :
    definedAs role (xs.map fun x => .define (name x) r) = if r = role then xs.map name else [] := by
  induction xs with
  | nil => simp [definedAs]
  | cons x xs ih =>
    rw [List.map_cons, definedAs_cons, ih, definedAs_define]
    split <;> simp

theorem definedAs_sameLetters (seen all : List String) : definedAs role (sameLetters seen all) = [] := by
  refine List.filterMap_eq_nil_iff.mpr fun step hstep => ?_
  cases step with
  | fail fault => rfl
  | define name r => exact absurd hstep (not_define_sameLetters seen all)

theorem definedAs_enumSteps (e : Descriptor.Enum) : definedAs role (enumSteps dialect scope e) =
    Enum.namesAs role ⟨Text.qualify scope e.nameText, e⟩ := by
  have hsteps {checks : List Step} (hchecks : definedAs role checks = []) :
      definedAs role (.define (Text.qualify scope e.nameText) .enum ::
        (checks ++ e.values.map fun v => .define (Text.qualify scope v.nameText) .enumValue)) =
      Enum.namesAs role ⟨Text.qualify scope e.nameText, e⟩ := by
    rw [definedAs_cons, definedAs_append, hchecks, definedAs_map_define, definedAs_define,
      List.nil_append, Enum.namesAs, Enum.valueNames, Enum.scope_qualify]
  refine hsteps ?_
  split
  · rfl
  · split <;> rfl

theorem definedAs_enums (es : List Descriptor.Enum) :
    definedAs role (es.flatMap (enumSteps dialect scope)) =
      (enumsIn scope es).flatMap (Enum.namesAs role) := by
  induction es with
  | nil => rfl
  | cons e es ih =>
    rw [List.flatMap_cons, definedAs_append, ih, definedAs_enumSteps]
    rfl

end Steps

theorem messageSteps_append (dialect : Dialect) (outer : String) (m : Descriptor.Message) :
    messageSteps dialect outer m = ownSteps dialect outer m ++
      messagesSteps dialect (fullName outer m) m.nested ++
        m.enums.flatMap (enumSteps dialect (fullName outer m)) := by
  obtain ⟨name, fields, nested, enums, options, oneofs, reserve⟩ := m
  rw [messageSteps.eq_def]
  simp only [ownSteps, List.cons_append, List.append_assoc]
  rfl

theorem definedAs_ownSteps (hrole : role ≠ .oneof ∧ role ≠ .field) (dialect : Dialect) (outer : String)
    (m : Descriptor.Message) :
    definedAs role (ownSteps dialect outer m) = if .message = role then [fullName outer m] else [] := by
  have hsteps {checks : List Step} (hchecks : definedAs role checks = []) : definedAs role
      (.define (fullName outer m) .message :: (checks ++
        m.oneofs.map (fun o => .define (Text.qualify (fullName outer m) o.nameText) .oneof) ++
        m.fields.map fun f => .define (Text.qualify (fullName outer m) f.nameText) .field)) =
      if .message = role then [fullName outer m] else [] := by
    rw [definedAs_cons, definedAs_append, definedAs_append, hchecks, definedAs_define,
      definedAs_map_define, definedAs_map_define, if_neg hrole.1.symm, if_neg hrole.2.symm]
    simp only [List.append_nil]
  cases dialect with
  | proto2 =>
    have hnone : definedAs role [] = [] := rfl
    exact hsteps hnone
  | proto3 => exact hsteps (definedAs_sameLetters _ _)

/-- The declaration of a message defines its name, and those of the messages and enums inside. -/
theorem definedAs_messageSteps (hrole : role ≠ .oneof ∧ role ≠ .field) (dialect : Dialect)
    (outer : String) (m : Descriptor.Message) : definedAs role (messageSteps dialect outer m) =
      (if .message = role then [fullName outer m] else []) ++
        definedAs role (messagesSteps dialect (fullName outer m) m.nested) ++
        (enumsIn (fullName outer m) m.enums).flatMap (Enum.namesAs role) := by
  rw [messageSteps_append, definedAs_append, definedAs_append, definedAs_ownSteps hrole,
    definedAs_enums]

variable {s : Scope}

theorem flatMap_namesAs_message (es : List Enum) : es.flatMap (Enum.namesAs .message) = [] :=
  List.flatMap_eq_nil_iff.mpr fun _ _ => rfl

mutual

/-- **The second pass resolves just the messages that the first defines**, in the same order. -/
theorem names_of_message : ∀ (d : Descriptor.Message) {dialect : Dialect} {outer : String} {path : List Nat}
    {out : List Message}, s.message outer path d = .ok out →
      out.map (·.fullName) = definedAs .message (messageSteps dialect outer d)
  | ⟨name, fields, nested, enums, options, oneofs, reserve⟩, dialect, outer, path, out, h => by
    rw [Scope.message.eq_def] at h
    simp only [bind_eq_ok, pure_eq_ok] at h
    obtain ⟨resolved, -, inner, hinner, -, -, rfl⟩ := h
    have hnested : inner.map (·.fullName) = definedAs .message (messagesSteps dialect _ nested) :=
      names_of_messages nested hinner
    rw [definedAs_messageSteps (by decide), List.map_cons, hnested, if_pos rfl, flatMap_namesAs_message,
      List.append_nil]
    rfl

theorem names_of_messages : ∀ (ds : List Descriptor.Message) {dialect : Dialect} {outer : String}
    {path : List Nat} {index : Nat} {out : List Message}, s.messages outer path index ds = .ok out →
      out.map (·.fullName) = definedAs .message (messagesSteps dialect outer ds)
  | [], _, _, _, _, _, h => by
    rw [messages_nil.mp h, messagesSteps]
    rfl
  | d :: ds, _, _, _, _, _, h => by
    obtain ⟨first, rest, hfirst, hrest, rfl⟩ := messages_cons.mp h
    rw [messagesSteps, definedAs_append, List.map_append, names_of_message d hfirst,
      names_of_messages ds hrest]

end

mutual

/-- **The enums of a message are those that the first pass defines**, with their values and in the same
order. -/
theorem names_of_messageEnums (hrole : role = .enum ∨ role = .enumValue) :
    ∀ (d : Descriptor.Message) {dialect : Dialect} {outer : String},
      (messageEnums outer d).flatMap (Enum.namesAs role) = definedAs role (messageSteps dialect outer d)
  | ⟨name, fields, nested, enums, options, oneofs, reserve⟩, dialect, outer => by
    have hother : role ≠ .message ∧ role ≠ .oneof ∧ role ≠ .field := by
      rcases hrole with rfl | rfl <;> decide
    rw [definedAs_messageSteps hother.2, if_neg hother.1.symm, messageEnums.eq_def]
    simp only [List.flatMap_append, List.nil_append]
    rw [names_of_messagesEnums hrole nested]
    rfl

theorem names_of_messagesEnums (hrole : role = .enum ∨ role = .enumValue) :
    ∀ (ds : List Descriptor.Message) {dialect : Dialect} {outer : String},
      (messagesEnums outer ds).flatMap (Enum.namesAs role) = definedAs role (messagesSteps dialect outer ds)
  | [], _, _ => by
    rw [messagesEnums, messagesSteps]
    rfl
  | d :: ds, _, _ => by
    rw [messagesEnums, messagesSteps, definedAs_append, List.flatMap_append,
      names_of_messageEnums hrole d, names_of_messagesEnums hrole ds]

end

/-! ## The names of files -/

/-- A file defines what is declared in it, and packages around. -/
theorem definedAs_fileSteps (hrole : role ≠ .package) (dialect : Dialect) (f : Descriptor.File) :
    definedAs role (fileSteps dialect f) =
      definedAs role (messagesSteps dialect f.packageText f.messages) ++
        (enumsIn f.packageText f.enums).flatMap (Enum.namesAs role) := by
  rw [fileSteps, definedAs_append, definedAs_append, definedAs_map_define, if_neg hrole.symm,
    definedAs_enums, List.nil_append]

/-- The enums of a file are those that the first pass defines. -/
theorem names_of_fileEnums (hrole : role = .enum ∨ role = .enumValue) {f : Descriptor.File}
    {dialect : Dialect} (h : dialectOf f = .ok dialect) :
    (fileEnums f).flatMap (Enum.namesAs role) = fileNames role f := by
  have hother : role ≠ .package := by rcases hrole with rfl | rfl <;> decide
  rw [fileNames_eq h, definedAs_fileSteps hother, fileEnums, List.flatMap_append,
    names_of_messagesEnums hrole]
  rfl

/-- A file resolves to the messages that the first pass defines. -/
theorem names_of_resolveFile {enums : List Enum} {files : List String} {f : Descriptor.File}
    {out : List Message} (h : resolveFile names enums files f = .ok out) :
    out.map (·.fullName) = fileNames .message f ∧ ∀ m ∈ out, ∃ s, s.names = names ∧ ResolvedIn s m := by
  simp only [resolveFile, bind_eq_ok, pure_eq_ok] at h
  obtain ⟨-, -, dialect, hdialect, messages, hmessages, -, -, rfl⟩ := h
  refine ⟨?_, fun m hm => ⟨_, rfl, resolved_of_messages f.messages hmessages m hm⟩⟩
  rw [fileNames_eq hdialect, definedAs_fileSteps (by decide), flatMap_namesAs_message, List.append_nil,
    names_of_messages f.messages hmessages]

/-! ## Pools of files -/

/-- The names are those of the messages of the pool, of its enums and of their values, and fields were
resolved among them. -/
structure NamedBy (p : Pool) (names : Names) : Prop where
  nodup : (names.map (·.name)).Nodup
  messages : p.messages.map (·.fullName) = (names.held .message).reverse
  enums : p.enums.map (·.fullName) = (names.held .enum).reverse
  values : p.enums.flatMap Enum.valueNames = (names.held .enumValue).reverse
  resolved : ∀ m ∈ p.messages, ∃ s, s.names = names ∧ ResolvedIn s m

variable {files : List Descriptor.File} {p : Pool}

/-- **A pool has the names that the first pass took.** -/
theorem namedBy_of_ofFiles (h : ofFiles files = .ok p) : ∃ names, NamedBy p names := by
  rw [ofFiles] at h
  simp only [bind_eq_ok, pure_eq_ok] at h
  obtain ⟨names, hnames, out, hout, rfl⟩ := h
  have hheld {role : Role} (hrole : role ≠ .package) :
      (names.held role).reverse = files.flatMap (fileNames role) := by
    rw [(held_of_addFiles hnames hrole).1, List.reverse_append, List.reverse_reverse]
    rfl
  have hinner {role : Role} (hrole : role = .enum ∨ role = .enumValue) :
      (files.flatMap fileEnums).flatMap (Enum.namesAs role) = (names.held role).reverse := by
    rw [hheld (by rcases hrole with rfl | rfl <;> decide), List.flatMap_assoc]
    refine List.flatMap_congr fun f hf => ?_
    obtain ⟨dialect, -, -, hdialect, -⟩ := taken_of_addFiles hnames hf
    exact names_of_fileEnums hrole hdialect
  refine ⟨names, ?_, ?_, ?_, ?_, fun m hm => ?_⟩
  · exact (held_of_addFiles hnames (by decide : Role.message ≠ .package)).2 List.nodup_nil
  · rw [hheld (by decide)]
    exact map_flatten_of_mapM hout fun f _ _ hf => (names_of_resolveFile hf).1
  · rw [← hinner (.inl rfl)]
    exact (List.flatMap_pure_eq_map _ _).symm
  · exact hinner (.inr rfl)
  · obtain ⟨ms, hms, hmem⟩ := List.mem_flatten.mp hm
    obtain ⟨file, -, hfile⟩ := exists_of_mem_mapM hout hms
    exact (names_of_resolveFile hfile).2 m hmem

/-- The messages of a pool resolve field by field. -/
theorem resolved_of_ofFiles (h : ofFiles files = .ok p) : ∀ m ∈ p.messages, ∃ s, ResolvedIn s m := by
  obtain ⟨names, hnames⟩ := namedBy_of_ofFiles h
  intro m hm
  obtain ⟨s, -, hs⟩ := hnames.resolved m hm
  exact ⟨s, hs⟩

/-- **No name of a pool comes twice**, be it that of a message, of an enum or of a value. -/
theorem nodup_of_ofFiles (h : ofFiles files = .ok p) :
    (p.messages.map (·.fullName) ++ p.enums.map (·.fullName) ++ p.enums.flatMap Enum.valueNames).Nodup := by
  obtain ⟨names, hnames⟩ := namedBy_of_ofFiles h
  rw [hnames.messages, hnames.enums, hnames.values]
  have hdisjoint {r r' : Role} (hr : r ≠ r') :
      List.Disjoint (names.held r).reverse (names.held r').reverse := by
    intro n hn hn'
    obtain ⟨d, hd, rfl, hname⟩ := mem_held.mp (List.mem_reverse.mp hn)
    obtain ⟨d', hd', rfl, hname'⟩ := mem_held.mp (List.mem_reverse.mp hn')
    exact hr (congrArg (·.role) (List.inj_on_of_nodup_map hnames.nodup hd hd' (hname.trans hname'.symm)))
  have hnodup (r : Role) : (names.held r).reverse.Nodup :=
    List.nodup_reverse.mpr (nodup_held hnames.nodup r)
  refine List.nodup_append'.mpr ⟨List.nodup_append'.mpr ⟨hnodup _, hnodup _, hdisjoint (by decide)⟩,
    hnodup _, List.disjoint_append_left.mpr ⟨hdisjoint (by decide), hdisjoint (by decide)⟩⟩

end RowStream.Pool
