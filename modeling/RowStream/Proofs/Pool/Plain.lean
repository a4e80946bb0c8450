import RowStream.Pool.Resolve
import RowStream.Proofs.Pool.Names
import RowStream.Proofs.Text.Search

/-!
# What plain fields resolve to

A field is plain when its declaration leaves nothing open: it has no default, and its type is a scalar
or a message with its full name. Such a field resolves to one that can be read off its declaration
(`plainField`), if it resolves at all, and the fields of a message resolve one for one.

* `field_eq_ok`, `fields_eq_ok`: exactly when fields resolve, and to what.
* `simple_eq_ok`: exactly when a message resolves with those inside.
* `ofFiles_eq_ok`: the pool of files that hold one such message each.
-/

namespace RowStream.Pool

open Descriptor (Dialect)

/-- The declaration of a field leaves nothing open. -/
structure Plain (f : Descriptor.Field) : Prop where
  unset : f.defaultValue = none
  typed : (∃ s, f.typeValue = .scalar s ∧ f.typeName = none) ∨
    ∃ n, f.typeValue = .message ∧ f.typeName = some ("." ++ n)

/-- The kind that the declaration of a plain field says. -/
def plainKind (f : Descriptor.Field) : Kind :=
  match f.typeValue with
  | .scalar s => .scalar s
  | _ => .message (Text.dropDot f.typeNameText)

/-- What a plain field resolves to. -/
def plainField (dialect : Dialect) (f : Descriptor.Field) : Field where
  name := f.nameText
  number := (f.number.getD 0).toInt.toNat
  kind := plainKind f
  label := f.labelValue
  packed := isPacked dialect f.labelValue (plainKind f) f
  presence := hasPresence dialect f.labelValue (plainKind f) f
  oneof := f.oneofIndex.map fun i => i.toInt.toNat
  default? := none
  descriptor := complete (plainKind f) f

section Complete

variable (k : Kind) (f : Descriptor.Field)

@[simp] theorem complete_name : (complete k f).name = f.name := by cases k <;> rfl

@[simp] theorem complete_number : (complete k f).number = f.number := by cases k <;> rfl

@[simp] theorem complete_label : (complete k f).label = f.label := by cases k <;> rfl

@[simp] theorem complete_options : (complete k f).options = f.options := by cases k <;> rfl

@[simp] theorem complete_defaultValue : (complete k f).defaultValue = f.defaultValue := by
  cases k <;> rfl

@[simp] theorem complete_proto3Optional : (complete k f).proto3Optional = f.proto3Optional := by
  cases k <;> rfl

@[simp] theorem complete_jsonName :
    (complete k f).jsonName = some (f.jsonName.getD (jsonName f.nameText)) := by cases k <;> rfl

end Complete

/-- A message with the full name is defined in one of the files. -/
def Defined (names : Names) (imported : List String) (name : String) : Prop :=
  ∃ d, names.find name = some d ∧ d.file ∈ imported ∧ d.role = .message

/-- What a plain field needs of its surroundings, among them the number of choices. -/
structure Resolves (s : Scope) (oneofs : Nat) (f : Descriptor.Field) : Prop where
  number : isFieldNumber (f.number.getD 0) = true
  type : ∀ n, plainKind f = .message n → Defined s.names s.imported n
  oneof : ∀ i, f.oneofIndex = some i → 0 ≤ i.toInt ∧ i.toInt < oneofs

variable {names : Names} {imported : List String} {s : Scope} {f : Descriptor.Field}

/-- A full name leads to the message with the name and to nothing else. -/
theorem resolve_dot (h : ∀ d ∈ names, d.role ≠ .enum) {scope n : String} {d : Definition} :
    names.resolve imported scope ("." ++ n) = .ok d ↔
      names.find n = some d ∧ d.file ∈ imported ∧ d.role = .message := by
  have hlist : ("." ++ n).toList = '.' :: n.toList := by simp [String.toList_append]
  simp only [Names.resolve, hlist, String.ofList_toList, Names.candidate]
  cases hfind : names.find n with
  | none => simp [Lookup.result]
  | some e =>
    have hrole : ¬ e.role = .enum := h e (find_eq_some hfind).1
    simp only [Option.some.injEq, List.contains_eq_mem, hrole, or_false]
    constructor
    · intro hok
      by_cases himported : e.file ∈ imported <;> by_cases hmessage : e.role = .message <;>
        simp [Lookup.result, himported, hmessage] at hok
      exact hok ▸ ⟨rfl, himported, hmessage⟩
    · rintro ⟨rfl, himported, hmessage⟩
      simp [Lookup.result, himported, hmessage]

theorem resolveKind_eq_ok (h : ∀ d ∈ names, d.role ≠ .enum) (hf : Plain f) {scope : String}
    {path : List Nat} {k : Kind} : resolveKind names imported scope path f = .ok k ↔
      (∀ n, plainKind f = .message n → Defined names imported n) ∧ k = plainKind f := by
  unfold resolveKind plainKind Descriptor.Field.typeNameText
  rcases hf.typed with ⟨t, htype, hname⟩ | ⟨n, htype, hname⟩
  · simp [htype, hname, eq_comm]
  · have hne : "." ++ n ≠ "" := by simp [String.append_eq_empty_iff]
    simp only [htype, hname, Option.getD_some, hne, if_false, Text.dropDot_dot, bind_eq_ok, pure_eq_ok,
      resolve_dot h]
    constructor
    · rintro ⟨d, hd, rfl⟩
      have hn := (find_eq_some hd.1).2
      refine ⟨fun n' hn' => ?_, by simp [kindOf, hd.2.2, hn]⟩
      obtain rfl : n = n' := Kind.message.inj hn'
      exact ⟨d, hd⟩
    · rintro ⟨hdef, rfl⟩
      obtain ⟨d, hd⟩ := hdef n rfl
      exact ⟨d, hd, by simp [kindOf, hd.2.2, (find_eq_some hd.1).2]⟩

theorem resolveOneof_eq_ok {count : Nat} {o : Option Nat} : resolveOneof count f = .ok o ↔
    (∀ i, f.oneofIndex = some i → 0 ≤ i.toInt ∧ i.toInt < count) ∧
      o = f.oneofIndex.map fun i => i.toInt.toNat := by
  unfold resolveOneof
  cases f.oneofIndex with
  | none => simp [eq_comm]
  | some i =>
    simp only [Option.some.injEq, Option.map_some, forall_eq']
    split
    · rename_i hbound
      simp [hbound, eq_comm]
    · rename_i hbound
      simp only [hbound, false_and, reduceCtorEq]

/-- **Exactly when a plain field resolves, and to what.** -/
theorem field_eq_ok (h : ∀ d ∈ s.names, d.role ≠ .enum) (hf : Plain f) {message : String}
    {oneofs : Nat} {path : List Nat} {g : Field} : s.field message oneofs path f = .ok g ↔
      Resolves s oneofs f ∧ g = plainField s.dialect f := by
  have hdefault (k : Kind) (v : Option Message.Value) :
      resolveDefault s.enums k f = .ok v ↔ v = none := by
    rw [resolveDefault, hf.unset]
    simp [eq_comm]
  rw [Scope.field, refuse_eq_ok]
  simp only [Bool.not_eq_true, bind_eq_ok, pure_eq_ok, hdefault, resolveKind_eq_ok h hf,
    resolveOneof_eq_ok]
  constructor
  · rintro ⟨hnumber, _, ⟨htype, rfl⟩, _, rfl, _, ⟨honeof, rfl⟩, rfl⟩
    exact ⟨⟨by simpa using hnumber, htype, honeof⟩, rfl⟩
  · rintro ⟨hr, rfl⟩
    exact ⟨by simpa using hr.number, _, ⟨hr.type, rfl⟩, none, rfl, _, ⟨hr.oneof, rfl⟩, rfl⟩

/-! ## The fields of a message -/

/-- No two fields share a number or a JSON name. -/
def Distinct (fs : List Field) : Prop :=
  fs.Pairwise fun f g => f.number ≠ g.number ∧ f.descriptor.jsonName ≠ g.descriptor.jsonName

theorem addField_eq_ok {done out : List Field} {given : Descriptor.Field} {g : Field} :
    addField done given g = .ok out ↔
      (∀ f ∈ done, f.number ≠ g.number ∧ f.descriptor.jsonName ≠ g.descriptor.jsonName) ∧
        out = done ++ [g] := by
  unfold addField
  split
  · rename_i hused
    obtain ⟨f, hf, heq⟩ := List.any_eq_true.mp hused
    simp only [reduceCtorEq, false_iff, not_and]
    exact fun hall => absurd (eq_of_beq heq) (hall f hf).1
  · rename_i hnumber
    split
    · rename_i hused
      obtain ⟨f, hf, heq⟩ := List.any_eq_true.mp hused
      simp only [reduceCtorEq, false_iff, not_and]
      exact fun hall => absurd (eq_of_beq heq) (hall f hf).2
    · rename_i hname
      rw [Except.ok.injEq, eq_comm (a := done ++ [g])]
      refine (and_iff_right fun f hf => ⟨fun heq => ?_, fun heq => ?_⟩).symm
      · exact hnumber (List.any_eq_true.mpr ⟨f, hf, beq_iff_eq.mpr heq⟩)
      · exact hname (List.any_eq_true.mpr ⟨f, hf, beq_iff_eq.mpr heq⟩)

/-- **Exactly when plain fields resolve after others**, and to what. -/
theorem fields_eq_ok (h : ∀ d ∈ s.names, d.role ≠ .enum) {message : String} {oneofs index : Nat}
    {path : List Nat} {fs : List Descriptor.Field} (hfs : ∀ f ∈ fs, Plain f) {done out : List Field}
    (hdone : Distinct done) : s.fields message oneofs path index done fs = .ok out ↔
      (∀ f ∈ fs, Resolves s oneofs f) ∧ Distinct (done ++ fs.map (plainField s.dialect)) ∧
        out = done ++ fs.map (plainField s.dialect) := by
  induction fs generalizing index done with
  | nil => simp [Scope.fields, hdone, eq_comm]
  | cons f fs ih =>
    have hrest := fun g hg => hfs g (List.mem_cons_of_mem f hg)
    simp only [Scope.fields, bind_eq_ok, field_eq_ok h (hfs f List.mem_cons_self), addField_eq_ok]
    have hsnoc (hnew : ∀ g ∈ done, g.number ≠ (plainField s.dialect f).number ∧
        g.descriptor.jsonName ≠ (plainField s.dialect f).descriptor.jsonName) :
        Distinct (done ++ [plainField s.dialect f]) :=
      List.pairwise_append.mpr ⟨hdone, List.pairwise_singleton _ _,
        fun g hg x hx => List.mem_singleton.mp hx ▸ hnew g hg⟩
    have hassoc : done ++ (f :: fs).map (plainField s.dialect) =
        done ++ [plainField s.dialect f] ++ fs.map (plainField s.dialect) := by simp
    rw [hassoc, List.forall_mem_cons]
    constructor
    · rintro ⟨_, ⟨hf, rfl⟩, _, ⟨hnew, rfl⟩, hfields⟩
      obtain ⟨hall, hdistinct, rfl⟩ := (ih hrest (hsnoc hnew)).mp hfields
      exact ⟨⟨hf, hall⟩, hdistinct, rfl⟩
    · rintro ⟨⟨hf, hall⟩, hdistinct, rfl⟩
      have hnew := fun g hg => (List.pairwise_append.mp (List.pairwise_append.mp hdistinct).1).2.2
        g hg _ List.mem_cons_self
      exact ⟨_, ⟨hf, rfl⟩, _, ⟨hnew, rfl⟩, (ih hrest (hsnoc hnew)).mpr ⟨hall, hdistinct, rfl⟩⟩

/-! ## The messages of a file -/

/-- The fields of the message are plain. -/
def AllPlain (m : Descriptor.Message) : Prop := ∀ f ∈ m.fields, Plain f

/-- What a message with plain fields resolves to. -/
def plainMessage (dialect : Dialect) (scope : String) (m : Descriptor.Message) : Message where
  fullName := fullName scope m
  fields := (m.fields.map (plainField dialect)).mergeSort fun f g => f.number ≤ g.number
  descriptor := m

/-- The fields of the message resolve, each beside the others. -/
structure Settled (s : Scope) (m : Descriptor.Message) : Prop where
  fields : ∀ f ∈ m.fields, Resolves s m.oneofs.length f
  distinct : Distinct (m.fields.map (plainField s.dialect))

variable {m : Descriptor.Message} {outer : String} {path : List Nat} {out : List Message}

theorem message_eq_ok (h : ∀ d ∈ s.names, d.role ≠ .enum) (hm : AllPlain m) (henums : m.enums = []) :
    s.message outer path m = .ok out ↔ Settled s m ∧ ∃ inner,
      s.messages (fullName outer m) (path ++ [3]) 0 m.nested = .ok inner ∧
        out = plainMessage s.dialect outer m :: inner := by
  obtain ⟨name, fields, nested, enums, options, oneofs, reserve⟩ := m
  obtain rfl : enums = [] := henums
  have hfields {message : String} {out : List Field} :
      s.fields message oneofs.length path 0 [] fields = .ok out ↔
        (∀ f ∈ fields, Resolves s oneofs.length f) ∧ Distinct (fields.map (plainField s.dialect)) ∧
          out = fields.map (plainField s.dialect) := fields_eq_ok h hm List.Pairwise.nil
  rw [Scope.message.eq_def]
  simp only [bind_eq_ok, pure_eq_ok, hfields]
  constructor
  · rintro ⟨_, ⟨hall, hdistinct, rfl⟩, inner, hinner, -, -, rfl⟩
    exact ⟨⟨hall, hdistinct⟩, inner, hinner, rfl⟩
  · rintro ⟨hs, inner, hinner, rfl⟩
    exact ⟨_, ⟨hs.fields, hs.distinct, rfl⟩, inner, hinner, ⟨⟩, rfl, rfl⟩

theorem messages_cons {index : Nat} {ms : List Descriptor.Message} :
    s.messages outer path index (m :: ms) = .ok out ↔ ∃ first rest,
      s.message outer (path ++ [index]) m = .ok first ∧
        s.messages outer path (index + 1) ms = .ok rest ∧ out = first ++ rest := by
  rw [Scope.messages]
  simp only [bind_eq_ok, pure_eq_ok]
  exact exists_congr fun first => ⟨fun ⟨hf, rest, hrest, heq⟩ => ⟨rest, hf, hrest, heq.symm⟩,
    fun ⟨rest, hf, hrest, heq⟩ => ⟨hf, rest, hrest, heq.symm⟩⟩

theorem messages_nil {index : Nat} : s.messages outer path index [] = .ok out ↔ out = [] := by
  rw [Scope.messages, Except.ok.injEq, eq_comm]

/-- Exactly when messages resolve that have no others inside, and to what. -/
theorem leaves_eq_ok (h : ∀ d ∈ s.names, d.role ≠ .enum) {index : Nat}
    {ms : List Descriptor.Message} (hms : ∀ m ∈ ms, Leaf m ∧ AllPlain m) :
    s.messages outer path index ms = .ok out ↔
      (∀ m ∈ ms, Settled s m) ∧ out = ms.map (plainMessage s.dialect outer) := by
  induction ms generalizing index out with
  | nil => simp [messages_nil]
  | cons m ms ih =>
    obtain ⟨hleaf, hplain⟩ := hms m List.mem_cons_self
    have hrest := fun n hn => hms n (List.mem_cons_of_mem m hn)
    simp only [messages_cons, message_eq_ok h hplain hleaf.enums, hleaf.nested, messages_nil,
      ih hrest, List.forall_mem_cons, List.map_cons]
    constructor
    · rintro ⟨_, _, ⟨hm, _, rfl, rfl⟩, ⟨hall, rfl⟩, rfl⟩
      exact ⟨⟨hm, hall⟩, rfl⟩
    · rintro ⟨⟨hm, hall⟩, rfl⟩
      exact ⟨_, _, ⟨hm, [], rfl, rfl⟩, ⟨hall, rfl⟩, rfl⟩

/-- The message and those inside have plain fields and define nothing else. -/
structure Simple (m : Descriptor.Message) : Prop extends Flat m where
  plain : AllPlain m
  inner : ∀ n ∈ m.nested, AllPlain n

/-- The message and those inside resolve. -/
def AllSettled (s : Scope) (m : Descriptor.Message) : Prop :=
  Settled s m ∧ ∀ n ∈ m.nested, Settled s n

/-- What a message and those inside resolve to. -/
def plainMessages (dialect : Dialect) (m : Descriptor.Message) : List Message :=
  plainMessage dialect "" m :: m.nested.map (plainMessage dialect (fullName "" m))

/-- Messages are called differently when all their names differ. -/
theorem nodup_plainMessages {dialect : Dialect} (h : ((treeNames "" m).map (·.1)).Nodup) :
    ((plainMessages dialect m).map (·.fullName)).Nodup := by
  have hinner : ∀ (scope : String) (ns : List Descriptor.Message),
      (ns.map (fullName scope)).Sublist ((ns.flatMap (ownNames scope)).map (·.1)) := by
    intro scope ns
    induction ns with
    | nil => exact List.Sublist.refl _
    | cons n ns ih =>
      rw [List.flatMap_cons, List.map_append]
      exact ((List.nil_sublist _).cons_cons _).append ih
  refine List.Nodup.sublist ?_ h
  rw [plainMessages, List.map_cons, List.map_map, treeNames, List.map_append]
  exact ((List.nil_sublist _).cons_cons _).append (hinner (fullName "" m) m.nested)

/-- **Exactly when a message resolves with those inside**, and to what. -/
theorem simple_eq_ok (h : ∀ d ∈ s.names, d.role ≠ .enum) (hm : Simple m) :
    s.message "" path m = .ok out ↔ AllSettled s m ∧ out = plainMessages s.dialect m := by
  have hinner := fun n hn => And.intro (hm.nested n hn) (hm.inner n hn)
  simp only [message_eq_ok h hm.plain hm.enums, leaves_eq_ok h hinner]
  constructor
  · rintro ⟨hs, _, ⟨hall, rfl⟩, rfl⟩
    exact ⟨⟨hs, hall⟩, rfl⟩
  · rintro ⟨⟨hs, hall⟩, rfl⟩
    exact ⟨hs, _, ⟨hall, rfl⟩, rfl⟩

variable {enums : List Enum} {files : List String} {file : Descriptor.File} {dialect : Dialect}

theorem checkImports_eq_ok {u : Unit} :
    checkImports files file = .ok u ↔ ∀ d ∈ file.dependencies, d ∈ files := by
  unfold checkImports
  cases hfind : file.dependencies.find? fun d => !files.contains d with
  | none => simpa using hfind
  | some d =>
    have hd := List.find?_some hfind
    simp only [reduceCtorEq, false_iff]
    exact fun hall => absurd (hall d (List.mem_of_find?_eq_some hfind)) (by simpa using hd)

/-- Exactly when the file of one message resolves, and to what. -/
theorem resolveFile_eq_ok (h : ∀ d ∈ names, d.role ≠ .enum) (hfile : Holds file m) (hm : Simple m)
    (hdialect : dialectOf file = .ok dialect) : resolveFile names enums files file = .ok out ↔
      (∀ d ∈ file.dependencies, d ∈ files) ∧
        AllSettled ⟨names, enums, file.nameText :: file.dependencies, dialect⟩ m ∧
          out = plainMessages dialect m := by
  have hpackage : file.packageText = "" := by rw [Descriptor.File.packageText, hfile.package]; rfl
  let s : Scope := ⟨names, enums, file.nameText :: file.dependencies, dialect⟩
  have hmessage {path : List Nat} {out : List Message} : s.message "" path m = .ok out ↔
      AllSettled s m ∧ out = plainMessages dialect m := simple_eq_ok h hm
  unfold resolveFile
  simp only [bind_eq_ok, pure_eq_ok, checkImports_eq_ok, hdialect, hpackage, hfile.messages,
    hfile.enums]
  constructor
  · rintro ⟨-, himports, _, hd, _, hmessages, -, -, rfl⟩
    obtain rfl := Except.ok.inj hd
    obtain ⟨_, _, hfirst, hrest, rfl⟩ := messages_cons.mp hmessages
    obtain rfl := messages_nil.mp hrest
    obtain ⟨hs, rfl⟩ := hmessage.mp hfirst
    exact ⟨himports, hs, List.append_nil _⟩
  · rintro ⟨himports, hs, rfl⟩
    have hfirst : s.messages "" [4] 0 [m] = .ok (plainMessages dialect m) := messages_cons.mpr
      ⟨_, [], hmessage.mpr ⟨hs, rfl⟩, messages_nil.mpr rfl, (List.append_nil _).symm⟩
    exact ⟨⟨⟩, himports, dialect, rfl, _, hfirst, ⟨⟩, rfl, rfl⟩

/-! ## Pools -/

theorem mem_of_find {p : Pool} {n : String} {m : Message} (h : p.find n = some m) :
    m ∈ p.messages ∧ m.fullName = n :=
  ⟨List.mem_of_find?_eq_some h, by simpa using List.find?_some h⟩

/-- A message is found under its name when no other has it. -/
theorem find_of_mem {p : Pool} {m : Message} (hm : m ∈ p.messages)
    (hnodup : (p.messages.map (·.fullName)).Nodup) : p.find m.fullName = some m := by
  obtain ⟨o, ho⟩ : ∃ o, p.find m.fullName = some o :=
    Option.isSome_iff_exists.mp (List.find?_isSome.mpr ⟨m, hm, beq_self_eq_true _⟩)
  obtain ⟨hmem, hname⟩ := mem_of_find ho
  rw [ho, List.inj_on_of_nodup_map hnodup hmem hm hname]

theorem fileEnums_eq (hfile : Holds file m) (hm : Flat m) : fileEnums file = [] := by
  have hleaf : ∀ (outer : String) (n : Descriptor.Message), Leaf n → messageEnums outer n = [] := by
    intro outer ⟨name, fields, nested, enums, options, oneofs, reserve⟩ hn
    obtain rfl : nested = [] := hn.nested
    obtain rfl : enums = [] := hn.enums
    rw [messageEnums.eq_def]
    simp [messagesEnums]
  have hleaves : ∀ (outer : String) (ns : List Descriptor.Message), (∀ n ∈ ns, Leaf n) →
      messagesEnums outer ns = [] := by
    intro outer ns hns
    induction ns with
    | nil => rw [messagesEnums]
    | cons n ns ih =>
      rw [messagesEnums, hleaf outer n (hns n List.mem_cons_self),
        ih fun x hx => hns x (List.mem_cons_of_mem n hx)]
      rfl
  obtain ⟨name, fields, nested, enums, options, oneofs, reserve⟩ := m
  obtain rfl : enums = [] := hm.enums
  rw [fileEnums, hfile.messages, hfile.enums, messagesEnums, messagesEnums, messageEnums.eq_def]
  simp [hleaves _ nested hm.nested]

/-- **The pool of files that hold one message each.** -/
theorem ofFiles_eq_ok {α : Type} {es : List α} {file : α → Descriptor.File}
    {message : α → Descriptor.Message} {p : Pool} (hes : ∀ e ∈ es, Holds (file e) (message e) ∧
      Simple (message e) ∧ dialectOf (file e) = .ok dialect) :
    ofFiles (es.map file) = .ok p ↔ ∃ names, Names.addFiles [] [] (es.map file) = .ok names ∧
      (∀ e ∈ es, (∀ d ∈ (file e).dependencies, d ∈ (es.map file).map (·.nameText)) ∧
        AllSettled ⟨names, [], (file e).nameText :: (file e).dependencies, dialect⟩ (message e)) ∧
      p = ⟨es.flatMap fun e => plainMessages dialect (message e), []⟩ := by
  have henums : (es.map file).flatMap fileEnums = [] := by
    rw [List.flatMap_map, List.flatMap_eq_nil_iff]
    exact fun e he => fileEnums_eq (hes e he).1 (hes e he).2.1.toFlat
  rw [ofFiles]
  simp only [bind_eq_ok, pure_eq_ok, henums, List.mapM_map]
  refine exists_congr fun names => and_congr_right fun hnames => ?_
  have hrole : ∀ d ∈ names, d.role ≠ .enum := fun d hd => role_of_addFiles hnames
    (List.forall_mem_map.mpr fun e he => ⟨message e, (hes e he).1, (hes e he).2.1.toFlat⟩) hd
  have hresolve {out : List (List Message)} :
      es.mapM (fun e => resolveFile names [] ((es.map file).map (·.nameText)) (file e)) = .ok out ↔
        (∀ e ∈ es, (∀ d ∈ (file e).dependencies, d ∈ (es.map file).map (·.nameText)) ∧
          AllSettled ⟨names, [], (file e).nameText :: (file e).dependencies, dialect⟩ (message e)) ∧
        out = es.map fun e => plainMessages dialect (message e) :=
    mapM_eq_ok fun e he _ => (resolveFile_eq_ok hrole (hes e he).1 (hes e he).2.1
      (hes e he).2.2).trans and_assoc.symm
  constructor
  · rintro ⟨out, hout, rfl⟩
    obtain ⟨hall, rfl⟩ := hresolve.mp hout
    exact ⟨hall, by rw [List.flatMap_def]⟩
  · rintro ⟨hall, rfl⟩
    exact ⟨_, hresolve.mpr ⟨hall, rfl⟩, by rw [List.flatMap_def]⟩

end RowStream.Pool
