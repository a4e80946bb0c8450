import RowStream.Proofs.Shape.Recursion
import RowStream.Proofs.Table.Layout

/-!
# Inlined fields

A field that lies in the root says what it said before: its name, its number and its label, how it is
written and its JSON name. Only its message is called otherwise, by its place in the root.

The descriptor of a table that stands alone is its message with those of all other scopes inside: names get
longer along references, so that there is no cycle, and the table leads to every scope. None of the choices
of the newer dialect is left, since each only marked the presence of one field.

* `inlineOf_plain`: an inlined field beside what it was.
* `Resolved.finds`: the search for what is inlined ends well.
* `Resolved.inline_eq`: the descriptor of a table that stands alone.
-/

namespace RowStream.Shape

open Descriptor (Dialect)
open Pool (Field Kind Message Plain plainField plainKind)

/-- The full name that a message has inside the root. -/
def innerName (root n : String) : String := root ++ "." ++ flatName n

/-- What the field of a message of a table resolves to inside the root. -/
def inlined (root : String) (f : Field) : Field := plainField .proto2 (inlineField root [] f)

/-- The kind of a field inside the root. -/
def innerKind (root : String) : Kind → Kind
  | .message n => .message (innerName root n)
  | k => k

/-- The field inside the root says what the field says. -/
structure InlineOf (root : String) (f g : Field) : Prop where
  name : g.name = f.name
  number : g.number = f.number
  label : g.label = f.label
  kind : g.kind = innerKind root f.kind
  packed : g.packed = f.packed
  presence : g.presence = !f.isRepeated
  unset : g.default? = none
  alone : g.oneof = none
  jsonName : g.descriptor.jsonName = f.descriptor.jsonName

variable {dialect : Dialect} {root : String} {f : Descriptor.Field} {g : Field}

/-- The options of an inlined field, which say whether it is packed. -/
def innerOptions (g : Field) : Option Descriptor.FieldOptions :=
  if g.packed then some { g.descriptor.options.getD {} with packed := some true }
  else g.descriptor.options

theorem oneofIndex_inlineField : (inlineField root [] g).oneofIndex = none := by
  simp [inlineField]

theorem kind_of_plain (h : Plain f) :
    (∃ s, plainKind f = .scalar s ∧ f.typeValue = .scalar s ∧ f.typeName = none) ∨
      ∃ n, plainKind f = .message n := by
  unfold plainKind
  rcases h.typed with ⟨s, htype, hname⟩ | ⟨n, htype, -⟩
  · exact .inl ⟨s, by rw [htype], htype, hname⟩
  · exact .inr ⟨_, by rw [htype]⟩

/-- An inlined field declares its type in full. -/
theorem plain_inlineField (h : Plain f) :
    Plain (inlineField root [] (plainField dialect f)) ∧
      plainKind (inlineField root [] (plainField dialect f)) = innerKind root (plainKind f) := by
  have hunset : (inlineField root [] (plainField dialect f)).defaultValue = none := by
    rw [← h.unset]
    exact Pool.complete_defaultValue (plainKind f) f
  rcases kind_of_plain h with ⟨s, hs, htype, hname⟩ | ⟨n, hn⟩
  · have htype' : (inlineField root [] (plainField dialect f)).typeValue = .scalar s := by
      simp only [inlineField, plainField, hs, Pool.complete]
      exact htype
    have hname' : (inlineField root [] (plainField dialect f)).typeName = none := by
      simp only [inlineField, plainField, hs, Pool.complete]
      exact hname
    exact ⟨⟨hunset, .inl ⟨s, htype', hname'⟩⟩, by rw [plainKind, htype', hs]; rfl⟩
  · have htype' : (inlineField root [] (plainField dialect f)).typeValue = .message := by
      simp only [inlineField, plainField, hn, Pool.complete]
      rfl
    have hname' : (inlineField root [] (plainField dialect f)).typeName =
        some ("." ++ innerName root n) := by
      simp only [inlineField, plainField, hn, innerName, String.append_assoc]
    refine ⟨⟨hunset, .inr ⟨_, htype', hname'⟩⟩, ?_⟩
    rw [plainKind, htype', hn, Descriptor.Field.typeNameText, hname', Option.getD_some,
      Text.dropDot_dot]
    rfl

theorem isPackable_innerKind (k : Kind) : (innerKind root k).isPackable = k.isPackable := by
  cases k <;> rfl

/-- Whether an inlined field is packed is spelled out, and stays as it was. -/
theorem isPacked_inlineField :
    Pool.isPacked .proto2 f.labelValue (innerKind root (plainKind f))
      (inlineField root [] (plainField dialect f)) = (plainField dialect f).packed := by
  have hoptions : (inlineField root [] (plainField dialect f)).options =
      innerOptions (plainField dialect f) := rfl
  have hold : (plainField dialect f).descriptor.options = f.options :=
    Pool.complete_options (plainKind f) f
  have hpacked : (plainField dialect f).packed =
      Pool.isPacked dialect f.labelValue (plainKind f) f := rfl
  unfold Pool.isPacked at hpacked ⊢
  rw [hoptions, innerOptions, hold, isPackable_innerKind]
  cases hp : (plainField dialect f).packed with
  | true =>
    rw [hp] at hpacked
    simp_all
  | false =>
    rw [hp] at hpacked
    cases ho : f.options with
    | none => simp
    | some o => simpa [ho] using hpacked.symm

/-- **An inlined field says what it said before.** -/
theorem inlineOf_plain (h : Plain f) :
    InlineOf root (plainField dialect f) (inlined root (plainField dialect f)) := by
  have hlabel : (inlineField root [] (plainField dialect f)).labelValue = f.labelValue := by
    simp [inlineField, plainField, Descriptor.Field.labelValue]
  have hkind : plainKind (inlineField root [] (plainField dialect f)) =
      innerKind root (plainKind f) := (plain_inlineField h).2
  constructor
  case name => simp [inlined, plainField, inlineField, Descriptor.Field.nameText]
  case number => simp [inlined, plainField, inlineField]
  case label => exact hlabel
  case kind => exact hkind
  case packed =>
    have hpacked : Pool.isPacked .proto2 f.labelValue (innerKind root (plainKind f))
        (inlineField root [] (plainField dialect f)) = (plainField dialect f).packed :=
      isPacked_inlineField
    rw [← hpacked, ← hkind, ← hlabel]
    rfl
  case presence =>
    change Pool.hasPresence .proto2 (inlineField root [] (plainField dialect f)).labelValue _ _ =
      (f.labelValue != .repeated)
    rw [Pool.hasPresence, hlabel, oneofIndex_inlineField]
    simp [inlineField]
  case unset => rfl
  case alone => simp [inlined, plainField, oneofIndex_inlineField]
  case jsonName => simp [inlined, plainField, inlineField]

/-! ## The descriptor of a table that stands alone -/

/-- The message inside the root, when none of its choices is a real one. -/
def bare (root : String) (m : Message) : Descriptor.Message :=
  { m.descriptor with
    fields := m.fields.map (inlineField root [])
    nested := []
    enums := []
    oneofs := [] }

/-- The root with messages inside. -/
def standalone (root : String) (m : Message) (ms : List Message) : Descriptor.Message :=
  { bare root m with
    nested := ms.map fun n => { bare root n with name := some (flatName n.fullName) } }

theorem inlineMessage_eq {m : Message} (h : realOneofs m = []) :
    inlineMessage root m = bare root m := by
  simp only [inlineMessage, h, List.filterMap_nil, bare]

end RowStream.Shape

namespace RowStream.Table.Compile.Resolved

open Descriptor (Dialect)

variable {dialect : Dialect} {top : Scope} {es : List Entry} {shape : Shape} {e : Entry}
  {m o : Pool.Message}

/-- A field of a message holds scalars, or the message of a STRUCT column. -/
theorem kind_of_mem (h : Resolved dialect top es shape) (he : e ∈ es) {f : Pool.Field}
    (hf : f ∈ (e.resolved dialect).fields) : (∃ s, f.kind = .scalar s) ∨
      ∃ c ∈ e.scope.columns, c.isStruct = true ∧
        f.kind = .message (nestedName e.scope.name c.name) := by
  obtain ⟨i, c, hc, hof⟩ := (h.messageOf he).of_mem hf
  rcases hof.kind with ⟨s, -, -, hs⟩ | ⟨hstruct, hn⟩
  · exact .inl ⟨s, hs⟩
  · exact .inr ⟨c, List.mem_of_getElem? hc, hstruct, hn⟩

theorem length_lt_nestedName (name column : String) :
    name.length < (nestedName name column).length := by
  have hscore : "_".length = 1 := rfl
  simp only [nestedName, String.length_append]
  omega

/-- The fields of the messages refer to those of other scopes. -/
theorem linked (h : Resolved dialect top es shape) : Pool.Linked shape.pool := by
  constructor
  case messages => exact h.nodup
  case enums =>
    rw [h.pool]
    exact List.nodup_nil
  case refers =>
    intro m hm f hf n hn
    rw [h.pool] at hm ⊢
    obtain ⟨e, he, rfl⟩ := List.mem_map.mp hm
    rcases h.kind_of_mem he hf with ⟨s, hs⟩ | ⟨c, hc, hstruct, hkind⟩
    · exact absurd hs ((Shape.kind_of_message? hn).2.1 s)
    · obtain ⟨o, ho, hname⟩ := h.refers he hc hstruct
      rw [hkind] at hn
      exact ⟨_, List.mem_map_of_mem ho, (fullName_message o).trans (hname.trans (Option.some.inj hn))⟩
  case uses =>
    intro m hm f hf n hn
    rw [h.pool] at hm
    obtain ⟨e, he, rfl⟩ := List.mem_map.mp hm
    rcases h.kind_of_mem he hf with ⟨s, hs⟩ | ⟨c, -, -, hkind⟩
    · exact absurd (hs.symm.trans hn) (by simp)
    · exact absurd (hkind.symm.trans hn) (by simp)

/-- Names get longer along references. -/
theorem length_lt_of_refers (h : Resolved dialect top es shape) (hm : m ∈ shape.pool.messages)
    (hr : shape.pool.Refers m o) : m.fullName.length < o.fullName.length := by
  obtain ⟨f, hf, hkind, -⟩ := hr
  rw [h.pool] at hm
  obtain ⟨e, he, rfl⟩ := List.mem_map.mp hm
  rcases h.kind_of_mem he hf with ⟨s, hs⟩ | ⟨c, -, -, hn⟩
  · exact absurd hs ((Shape.kind_of_message? hkind).2.1 s)
  · rw [hn] at hkind
    rw [← Option.some.inj hkind, show (e.resolved dialect).fullName = e.scope.name from fullName_message e]
    exact length_lt_nestedName e.scope.name c.name

theorem length_lt_of_descends (h : Resolved dialect top es shape) (hm : m ∈ shape.pool.messages)
    (hd : shape.pool.Descends m o) : m.fullName.length < o.fullName.length := by
  induction hd with
  | single hr => exact h.length_lt_of_refers hm hr
  | tail hd hr ih => exact ih.trans (h.length_lt_of_refers (Pool.Descends.mem hd) hr)

/-- The message of the table is one of its pool. -/
theorem mem_top (h : Resolved dialect top es shape) : shape.message ∈ shape.pool.messages := by
  obtain ⟨e, he, -, hmessage⟩ := h.top
  rw [hmessage, h.pool]
  exact List.mem_map_of_mem he

theorem fullName_top (h : Resolved dialect top es shape) : shape.message.fullName = top.name := by
  obtain ⟨e, -, rfl, hmessage⟩ := h.top
  rw [hmessage]
  exact fullName_message e

/-- **The messages of a table lie on no cycle**, so that the search ends well. -/
theorem finds (h : Resolved dialect top es shape) :
    ∃ c, Shape.Finds shape.pool [shape.message.fullName] shape.message.fields {} c := by
  have hends := Shape.finds_or_fails shape.pool [shape.message.fullName] shape.message.fields {}
  generalize Shape.collect shape.pool [shape.message.fullName] shape.message.fields {} = r at hends
  cases r with
  | ok c => exact ⟨c, hends⟩
  | error n =>
    obtain ⟨x, -, -, hcycle⟩ := Shape.Fails.exact hends h.linked h.mem_top
    have hlt := h.length_lt_of_descends (Pool.Descends.mem hcycle) hcycle
    exact absurd hlt (Nat.lt_irrefl _)

/-- What lies in the root of a table: the messages of the other scopes, each once, and with every
message also those that it refers to. -/
structure Inner (dialect : Dialect) (top : Scope) (es : List Entry) (ms : List Pool.Message) :
    Prop where
  of_mem : ∀ m ∈ ms, ∃ e ∈ es, m = e.resolved dialect ∧ top.name.length < e.scope.name.length
  nodup : (ms.map (·.fullName)).Nodup
  mem_of : ∀ e ∈ es, e.scope.name ≠ top.name → e.resolved dialect ∈ ms
  referred : ∀ e ∈ es, ∀ f ∈ (e.resolved dialect).fields, ∀ n, f.kind = .message n →
    ∃ m ∈ ms, m.fullName = n

/-- What the search finds for a table lies in the root of its descriptor. -/
theorem inner_of_finds (h : Resolved dialect top es shape) {s : Schema}
    (hfiles : files s top.name dialect = .ok (es.map (Entry.file dialect))) {c : Shape.Collected}
    (hc : Shape.Finds shape.pool [shape.message.fullName] shape.message.fields {} c) :
    Inner dialect top es c.messages ∧ c.enums = [] := by
  obtain ⟨⟨hnodup, hmessages⟩, ⟨-, henums⟩, -⟩ := hc.exact h.linked
  constructor
  · constructor
    case of_mem =>
      intro m hm
      have hd := (hmessages m).mp hm
      have hmem := Pool.Descends.mem hd
      have hlt := h.length_lt_of_descends h.mem_top hd
      rw [h.pool] at hmem
      obtain ⟨e, he, rfl⟩ := List.mem_map.mp hmem
      rw [h.fullName_top, show (e.resolved dialect).fullName = _ from fullName_message e] at hlt
      exact ⟨e, he, rfl, hlt⟩
    case nodup => exact hnodup
    case mem_of =>
      intro e he hne
      refine (hmessages _).mpr ?_
      rcases Relation.reflTransGen_iff_eq_or_transGen.mp (h.reaches hfiles he) with heq | hd
      · exact absurd ((fullName_message e).symm.trans ((congrArg _ heq).trans h.fullName_top)) hne
      · exact hd
    case referred =>
      intro e he f hf n hn
      have hkind : f.kind.message? = some n := by rw [hn]; rfl
      have hmem : e.resolved dialect ∈ shape.pool.messages := h.pool ▸ List.mem_map_of_mem he
      obtain ⟨o, ho, rfl⟩ := h.linked.refers _ hmem f hf n hkind
      have hstep : shape.pool.Refers (e.resolved dialect) o :=
        ⟨f, hf, hkind, Pool.find_of_mem ho h.nodup⟩
      exact ⟨o, (hmessages o).mpr (.tail' (h.reaches hfiles he) hstep), rfl⟩
  · refine List.eq_nil_iff_forall_not_mem.mpr fun e he => ?_
    obtain ⟨_, -, huses⟩ := (henums e).mp he
    have hmem := huses.1
    rw [h.pool] at hmem
    exact List.not_mem_nil hmem

/-- What the search finds for a table makes its descriptor. -/
theorem inline_of_finds (h : Resolved dialect top es shape) {s : Schema}
    (hfiles : files s top.name dialect = .ok (es.map (Entry.file dialect))) {c : Shape.Collected}
    (hc : Shape.Finds shape.pool [shape.message.fullName] shape.message.fields {} c) :
    shape.inline = .ok (Shape.standalone top.name shape.message c.messages) := by
  obtain ⟨e₀, he₀, hscope, hmessage⟩ := h.top
  have hname : shape.message.name = top.name := by
    rw [hmessage, ← hscope]
    rfl
  obtain ⟨hinner, henums⟩ := h.inner_of_finds hfiles hc
  have hnested : c.messages.map (fun m => { Shape.inlineMessage top.name m with
      name := some (Shape.flatName m.fullName) }) = c.messages.map fun m =>
        { Shape.bare top.name m with name := some (Shape.flatName m.fullName) } := by
    refine List.map_congr_left fun m hm => ?_
    obtain ⟨e, he, rfl, -⟩ := hinner.of_mem m hm
    rw [Shape.inlineMessage_eq (h.realOneofs he)]
  have htop : Shape.inlineMessage top.name shape.message = Shape.bare top.name shape.message :=
    Shape.inlineMessage_eq (hmessage ▸ h.realOneofs he₀)
  unfold Shape.inline
  rw [hc.collect_eq]
  simp only [hname, hnested, htop, henums, List.map_nil, Shape.standalone]
  rfl

/-- **The descriptor of a table that stands alone.** -/
theorem inline_eq (h : Resolved dialect top es shape) {s : Schema}
    (hfiles : files s top.name dialect = .ok (es.map (Entry.file dialect))) :
    ∃ ms, Inner dialect top es ms ∧
      shape.inline = .ok (Shape.standalone top.name shape.message ms) := by
  obtain ⟨c, hc⟩ := h.finds
  exact ⟨c.messages, (h.inner_of_finds hfiles hc).1, h.inline_of_finds hfiles hc⟩

end RowStream.Table.Compile.Resolved
