import RowStream.Proofs.Message.Fields
import RowStream.Proofs.Pool.Plain
import RowStream.Proofs.Table.Field
import RowStream.Proofs.Table.Registered
import RowStream.Shape.Inline

/-!
# The pool of a table

The files of a schema resolve to one message for each registered scope. Its fields stand in the order
of the columns, and what they say follows from the column alone: a field is packed when it is repeated
and its kind allows it, in both dialects, and it has presence exactly if it is not repeated
(`FieldOf`). The choices of the newer dialect have one member each.

* `resolved_of_ofTable`: the pool and the message of the shape of a table.
* `Resolved.messageOf`: what its messages say of the columns.
-/

namespace RowStream.Table

open Descriptor (Dialect FieldType Label Scalar)
open Pool (Kind)

/-- The field says of a column its name and number, the kind of its values and how it is written. -/
structure FieldOf (dialect : Dialect) (scope : String) (number : Nat) (c : Column) (f : Pool.Field) :
    Prop where
  name : f.name = c.name
  number : f.number = number
  kind : (∃ s ∈ Compile.columnScalars, Compile.wireType c = .ok (.scalar s) ∧ f.kind = .scalar s) ∨
    c.isStruct = true ∧ f.kind = .message (Compile.nestedName scope c.name)
  label : ∃ m, Mode.ofNumber? c.mode = some m ∧ f.label = m.label dialect
  packed : f.packed = (f.isRepeated && f.kind.isPackable)
  presence : f.presence = !f.isRepeated
  unset : f.default? = none
  jsonName : f.descriptor.jsonName = some (Pool.jsonName f.name)

/-- The message says of a scope its name and its columns, in their order, and no two of its fields
stand in one choice. -/
structure MessageOf (dialect : Dialect) (s : Scope) (m : Pool.Message) : Prop
    extends Message.Unbound m where
  name : m.fullName = s.name
  length : m.fields.length = s.columns.length
  column : ∀ i c f, s.columns[i]? = some c → m.fields[i]? = some f →
    FieldOf dialect s.name (i + 1) c f
  bounded : s.columns.length < 19000

namespace MessageOf

variable {dialect : Dialect} {s : Scope} {m : Pool.Message}

/-- Every field is that of a column. -/
theorem of_mem (h : MessageOf dialect s m) {f : Pool.Field} (hf : f ∈ m.fields) :
    ∃ i c, s.columns[i]? = some c ∧ FieldOf dialect s.name (i + 1) c f := by
  obtain ⟨i, hi, rfl⟩ := List.mem_iff_getElem.mp hf
  have hc := List.getElem?_eq_getElem (h.length ▸ hi)
  exact ⟨i, _, hc, h.column i _ _ hc (List.getElem?_eq_getElem hi)⟩

/-- Every column has its field. -/
theorem of_column (h : MessageOf dialect s m) {i : Nat} {c : Column} (hc : s.columns[i]? = some c) :
    ∃ f, m.fields[i]? = some f ∧ FieldOf dialect s.name (i + 1) c f := by
  have hlt : i < m.fields.length := h.length ▸ (List.getElem?_eq_some_iff.mp hc).1
  have hf := List.getElem?_eq_getElem hlt
  exact ⟨_, hf, h.column i c _ hc hf⟩

end MessageOf

namespace Compile

variable {dialect : Dialect} {name : String} {number k : Nat} {c : Column} {t : FieldType} {l : Label}

/-! ## Fields -/

theorem plain_columnField (h : wireType c = .ok t) :
    Pool.Plain (columnField dialect name number c t l k) := by
  refine ⟨rfl, ?_⟩
  rw [typeValue_columnField]
  rcases type_of_wireType h with rfl | ⟨s, -, rfl⟩
  · exact .inr ⟨_, rfl, rfl⟩
  · exact .inl ⟨s, rfl, rfl⟩

/-- The kind of the values of a column. -/
theorem plainKind_columnField (h : wireType c = .ok t) :
    (∃ s ∈ columnScalars, wireType c = .ok (.scalar s) ∧
      Pool.plainKind (columnField dialect name number c t l k) = .scalar s) ∨
    c.isStruct = true ∧ Pool.plainKind (columnField dialect name number c t l k) =
      .message (nestedName name c.name) := by
  unfold Pool.plainKind
  rw [typeValue_columnField]
  rcases type_of_wireType h with rfl | ⟨s, hs, rfl⟩
  · exact .inr ⟨(eq_message_iff h).mp rfl, congrArg _ (Text.dropDot_dot _)⟩
  · exact .inl ⟨s, hs, h, rfl⟩

/-- The scalars of columns are packed when they can be. -/
theorem isPackable_of_mem {s : Scalar} (h : s ∈ columnScalars) :
    s.isPackable = isPacked (.scalar s) := by
  simp only [columnScalars, List.mem_cons, List.not_mem_nil, or_false] at h
  rcases h with rfl | rfl | rfl | rfl | rfl | rfl <;> rfl

/-- Only the older dialect requires fields. -/
theorem label_ne_required (h : label .proto3 c = .ok l) : l ≠ .required := by
  obtain ⟨m, -, rfl⟩ := mode_of_label h
  cases m <;> simp [Mode.label]

/-- Repeated values are packed when their kind allows it: the older dialect says so, and in the newer
one it goes without saying. -/
theorem isPacked_columnField (ht : wireType c = .ok t) :
    Pool.isPacked dialect l (Pool.plainKind (columnField dialect name number c t l k))
        (columnField dialect name number c t l k) =
      (l == .repeated && (Pool.plainKind (columnField dialect name number c t l k)).isPackable) := by
  unfold Pool.isPacked Pool.plainKind
  rw [typeValue_columnField]
  rcases type_of_wireType ht with rfl | ⟨s, hs, rfl⟩
  · simp [Kind.isPackable]
  · have hs := isPackable_of_mem hs
    cases dialect <;> cases hpackable : s.isPackable <;> cases l <;>
      simp [columnField, Kind.isPackable, ← hs, hpackable]

/-- A field has presence exactly if it is not repeated: the older dialect gives it to all of these,
and in the newer one messages have it and the others are marked. -/
theorem hasPresence_columnField (ht : wireType c = .ok t) (hl : label dialect c = .ok l) :
    Pool.hasPresence dialect l (Pool.plainKind (columnField dialect name number c t l k))
        (columnField dialect name number c t l k) = (l != .repeated) := by
  unfold Pool.hasPresence Pool.plainKind
  rw [typeValue_columnField]
  cases dialect with
  | proto2 => simp [columnField, isMarked]
  | proto3 =>
    have hrequired := label_ne_required hl
    rcases type_of_wireType ht with rfl | ⟨s, -, rfl⟩
    · simp [columnField, isMarked, Kind.message?]
    · cases l <;> simp_all [columnField, isMarked]

/-- **The field of a column resolves to one that says the column**, in both dialects alike. -/
theorem fieldOf_plainField (ht : wireType c = .ok t) (hl : label dialect c = .ok l)
    (hlt : number < 19000) :
    FieldOf dialect name number c (Pool.plainField dialect (columnField dialect name number c t l k)) := by
  constructor
  case name => rfl
  case number =>
    have hint : (Int32.ofNat number).toInt = number := Int32.toInt_ofNat_of_lt (by omega)
    exact congrArg Int.toNat hint
  case kind => exact plainKind_columnField ht
  case label =>
    obtain ⟨m, hm, rfl⟩ := mode_of_label hl
    exact ⟨m, hm, labelValue_columnField ..⟩
  case packed =>
    have hlabel := labelValue_columnField dialect name number c t l k
    simp only [Pool.plainField, Pool.Field.isRepeated, hlabel, isPacked_columnField ht]
  case presence =>
    have hlabel := labelValue_columnField dialect name number c t l k
    simp only [Pool.plainField, Pool.Field.isRepeated, hlabel, hasPresence_columnField ht hl]
    rfl
  case unset => rfl
  case jsonName => exact Pool.complete_jsonName _ _

/-! ## Messages -/

variable {root : Scope} {es : List Entry} {e : Entry}

/-- What the message of a scope resolves to. -/
def Entry.resolved (dialect : Dialect) (e : Entry) : Pool.Message :=
  Pool.plainMessage dialect "" e.message

theorem fullName_message (e : Entry) : Pool.fullName "" e.message = e.scope.name :=
  Text.qualify_empty _

theorem Registered.simple (h : Registered dialect root es) (he : e ∈ es) :
    Pool.Simple e.message := by
  refine ⟨⟨fun n hn => absurd hn List.not_mem_nil, rfl⟩, fun f hf => ?_,
    fun n hn => absurd hn List.not_mem_nil⟩
  rcases (h.drafted_of_mem he).field f hf with hf | ⟨i, c, t, l, k, -, ht, -, rfl⟩
  · exact absurd hf List.not_mem_nil
  · exact plain_columnField ht

theorem dialectOf_file (dialect : Dialect) (e : Entry) :
    Pool.dialectOf (e.file dialect) = .ok dialect := by
  cases dialect <;> rfl

/-- A message that resolves has fewer fields than the first number that is set aside. -/
theorem Registered.bounded (h : Registered dialect root es) (he : e ∈ es) {s : Pool.Scope}
    (hs : Pool.Settled s e.message) : e.scope.columns.length < 19000 := by
  by_contra hge
  have hlt : 18999 < e.scope.columns.length := by omega
  obtain ⟨t, l, k, -, -, hf⟩ := (h.drafted_of_mem he).fieldAt (List.getElem?_eq_getElem hlt)
  have hnumber : Pool.isFieldNumber (Int32.ofNat 19000) = true :=
    (hs.fields _ (List.mem_of_getElem? hf)).number
  exact absurd hnumber (by decide)

theorem Drafted.fieldOf {cs : List Column} {d : Draft} (h : Drafted dialect name 1 cs {} d)
    (hbound : cs.length < 19000) {i : Nat} {f : Pool.Field} (hc : cs[i]? = some c)
    (hf : (d.fields.map (Pool.plainField dialect))[i]? = some f) :
    FieldOf dialect name (i + 1) c f := by
  have hlt := (List.getElem?_eq_some_iff.mp hc).1
  obtain ⟨t, l, k, ht, hl, hget⟩ := h.fieldAt hc
  rw [List.getElem?_map, hget, Option.map_some, Option.some.injEq] at hf
  rw [← hf, Nat.add_comm]
  exact fieldOf_plainField ht hl (by omega)

/-- The fields of a message stand in the order of its columns. -/
theorem Registered.resolved_fields (h : Registered dialect root es) (he : e ∈ es)
    (hbound : e.scope.columns.length < 19000) :
    (e.resolved dialect).fields = e.draft.fields.map (Pool.plainField dialect) := by
  have hdrafted := h.drafted_of_mem he
  refine List.mergeSort_of_pairwise (List.pairwise_iff_getElem.mpr fun i j hi hj hij => ?_)
  have hnumber {i : Nat} (hi : i < (e.draft.fields.map (Pool.plainField dialect)).length) :
      (e.draft.fields.map (Pool.plainField dialect))[i].number = i + 1 := by
    have hlt : i < e.scope.columns.length := by
      rw [List.length_map] at hi
      exact hdrafted.length_fields ▸ hi
    exact (hdrafted.fieldOf hbound (List.getElem?_eq_getElem hlt) (List.getElem?_eq_getElem hi)).number
  have hle : (e.draft.fields.map (Pool.plainField dialect))[i].number ≤
      (e.draft.fields.map (Pool.plainField dialect))[j].number := by
    rw [hnumber hi, hnumber hj]
    omega
  exact decide_eq_true hle

/-- The fields in choices belong to one choice after the other. -/
theorem Registered.oneofs (h : Registered dialect root es) (he : e ∈ es)
    (hbound : e.scope.columns.length < 19000) :
    (e.draft.fields.map (Pool.plainField dialect)).filterMap (·.oneof) =
      List.range e.draft.oneofs.length := by
  have hdrafted := h.drafted_of_mem he
  have hnumbered := hdrafted.numbered (show Draft.Numbered {} from rfl)
  have hfew : e.draft.oneofs.length < 19000 := by
    have hle := List.length_filterMap_le (·.oneofIndex) e.draft.fields
    rw [hnumbered, List.length_map, List.length_range, hdrafted.length_fields] at hle
    omega
  have hindex : ∀ k ∈ List.range e.draft.oneofs.length, (Int32.ofNat k).toInt.toNat = k := by
    intro k hk
    have hlt := List.mem_range.mp hk
    rw [Int32.toInt_ofNat_of_lt (by omega)]
    rfl
  rw [List.filterMap_map]
  calc e.draft.fields.filterMap (fun f => f.oneofIndex.map fun i => i.toInt.toNat)
      = (e.draft.fields.filterMap (·.oneofIndex)).map fun i => i.toInt.toNat :=
        List.map_filterMap.symm
    _ = (List.range e.draft.oneofs.length).map fun k => (Int32.ofNat k).toInt.toNat := by
        rw [hnumbered, List.map_map]
        rfl
    _ = List.range e.draft.oneofs.length := by rw [List.map_congr_left hindex, List.map_id']

/-- A field in a choice is marked. -/
theorem marked_of_oneof (h : Registered dialect root es) (he : e ∈ es) {f : Descriptor.Field}
    (hf : f ∈ e.draft.fields) {i : Int32} (hi : f.oneofIndex = some i) :
    f.proto3Optional = some true := by
  rcases (h.drafted_of_mem he).field f hf with hf | ⟨i, c, t, l, k, -, -, -, rfl⟩
  · exact absurd hf List.not_mem_nil
  · cases hmark : isMarked dialect l t <;> simp_all [columnField]

/-- **Every choice marks the presence of one field.** -/
theorem Registered.choice (h : Registered dialect root es) (he : e ∈ es)
    (hbound : e.scope.columns.length < 19000) {i : Nat} (hi : i < e.draft.oneofs.length) :
    ∃ f, Shape.membersOf (e.resolved dialect) i = [f] ∧
      f.descriptor.proto3Optional = some true := by
  have hone : (Shape.membersOf (e.resolved dialect) i).length = 1 := by
    rw [Shape.membersOf, h.resolved_fields he hbound, ← List.countP_eq_length_filter,
      ← List.count_filterMap, h.oneofs he hbound]
    exact List.count_eq_one_of_mem List.nodup_range (List.mem_range.mpr hi)
  obtain ⟨f, hf⟩ := List.length_eq_one_iff.mp hone
  refine ⟨f, hf, ?_⟩
  have hmem : f ∈ Shape.membersOf (e.resolved dialect) i := hf ▸ List.mem_singleton_self f
  obtain ⟨hmem, honeof⟩ := List.mem_filter.mp hmem
  rw [h.resolved_fields he hbound] at hmem
  obtain ⟨g, hg, rfl⟩ := List.mem_map.mp hmem
  obtain ⟨k, hk, -⟩ := Option.map_eq_some_iff.mp (eq_of_beq honeof)
  exact (Pool.complete_proto3Optional _ g).trans (marked_of_oneof h he hg hk)

/-- None of the choices is a real one. -/
theorem Registered.realOneofs (h : Registered dialect root es) (he : e ∈ es)
    (hbound : e.scope.columns.length < 19000) : Shape.realOneofs (e.resolved dialect) = [] := by
  refine List.filter_eq_nil_iff.mpr fun i hi => ?_
  obtain ⟨f, hf, hmarked⟩ := h.choice he hbound (List.mem_range.mp hi)
  simp [Shape.isPresenceMark, hf, hmarked]

/-- The choice of a field has no other members. -/
theorem Registered.unbound (h : Registered dialect root es) (he : e ∈ es)
    (hbound : e.scope.columns.length < 19000) : Message.Unbound (e.resolved dialect) := by
  refine ⟨fun f hf n hn => ?_, rfl⟩
  unfold Pool.Message.siblings at hn
  split at hn
  · rename_i i hi
    have hlt : i < e.draft.oneofs.length := by
      have hmem := List.mem_filterMap.mpr ⟨f, hf, hi⟩
      rw [h.resolved_fields he hbound, h.oneofs he hbound] at hmem
      exact List.mem_range.mp hmem
    obtain ⟨g, hg, -⟩ := h.choice he hbound hlt
    have hself : f ∈ Shape.membersOf (e.resolved dialect) i :=
      List.mem_filter.mpr ⟨hf, beq_iff_eq.mpr hi⟩
    change n ∈ (Shape.membersOf (e.resolved dialect) i).map _ at hn
    rw [hg, List.mem_singleton] at hself
    rw [hg, ← hself] at hn
    exact List.mem_singleton.mp hn
  · exact absurd hn List.not_mem_nil

/-- **What the messages of a table say.** -/
theorem Registered.messageOf (h : Registered dialect root es) (he : e ∈ es) {s : Pool.Scope}
    (hs : Pool.Settled s e.message) : MessageOf dialect e.scope (e.resolved dialect) := by
  have hbound := h.bounded he hs
  have hdrafted := h.drafted_of_mem he
  have hfields := h.resolved_fields he hbound
  constructor
  case toUnbound => exact h.unbound he hbound
  case name => exact fullName_message e
  case length =>
    rw [hfields, List.length_map]
    exact hdrafted.length_fields
  case column => exact fun i c f hc hf => hdrafted.fieldOf hbound hc (hfields ▸ hf)
  case bounded => exact hbound

/-! ## Shapes -/

/-- The shape of a table: its pool holds what the messages of registered scopes resolve to, and its
message is that of the table. -/
structure Resolved (dialect : Dialect) (root : Scope) (es : List Entry) (shape : Shape) : Prop where
  registered : Registered dialect root es
  pool : shape.pool = ⟨es.map (Entry.resolved dialect), []⟩
  settled : ∀ e ∈ es, ∃ s : Pool.Scope, s.dialect = dialect ∧ Pool.Settled s e.message
  top : ∃ e ∈ es, e.scope = root ∧ shape.message = e.resolved dialect
  names : dialect = .proto2 → ∀ e ∈ es, ((Pool.treeNames "" e.message).map (·.1)).Nodup
  undotted : Text.dropDot root.name = root.name

/-- **The shape of a table.** -/
theorem resolved_of_ofTable {s : Schema} {scope : String} {shape : Shape}
    (h : Shape.ofTable s scope dialect = .ok shape) : ∃ es,
      files s scope dialect = .ok (es.map (Entry.file dialect)) ∧
        Resolved dialect ⟨scope, s.columns⟩ es shape := by
  unfold Shape.ofTable at h
  split at h
  · exact absurd h (by simp)
  rename_i fs hfiles
  obtain ⟨es, rfl, hr, ⟨e, he, hpath⟩, -⟩ := registered_of_files hfiles
  unfold Shape.ofFiles at h
  split at h
  · exact absurd h (by simp)
  rename_i pool hpool
  obtain ⟨names, hnames, hsettled, rfl⟩ := (Pool.ofFiles_eq_ok fun e he =>
    ⟨⟨rfl, rfl, rfl⟩, hr.simple he, dialectOf_file dialect e⟩).mp hpool
  have hroot : e.scope = ⟨scope, s.columns⟩ := by
    have hat := hr.located_of_mem he
    rw [hpath] at hat
    exact (Option.some.inj hat).symm
  split at h
  · rename_i m hm
    obtain rfl := Except.ok.inj h
    have hflat : (es.flatMap fun e => Pool.plainMessages dialect e.message) =
        es.map (Entry.resolved dialect) := List.map_eq_flatMap.symm
    obtain ⟨o, ho, rfl⟩ : ∃ o ∈ es, o.resolved dialect = m :=
      List.mem_map.mp (hflat ▸ List.mem_of_find?_eq_some hm)
    have hname : o.scope.name = Text.dropDot scope :=
      (fullName_message o).symm.trans (Pool.mem_of_find hm).2
    -- the names of a schema are not shorter than that of its table
    have hdot : Text.dropDot scope = scope := by
      by_contra hne
      have hlt := Text.length_dropDot_lt hne
      have hle := Scope.length_le_of_at? (hr.located_of_mem ho)
      rw [hname] at hle
      exact absurd hlt (Nat.not_lt.mpr hle)
    have heq : o = e := hr.eq_of_name ho he (by rw [hname, hdot, hroot])
    refine ⟨es, hfiles, hr, by rw [hflat], fun e he => ⟨_, rfl, (hsettled e he).2.1⟩,
      ⟨e, he, hroot, by rw [heq]⟩, fun hproto2 e he => ?_, hdot⟩
    exact Pool.nodup_of_addFiles hnames (List.mem_map_of_mem he) ⟨rfl, rfl, rfl⟩
      (hr.simple he).toFlat (hproto2 ▸ dialectOf_file dialect e)
  · exact absurd h (by simp)

namespace Resolved

variable {shape : Shape}

theorem messageOf (h : Resolved dialect root es shape) (he : e ∈ es) :
    MessageOf dialect e.scope (e.resolved dialect) := by
  obtain ⟨s, -, hs⟩ := h.settled e he
  exact h.registered.messageOf he hs

/-- The fields of a message differ in number and JSON name. -/
theorem distinct (h : Resolved dialect root es shape) (he : e ∈ es) :
    Pool.Distinct (e.resolved dialect).fields := by
  obtain ⟨s, hs, hsettled⟩ := h.settled e he
  have hdistinct := hsettled.distinct
  rw [hs] at hdistinct
  rw [h.registered.resolved_fields he (h.messageOf he).bounded]
  exact hdistinct

theorem plain_of_mem (h : Resolved dialect root es shape) (he : e ∈ es) {f : Pool.Field}
    (hf : f ∈ (e.resolved dialect).fields) :
    ∃ g, Pool.Plain g ∧ f = Pool.plainField dialect g := by
  rw [h.registered.resolved_fields he (h.messageOf he).bounded] at hf
  obtain ⟨g, hg, rfl⟩ := List.mem_map.mp hf
  exact ⟨g, (h.registered.simple he).plain g hg, rfl⟩

theorem realOneofs (h : Resolved dialect root es shape) (he : e ∈ es) :
    Shape.realOneofs (e.resolved dialect) = [] :=
  h.registered.realOneofs he (h.messageOf he).bounded

theorem nodup (h : Resolved dialect root es shape) :
    (shape.pool.messages.map (·.fullName)).Nodup := by
  rw [h.pool, List.map_map]
  refine List.Nodup.map_on (fun e he o ho hname => ?_) h.registered.nodup
  refine h.registered.eq_of_name he ho ?_
  rw [← fullName_message e, ← fullName_message o]
  exact hname

/-- The message of a registered scope is found under its name. -/
theorem find_of_mem (h : Resolved dialect root es shape) (he : e ∈ es) :
    shape.pool.find e.scope.name = some (e.resolved dialect) := by
  have hmem : e.resolved dialect ∈ shape.pool.messages := h.pool ▸ List.mem_map_of_mem he
  have hfind := Pool.find_of_mem hmem h.nodup
  rwa [show (e.resolved dialect).fullName = e.scope.name from fullName_message e] at hfind

/-- Every message of the pool is that of a registered scope. -/
theorem of_find (h : Resolved dialect root es shape) {n : String} {m : Pool.Message}
    (hfind : shape.pool.find n = some m) :
    ∃ e ∈ es, e.scope.name = n ∧ m = e.resolved dialect := by
  obtain ⟨hmem, hname⟩ := Pool.mem_of_find hfind
  rw [h.pool] at hmem
  obtain ⟨e, he, rfl⟩ := List.mem_map.mp hmem
  exact ⟨e, he, (fullName_message e).symm.trans hname, rfl⟩

/-- A STRUCT column of a registered scope has the message that its field refers to. -/
theorem refers (h : Resolved dialect root es shape) (he : e ∈ es) {c : Column}
    (hc : c ∈ e.scope.columns) (hstruct : c.isStruct = true) :
    ∃ o ∈ es, o.scope.name = nestedName e.scope.name c.name := by
  obtain ⟨i, hi⟩ := List.getElem?_of_mem hc
  obtain ⟨o, ho, hname, -⟩ :=
    h.registered.refers_of_mem he (Scope.sub?_eq_some.mpr ⟨c, hi, hstruct, rfl⟩)
  exact ⟨o, ho, hname⟩

/-- A STRUCT column has a field that refers to its message. -/
theorem exists_field (h : Resolved dialect root es shape) (he : e ∈ es) {c : Column}
    (hc : c ∈ e.scope.columns) (hstruct : c.isStruct = true) :
    ∃ f ∈ (e.resolved dialect).fields, f.kind = .message (nestedName e.scope.name c.name) := by
  obtain ⟨i, hi⟩ := List.getElem?_of_mem hc
  obtain ⟨f, hf, hof⟩ := (h.messageOf he).of_column hi
  refine ⟨f, List.mem_of_getElem? hf, ?_⟩
  rcases hof.kind with ⟨s, -, htype, -⟩ | ⟨-, hn⟩
  · exact absurd ((eq_message_iff htype).mpr hstruct) (by simp)
  · exact hn

/-- A field that refers to a message has one. -/
theorem exists_find (h : Resolved dialect root es shape) (he : e ∈ es) {f : Pool.Field}
    (hf : f ∈ (e.resolved dialect).fields) {n : String} (hn : f.kind.message? = some n) :
    ∃ o ∈ es, shape.pool.find n = some (o.resolved dialect) := by
  obtain ⟨i, c, hc, hof⟩ := (h.messageOf he).of_mem hf
  rcases hof.kind with ⟨s, -, -, hkind⟩ | ⟨hstruct, hkind⟩
  · rw [hkind] at hn
    exact nomatch hn
  · obtain ⟨o, ho, hname⟩ := h.refers he (List.mem_of_getElem? hc) hstruct
    rw [hkind] at hn
    obtain rfl := Option.some.inj hn
    exact ⟨o, ho, hname ▸ h.find_of_mem ho⟩

end Resolved

end Compile

end RowStream.Table
