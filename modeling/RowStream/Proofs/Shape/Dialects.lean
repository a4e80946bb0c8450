import Mathlib
import RowStream.Proofs.Shape.Inlined
import RowStream.Proofs.Table.Dialects
import RowStream.Proofs.Table.Relaxed

/-!
# One writer schema in two dialects

The newer dialect marks every field that may be left out with a choice of its own, and packs without
saying so. A descriptor that stands alone has none of these marks and spells the packing out. What is
left of a table is the same in both dialects, if nothing in it is required: only the older one can say
that.

The messages of the two pools are compared one for one (`SameMessage`), and the search finds the same ones
in the same order, since it looks at names alone.

* `Finds.same`: what is found in two such pools.
* `writerDescriptor_relax`: the two descriptors of a table.
-/

namespace RowStream.Shape

open Descriptor (Dialect FieldType Label)
open Pool (Field Message)

variable {root : String}

/-- The fields refer to the same, and are written alike inside the root. -/
structure SameField (root : String) (f g : Field) : Prop where
  kind : f.kind = g.kind
  inlined : inlineField root [] f = inlineField root [] g

/-- The messages have one name, and are written alike inside the root. -/
structure SameMessage (root : String) (m n : Message) : Prop where
  name : m.fullName = n.fullName
  fields : List.Forall₂ (SameField root) m.fields n.fields
  bare : bare root m = bare root n

/-! ## The search -/

variable {p q : Pool} {path : List String} {fs : List Field} {c c' : Collected}

theorem hasMessage_same {d : Collected} (h : List.Forall₂ (SameMessage root) c.messages d.messages)
    (n : String) : c.hasMessage n = d.hasMessage n := by
  unfold Collected.hasMessage
  generalize c.messages = ms, d.messages = ns at h
  induction h with
  | nil => rfl
  | cons hm _ ih => rw [List.any_cons, List.any_cons, ih, hm.name]

/-- The pools have the same messages under a name. -/
theorem find_same (h : List.Forall₂ (SameMessage root) p.messages q.messages) (n : String) :
    (p.find n = none ∧ q.find n = none) ∨
      ∃ m o, p.find n = some m ∧ q.find n = some o ∧ SameMessage root m o := by
  rcases find_of_forall₂ (c := fun m => m.fullName == n) (d := fun o => o.fullName == n) h
    fun m o hmo => by rw [hmo.name] with hnone | ⟨m, o, hm, ho, -, -, hmo⟩
  · exact .inl hnone
  · exact .inr ⟨m, o, hm, ho, hmo⟩

theorem messages_use (c : Collected) (p : Pool) (n : String) : (c.use p n).messages = c.messages := by
  unfold Collected.use
  split
  · rfl
  · cases p.enum? n <;> rfl

/-- Enums of whatever pools leave the messages the same. -/
theorem use_same {d : Collected} (h : List.Forall₂ (SameMessage root) c.messages d.messages)
    (n : String) : List.Forall₂ (SameMessage root) (c.use p n).messages (d.use q n).messages := by
  rwa [messages_use, messages_use]

/-- **Two pools of the same messages**: the search finds the same ones, in the same order. -/
theorem Finds.same (h : Finds p path fs c c')
    (hpq : List.Forall₂ (SameMessage root) p.messages q.messages) {gs : List Field} {d : Collected}
    (hfields : List.Forall₂ (SameField root) fs gs)
    (hmessages : List.Forall₂ (SameMessage root) c.messages d.messages) :
    ∃ d', Finds q path gs d d' ∧ List.Forall₂ (SameMessage root) c'.messages d'.messages := by
  induction h generalizing gs d with
  | nil =>
    cases hfields
    exact ⟨d, .nil, hmessages⟩
  | scalar hf _ ih =>
    obtain _ | ⟨hfg, hrest⟩ := hfields
    obtain ⟨d', hd', hsame⟩ := ih hrest hmessages
    exact ⟨d', .scalar (hfg.kind ▸ hf) hd', hsame⟩
  | enum hf _ ih =>
    obtain _ | ⟨hfg, hrest⟩ := hfields
    obtain ⟨d', hd', hsame⟩ := ih hrest (use_same hmessages _)
    exact ⟨d', .enum (hfg.kind ▸ hf) hd', hsame⟩
  | known hf hn hknown _ ih =>
    obtain _ | ⟨hfg, hrest⟩ := hfields
    obtain ⟨d', hd', hsame⟩ := ih hrest hmessages
    rw [hasMessage_same hmessages] at hknown
    exact ⟨d', .known (hfg.kind ▸ hf) hn hknown hd', hsame⟩
  | missing hf hn hm _ ih =>
    obtain _ | ⟨hfg, hrest⟩ := hfields
    obtain ⟨d', hd', hsame⟩ := ih hrest hmessages
    rcases find_same hpq _ with ⟨-, hnone⟩ | ⟨m, o, hm', -, -⟩
    · exact ⟨d', .missing (hfg.kind ▸ hf) hn hnone hd', hsame⟩
    · exact absurd (hm.symm.trans hm') (by simp)
  | enter hf hn hnew hm _ _ ihin ih =>
    obtain _ | ⟨hfg, hrest⟩ := hfields
    rw [hasMessage_same hmessages] at hnew
    rcases find_same hpq _ with ⟨hnone, -⟩ | ⟨m, o, hm', ho, hmo⟩
    · exact absurd (hnone.symm.trans hm) (by simp)
    obtain rfl := Option.some.inj (hm.symm.trans hm')
    obtain ⟨d₁, hd₁, hsame₁⟩ := ihin (d := d.addMessage o) hmo.fields
      (List.rel_append hmessages (.cons hmo .nil))
    obtain ⟨d', hd', hsame⟩ := ih hrest hsame₁
    exact ⟨d', .enter (hfg.kind ▸ hf) hn hnew ho hd₁ hd', hsame⟩

theorem standalone_same {m n : Message} {ms ns : List Message} (h : SameMessage root m n)
    (hms : List.Forall₂ (SameMessage root) ms ns) : standalone root m ms = standalone root n ns := by
  have hinner : (ms.map fun x => { bare root x with name := some (flatName x.fullName) }) =
      ns.map fun x => { bare root x with name := some (flatName x.fullName) } := by
    induction hms with
    | nil => rfl
    | cons hx _ ih => rw [List.map_cons, List.map_cons, ih, hx.bare, hx.name]
  simp only [standalone, h.bare, hinner]

/-- The message has no choices, and no field is marked as a member of one. -/
structure Unmarked (d : Descriptor.Message) : Prop where
  oneofs : d.oneofs = []
  fields : ∀ f ∈ d.fields, f.oneofIndex = none ∧ f.proto3Optional = none

theorem unmarked_bare (root : String) (m : Message) : Unmarked (bare root m) := by
  refine ⟨rfl, fun f hf => ?_⟩
  obtain ⟨g, -, rfl⟩ := List.mem_map.mp hf
  exact ⟨oneofIndex_inlineField, rfl⟩

end RowStream.Shape

namespace RowStream.Table.Compile

open Descriptor (Dialect FieldType Label)
open Shape (SameField SameMessage)

variable {dialect : Dialect} {name : String} {number k : Nat} {c : Column} {t : FieldType} {l : Label}

/-- The field of a column inside the root, which is the same in both dialects. -/
def rootField (root name : String) (number : Nat) (c : Column) (t : FieldType) (l : Label) :
    Descriptor.Field where
  name := some c.name
  number := some (Int32.ofNat number)
  label := some l.number
  type := some t.number
  typeName :=
    if t = .message then some ("." ++ root ++ "." ++ Shape.flatName (nestedName name c.name))
    else none
  options := if l = .repeated ∧ isPacked t then some { packed := some true } else none
  jsonName := some (Pool.jsonName c.name)

/-- Inside the root nothing is left of the dialect of a field. -/
theorem inlineField_columnField (root : String) (ht : wireType c = .ok t) :
    Shape.inlineField root [] (Pool.plainField dialect (columnField dialect name number c t l k)) =
      rootField root name number c t l := by
  unfold Shape.inlineField Pool.plainField
  rw [labelValue_columnField, isPacked_columnField ht]
  rcases type_of_wireType ht with rfl | ⟨s, hs, rfl⟩
  · have hkind : Pool.plainKind (columnField dialect name number c .message l k) =
        .message (nestedName name c.name) := by
      rw [Pool.plainKind, typeValue_columnField]
      exact congrArg _ (Text.dropDot_dot _)
    simp only [hkind, Pool.complete]
    simp [columnField, rootField, Pool.Kind.isPackable, isPacked, Descriptor.Field.nameText]
  · have hkind : Pool.plainKind (columnField dialect name number c (.scalar s) l k) = .scalar s := by
      rw [Pool.plainKind, typeValue_columnField]
    simp only [hkind, Pool.complete, Pool.Kind.isPackable, isPackable_of_mem hs]
    -- what the older dialect says of packing, goes without saying in the newer one
    cases dialect <;> cases l <;> cases hrun : isPacked (.scalar s) <;>
      simp [columnField, rootField, Descriptor.Field.nameText, hrun]

/-- A column that need not be there has the same label in both dialects. -/
theorem label_same {l' : Label} (h : label .proto2 c = .ok l) (h' : label .proto3 c = .ok l')
    (hl : l ≠ .required) : l = l' := by
  obtain ⟨m, hm, rfl⟩ := mode_of_label h
  obtain ⟨m', hm', rfl⟩ := mode_of_label h'
  obtain rfl : m = m' := Option.some.inj (hm.symm.trans hm')
  cases m
  case required => exact absurd rfl hl
  all_goals rfl

variable {top : Scope} {es os : List Entry} {e o : Entry} {shape shape' : Shape}

/-- The two fields of a column are the same inside the root, if it need not be there. -/
theorem same_of_columns (root : String) {k' : Nat} {l' : Label} (ht : wireType c = .ok t)
    (hl : l = l') : SameField root
      (Pool.plainField .proto2 (columnField .proto2 name number c t l k))
      (Pool.plainField .proto3 (columnField .proto3 name number c t l' k')) := by
  refine ⟨rfl, ?_⟩
  rw [inlineField_columnField root ht, inlineField_columnField root ht, hl]

/-- The two messages of a scope are the same inside the root, if none of its columns has to be
there. -/
theorem same_of_twin (root : String) (h : Resolved .proto2 top es shape)
    (h' : Resolved .proto3 top os shape') (htop : ∃ cs, top.columns = relaxAll cs) (he : e ∈ es)
    (ho : o ∈ os) (htwin : Twin .proto2 .proto3 (e.file .proto2) (o.file .proto3)) :
    SameMessage root (e.resolved .proto2) (o.resolved .proto3) := by
  obtain ⟨s, d, d', hd, hd', hfile, hfile'⟩ := htwin
  have hmessage : e.message = d.message s.name :=
    (List.cons.inj (congrArg Descriptor.File.messages hfile)).1
  have hmessage' : o.message = d'.message s.name :=
    (List.cons.inj (congrArg Descriptor.File.messages hfile')).1
  have hdrafts : e.draft.fields = d.fields := congrArg Descriptor.Message.fields hmessage
  have hdrafts' : o.draft.fields = d'.fields := congrArg Descriptor.Message.fields hmessage'
  have hfields : List.Forall₂ (SameField root) (e.resolved .proto2).fields
      (o.resolved .proto3).fields := by
    rw [h.registered.resolved_fields he (h.messageOf he).bounded,
      h'.registered.resolved_fields ho (h'.messageOf ho).bounded, hdrafts, hdrafts',
      List.forall₂_map_left_iff, List.forall₂_map_right_iff, List.forall₂_iff_get]
    refine ⟨hd.length_fields.trans hd'.length_fields.symm, fun i hi hi' => ?_⟩
    obtain ⟨c, hc⟩ : ∃ c, s.columns[i]? = some c :=
      ⟨_, List.getElem?_eq_getElem (hd.length_fields ▸ hi)⟩
    obtain ⟨t, l, k, ht, hl, hf⟩ := hd.fieldAt hc
    obtain ⟨t', l', k', ht', hl', hf'⟩ := hd'.fieldAt hc
    obtain rfl : t = t' := Except.ok.inj (ht.symm.trans ht')
    have hmem := List.mem_of_getElem? hf
    rw [← hdrafts] at hmem
    have hne := h.registered.optional he htop hmem
    rw [labelValue_columnField] at hne
    have hget : d.fields.get ⟨i, hi⟩ = columnField .proto2 s.name (1 + i) c t l k :=
      Option.some.inj ((List.getElem?_eq_getElem hi).symm.trans hf)
    have hget' : d'.fields.get ⟨i, hi'⟩ = columnField .proto3 s.name (1 + i) c t l' k' :=
      Option.some.inj ((List.getElem?_eq_getElem hi').symm.trans hf')
    rw [hget, hget']
    exact same_of_columns root ht (label_same hl hl' hne)
  constructor
  case name =>
    have hname : e.scope.name = s.name := Option.some.inj (congrArg Descriptor.Message.name hmessage)
    have hname' : o.scope.name = s.name := Option.some.inj (congrArg Descriptor.Message.name hmessage')
    exact ((fullName_message e).trans (hname.trans hname'.symm)).trans (fullName_message o).symm
  case fields => exact hfields
  case bare =>
    have hdescriptor : (e.resolved .proto2).descriptor = d.message s.name := hmessage
    have hdescriptor' : (o.resolved .proto3).descriptor = d'.message s.name := hmessage'
    have hinline : (e.resolved .proto2).fields.map (Shape.inlineField root []) =
        (o.resolved .proto3).fields.map (Shape.inlineField root []) := by
      rw [← List.forall₂_eq_eq_eq, List.forall₂_map_left_iff, List.forall₂_map_right_iff]
      exact hfields.imp fun _ _ h => h.inlined
    simp only [Shape.bare, hinline, hdescriptor, hdescriptor', Draft.message]

/-- The messages of a schema that requires nothing are the same in both dialects, one for one. -/
theorem Resolved.same (root : String) (h : Resolved .proto2 top es shape)
    (h' : Resolved .proto3 top os shape') (htop : ∃ cs, top.columns = relaxAll cs)
    (hfiles : List.Forall₂ (Twin .proto2 .proto3) (es.map (Entry.file .proto2))
      (os.map (Entry.file .proto3))) :
    List.Forall₂ (SameMessage root) shape.pool.messages shape'.pool.messages := by
  rw [List.forall₂_map_left_iff, List.forall₂_map_right_iff, List.forall₂_iff_get] at hfiles
  obtain ⟨hlength, htwin⟩ := hfiles
  rw [h.pool, h'.pool, List.forall₂_map_left_iff, List.forall₂_map_right_iff, List.forall₂_iff_get]
  exact ⟨hlength, fun i hi hi' => same_of_twin root h h' htop (List.get_mem es ⟨i, hi⟩)
    (List.get_mem os ⟨i, hi'⟩) (htwin i hi hi')⟩

/-- The message of the table is found under its name. -/
theorem Resolved.find_top {dialect : Dialect} (h : Resolved dialect top es shape) :
    shape.pool.find top.name = some shape.message := by
  obtain ⟨e, he, hscope, hmessage⟩ := h.top
  rw [hmessage, ← hscope]
  exact h.find_of_mem he

/-- **The descriptors of a schema that requires nothing** are the same in both dialects. -/
theorem Resolved.inline_same (h : Resolved .proto2 top es shape) (h' : Resolved .proto3 top os shape')
    (htop : ∃ cs, top.columns = relaxAll cs) {s : Schema}
    (hfiles : files s top.name .proto2 = .ok (es.map (Entry.file .proto2)))
    (hfiles' : files s top.name .proto3 = .ok (os.map (Entry.file .proto3))) :
    shape.inline = shape'.inline := by
  have hpools := h.same top.name h' htop (twin_of_files hfiles hfiles')
  have hmessage : SameMessage top.name shape.message shape'.message := by
    rcases Shape.find_same hpools top.name with ⟨hnone, -⟩ | ⟨m, o, hm, ho, hmo⟩
    · exact absurd (hnone.symm.trans h.find_top) (by simp)
    · obtain rfl := Option.some.inj (hm.symm.trans h.find_top)
      obtain rfl := Option.some.inj (ho.symm.trans h'.find_top)
      exact hmo
  obtain ⟨c, hc⟩ := h.finds
  obtain ⟨d, hd, hmessages⟩ := hc.same (d := {}) hpools hmessage.fields .nil
  rw [hmessage.name] at hd
  rw [h.inline_of_finds hfiles hc, h'.inline_of_finds hfiles' hd,
    Shape.standalone_same hmessage hmessages]

end RowStream.Table.Compile

namespace RowStream.Shape

variable {s : Table.Schema} {scope : String} {d d' : Descriptor.Message}

/-- The newer dialect has one shape for a schema and the relaxed one. -/
theorem ofTable_relax (s : Table.Schema) (scope : String) :
    ofTable s.relax scope .proto3 = ofTable s scope .proto3 := by
  rw [ofTable, ofTable, Table.Compile.files_relax]

/-- **The two dialects make one writer schema of a table**: the descriptor of a schema in the newer
dialect is that of the relaxed schema in the older one, and neither the root nor a message inside has
choices or marks of presence. -/
theorem writerDescriptor_relax (h : writerDescriptor s scope .proto3 = .ok d)
    (h' : writerDescriptor s.relax scope .proto2 = .ok d') :
    d = d' ∧ Unmarked d ∧ ∀ m ∈ d.nested, Unmarked m ∧ m.nested = [] := by
  unfold writerDescriptor at h h'
  split at h
  case h_2 => exact absurd h (by simp)
  rename_i shape' hshape'
  split at h'
  case h_2 => exact absurd h' (by simp)
  rename_i shape hshape
  rw [← ofTable_relax] at hshape'
  obtain ⟨es, hfiles, hr⟩ := Table.Compile.resolved_of_ofTable hshape
  obtain ⟨os, hfiles', hr'⟩ := Table.Compile.resolved_of_ofTable hshape'
  have hsame := hr.inline_same hr' ⟨s.columns, rfl⟩ hfiles hfiles'
  obtain ⟨ms, -, hinline⟩ := hr'.inline_eq hfiles'
  obtain rfl := Except.ok.inj (hinline.symm.trans h)
  refine ⟨Except.ok.inj ((h.symm.trans hsame.symm).trans h'), ?_, fun n hn => ?_⟩
  · exact ⟨rfl, (unmarked_bare scope shape'.message).fields⟩
  · obtain ⟨m, -, rfl⟩ := List.mem_map.mp hn
    exact ⟨⟨rfl, (unmarked_bare scope m).fields⟩, rfl⟩

/-- A table with columns that have to be there at two depths and with one that repeats: all of them may
be left out in the newer dialect, and in the older one once the schema is relaxed. -/
theorem writerDescriptor_relax_nested :
    let s : Table.Schema := ⟨[{ name := "id", type := 2, mode := 2 },
      { name := "n", type := 2, mode := 3 },
      { name := "a", type := 4, mode := 2, columns := [{ name := "x", type := 1, mode := 2 }] }]⟩
    ∃ d d', writerDescriptor s "root" .proto3 = .ok d ∧
      writerDescriptor s.relax "root" .proto2 = .ok d' ∧ d = d' ∧
        (d.fields ++ d.nested.flatMap (·.fields)).map (·.label) = [some 1, some 3, some 1, some 1] := by
  intro s
  have h : (writerDescriptor s "root" .proto3).map (fun d =>
      (d.fields ++ d.nested.flatMap (·.fields)).map (·.label)) =
        .ok [some 1, some 3, some 1, some 1] := by cbv
  have h' : (writerDescriptor s.relax "root" .proto2).isOk = true := by cbv
  obtain ⟨d, hd, hlabels⟩ := map_eq_ok.mp h
  obtain ⟨d', hd'⟩ := isOk_iff.mp h'
  exact ⟨d, d', hd, hd', (writerDescriptor_relax hd hd').1, hlabels⟩

end RowStream.Shape
