import RowStream.Proofs.Table.Field
import RowStream.Proofs.Table.Registered

/-!
# Schemas that require nothing

To relax a schema is to let every column be left out that had to be there, at every depth. The newer
dialect knows no fields that must be set, so it compiles a schema and the relaxed one to the same files.
In the older dialect no field of a relaxed schema is required.

* `files_relax`: the files of a relaxed schema in the newer dialect.
* `Registered.optional`: the labels of a relaxed schema.
-/

namespace RowStream.Table

open Descriptor (Dialect FieldType Label)

/-- The mode that lets a column be left out if it had to be there. -/
def relaxMode (mode : Int32) : Int32 :=
  if mode = Mode.required.number then Mode.nullable.number else mode

mutual

/-- The column with nothing required in it. -/
def Column.relax : Column → Column
  | ⟨name, type, mode, columns, description, maxLength, precision, scale, expression, digits⟩ =>
    ⟨name, type, relaxMode mode, relaxAll columns, description, maxLength, precision, scale,
      expression, digits⟩

/-- Columns with nothing required in them. -/
def relaxAll : List Column → List Column
  | [] => []
  | c :: cs => c.relax :: relaxAll cs

end

/-- The schema with nothing required in it. -/
def Schema.relax (s : Schema) : Schema := ⟨relaxAll s.columns⟩

namespace Column

variable (c : Column)

@[simp] theorem relax_name : c.relax.name = c.name := by cases c; rfl

@[simp] theorem relax_type : c.relax.type = c.type := by cases c; rfl

@[simp] theorem relax_mode : c.relax.mode = relaxMode c.mode := by cases c; rfl

@[simp] theorem relax_columns : c.relax.columns = relaxAll c.columns := by cases c; rfl

@[simp] theorem relax_timestampPrecision : c.relax.timestampPrecision = c.timestampPrecision := by
  cases c; rfl

end Column

theorem relaxAll_eq_map (cs : List Column) : relaxAll cs = cs.map Column.relax := by
  induction cs with
  | nil => rfl
  | cons c cs ih => rw [relaxAll, ih, List.map_cons]

/-- Only a column that had to be there changes its mode. -/
theorem relaxMode_cases (mode : Int32) :
    (Mode.ofNumber? mode = some .required ∧ Mode.ofNumber? (relaxMode mode) = some .nullable) ∨
      (Mode.ofNumber? mode ≠ some .required ∧ relaxMode mode = mode) := by
  by_cases h : mode = Mode.required.number
  · subst h
    exact .inl ⟨by decide, by decide⟩
  · refine .inr ⟨fun hmode => h ?_, if_neg h⟩
    have hnumber := List.find?_some hmode
    exact (eq_of_beq hnumber).symm

namespace Compile

variable {dialect : Dialect} {name : String} {number : Nat} {c : Column} {cs : List Column}
  {d : Draft} {fs : List Descriptor.File} {l : Label}

@[simp] theorem wireType_relax (c : Column) : wireType c.relax = wireType c := by
  simp only [wireType, Column.relax_name, Column.relax_type, Column.relax_timestampPrecision]

/-- The newer dialect says the same of a column that has to be there and of one that may be left
out. -/
theorem label_relax (c : Column) : label .proto3 c.relax = label .proto3 c := by
  simp only [label, Column.relax_name, Column.relax_mode]
  rcases relaxMode_cases c.mode with ⟨hmode, hrelax⟩ | ⟨-, hrelax⟩
  · rw [hmode, hrelax]
  · rw [hrelax]

/-- No relaxed column is required. -/
theorem ne_required_of_relax (h : label dialect c.relax = .ok l) : l ≠ .required := by
  obtain ⟨m, hm, rfl⟩ := mode_of_label h
  have hmode : m ≠ .required := by
    rintro rfl
    rw [Column.relax_mode] at hm
    rcases relaxMode_cases c.mode with ⟨-, hrelax⟩ | ⟨hne, hrelax⟩
    · exact absurd (hrelax.symm.trans hm) (by decide)
    · exact hne (hrelax ▸ hm)
  cases m <;> simp_all [Mode.label]

/-! ## The files of a relaxed schema -/

theorem put_relax (d : Draft) (name : String) (number : Nat) (c : Column) (t : FieldType) (l : Label) :
    d.put dialect name number c.relax t l = d.put dialect name number c t l := by
  simp only [Draft.put, Column.relax_name]

/-- Columns compile as they did before, with everything that lies below them. -/
theorem fields_relax (cs : List Column) (name : String) (number : Nat) (d : Draft)
    (fs : List Descriptor.File) :
    fields .proto3 name number (relaxAll cs) d fs = fields .proto3 name number cs d fs := by
  induction cs using Column.list_induct generalizing name number d fs with
  | nil => rfl
  | cons c cs ihc ih =>
    have hrefer (t : FieldType) : refer .proto3 name c.relax t = refer .proto3 name c t := by
      funext fs
      simp only [refer, nested, scope, Column.relax_name, Column.relax_columns, ihc]
    rw [relaxAll, fields, fields, field_eq, field_eq, wireType_relax, label_relax]
    simp only [hrefer, put_relax, ih]

/-- **The newer dialect has the same files for a schema and the relaxed one.** -/
theorem files_relax (s : Schema) (name : String) :
    files s.relax name .proto3 = files s name .proto3 := by
  rw [files, files, scope, scope, Schema.relax, fields_relax]

/-! ## The labels of a relaxed schema -/

/-- Every scope of a relaxed schema has relaxed columns. -/
theorem relaxed_of_at? {s t : Scope} {p : List Nat} (h : s.at? p = some t)
    (hs : ∃ cs, s.columns = relaxAll cs) : ∃ cs, t.columns = relaxAll cs := by
  induction p generalizing s with
  | nil => exact Option.some.inj h ▸ hs
  | cons i p ih =>
    obtain ⟨u, hu, ht⟩ := Option.bind_eq_some_iff.mp h
    obtain ⟨x, hx, -, rfl⟩ := Scope.sub?_eq_some.mp hu
    obtain ⟨cs, hcs⟩ := hs
    rw [hcs, relaxAll_eq_map, List.getElem?_map] at hx
    obtain ⟨c, -, rfl⟩ := Option.map_eq_some_iff.mp hx
    exact ih ht ⟨c.columns, c.relax_columns⟩

variable {root : Scope} {es : List Entry} {e : Entry}

/-- **No field of a relaxed schema is required**, in either dialect. -/
theorem Registered.optional (h : Registered dialect root es) (he : e ∈ es)
    (hroot : ∃ cs, root.columns = relaxAll cs) {f : Descriptor.Field} (hf : f ∈ e.draft.fields) :
    f.labelValue ≠ .required := by
  obtain ⟨cs, hcs⟩ := relaxed_of_at? (h.located_of_mem he) hroot
  rcases (h.drafted_of_mem he).field f hf with hnil | ⟨i, x, t, l, k, hx, -, hl, rfl⟩
  · exact absurd hnil List.not_mem_nil
  · rw [hcs, relaxAll_eq_map, List.getElem?_map] at hx
    obtain ⟨c, -, rfl⟩ := Option.map_eq_some_iff.mp hx
    rw [labelValue_columnField]
    exact ne_required_of_relax hl

end Compile

end RowStream.Table
