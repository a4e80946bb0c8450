import RowStream.Proofs.Fallible
import RowStream.Table.Compile

/-!
# What a message says of columns

A scope is the table or one of its STRUCT columns: the name of its message, and its columns. The
message has one field for each column, in their order, which says the name, the number, the type and
the label of the column (`Describes`).

To compile a scope adds one field after the other to a draft. What is added depends on the column
and its position alone, not on the files that are there already (`Drafted`).

* `field_eq`, `fields_cons`, `scope_eq`: the steps of the compilation.
* `describes_of_drafted`: the message of a finished draft describes the scope.
-/

namespace RowStream.Table

open Descriptor (Dialect FieldType Label)

/-- The column has columns of its own. -/
def Column.isStruct (c : Column) : Bool := ColumnType.ofNumber? c.type == some .struct

/-- The label of a mode. Only the older dialect can require a field. -/
def Mode.label (dialect : Dialect) : Mode → Label
  | .repeated => .repeated
  | .required => if dialect = .proto2 then .required else .optional
  | .nullable | .unspecified => .optional

/-! ## Scopes -/

/-- What a message is compiled from: its name, and the columns of the table or of a STRUCT
column. -/
structure Scope where
  name : String
  columns : List Column

namespace Scope

/-- The scope of the STRUCT column at a position. -/
def sub? (s : Scope) (i : Nat) : Option Scope :=
  (s.columns[i]?).bind fun c =>
    if c.isStruct then some ⟨Compile.nestedName s.name c.name, c.columns⟩ else none

/-- The scope at the end of a path of STRUCT columns, each given by its position. -/
def at? (s : Scope) : List Nat → Option Scope
  | [] => some s
  | i :: p => (s.sub? i).bind fun t => t.at? p

theorem at?_append (s : Scope) (p q : List Nat) :
    s.at? (p ++ q) = (s.at? p).bind fun t => t.at? q := by
  induction p generalizing s with
  | nil => simp [at?]
  | cons i p ih =>
    simp only [List.cons_append, at?, Option.bind_assoc]
    exact congrArg _ (funext fun t => ih t)

theorem at?_concat (s : Scope) (p : List Nat) (i : Nat) :
    s.at? (p ++ [i]) = (s.at? p).bind fun t => t.sub? i := by
  simp [at?_append, at?]

theorem sub?_eq_some {s t : Scope} {i : Nat} : s.sub? i = some t ↔ ∃ c, s.columns[i]? = some c ∧
    c.isStruct = true ∧ t = ⟨Compile.nestedName s.name c.name, c.columns⟩ := by
  simp only [sub?, Option.bind_eq_some_iff]
  refine exists_congr fun c => and_congr_right fun _ => ?_
  cases c.isStruct <;> simp [eq_comm]

/-- The message of a STRUCT column has a longer name than the one around it. -/
theorem length_lt_of_sub? {s t : Scope} {i : Nat} (h : s.sub? i = some t) :
    s.name.length < t.name.length := by
  obtain ⟨c, -, -, rfl⟩ := sub?_eq_some.mp h
  simp only [Compile.nestedName, String.length_append]
  have hscore : "_".length = 1 := rfl
  omega

theorem length_le_of_at? {s t : Scope} {p : List Nat} (h : s.at? p = some t) :
    s.name.length ≤ t.name.length := by
  induction p generalizing s with
  | nil => exact Option.some.inj h ▸ Nat.le_refl _
  | cons i p ih =>
    obtain ⟨u, hu, ht⟩ := Option.bind_eq_some_iff.mp h
    exact Nat.le_trans (Nat.le_of_lt (length_lt_of_sub? hu)) (ih ht)

end Scope

/-! ## Descriptions -/

/-- The field describes a column with a number: its name, its type and its label, and for a STRUCT
column the message of its columns. -/
structure DescribesColumn (dialect : Dialect) (scope : String) (number : Nat) (c : Column)
    (f : Descriptor.Field) : Prop where
  name : f.name = some c.name
  number : f.number = some (Int32.ofNat number)
  type : ∃ t, Compile.wireType c = .ok t ∧ f.type = some t.number
  label : ∃ m, Mode.ofNumber? c.mode = some m ∧ f.label = some (m.label dialect).number
  reference : c.isStruct = true → f.typeName = some ("." ++ Compile.nestedName scope c.name)

/-- The message has the name of the scope and describes exactly its columns: one field for each, in
their order and numbered from one. -/
structure Describes (dialect : Dialect) (s : Scope) (m : Descriptor.Message) : Prop where
  name : m.name = some s.name
  length : m.fields.length = s.columns.length
  column : ∀ i c f, s.columns[i]? = some c → m.fields[i]? = some f →
    DescribesColumn dialect s.name (i + 1) c f

namespace Compile

variable {dialect : Dialect} {name : String} {number : Nat} {c : Column} {cs : List Column}
  {d d' : Draft} {fs fs' : List Descriptor.File} {t : FieldType} {l : Label}

/-- Exactly STRUCT columns have messages for values. -/
theorem eq_message_iff (h : wireType c = .ok t) : t = .message ↔ c.isStruct = true := by
  simp only [wireType] at h
  simp only [Column.isStruct]
  cases hn : ColumnType.ofNumber? c.type with
  | none => simp [hn] at h
  | some ct =>
    simp only [hn] at h
    have hother {u : FieldType} (hu : Except.ok u = (.ok t : Except Unsupported FieldType))
        (hne : u ≠ .message) : ¬ t = .message := Except.ok.inj hu ▸ hne
    cases ct
    case struct => simp [← Except.ok.inj h]
    case timestamp =>
      simp only at h
      split at h
      · split at h <;> simpa using hother h (by simp)
      · simpa using hother h (by simp)
    case unspecified | interval | range => exact absurd h (by simp)
    all_goals simpa using hother h (by simp)

theorem mode_of_label (h : label dialect c = .ok l) :
    ∃ m, Mode.ofNumber? c.mode = some m ∧ l = m.label dialect := by
  simp only [label] at h
  cases hm : Mode.ofNumber? c.mode with
  | none => simp [hm] at h
  | some m =>
    refine ⟨m, rfl, ?_⟩
    rw [hm] at h
    cases m <;> cases dialect <;> simp_all [Mode.label]

/-! ## The steps of the compilation -/

/-- The draft with the field of a column. -/
def Draft.put (d : Draft) (dialect : Dialect) (name : String) (number : Nat) (c : Column)
    (t : FieldType) (l : Label) : Draft :=
  let base := baseField dialect c.name number l t
  if t = .message then
    (d.require (fileName (nestedName name c.name))).add dialect c.name l t
      { base with typeName := some ("." ++ nestedName name c.name) }
  else d.add dialect c.name l t base

/-- Adds the message of a scope, unless its name is taken. -/
def nested (dialect : Dialect) (s : Scope) (fs : List Descriptor.File) :
    Except Unsupported (List Descriptor.File) :=
  if isTaken fs (fileName s.name) then .ok fs else scope dialect s.name s.columns fs

/-- Adds the message that the field of a column refers to, if it is a STRUCT. -/
def refer (dialect : Dialect) (name : String) (c : Column) (t : FieldType)
    (fs : List Descriptor.File) : Except Unsupported (List Descriptor.File) :=
  if t = .message then nested dialect ⟨nestedName name c.name, c.columns⟩ fs else .ok fs

/-- One column: its field goes to the draft, and its message to the files. -/
theorem field_eq (dialect : Dialect) (name : String) (number : Nat) (c : Column) (d : Draft)
    (fs : List Descriptor.File) : field dialect name number c d fs = do
      let t ← wireType c
      let l ← label dialect c
      let fs ← refer dialect name c t fs
      return (d.put dialect name number c t l, fs) := by
  obtain ⟨column, type, mode, columns, description, maxLength, precision, scale, expression,
    digits⟩ := c
  rw [field]
  refine congrArg (Except.bind _) (funext fun t => congrArg (Except.bind _) (funext fun l => ?_))
  by_cases ht : t = .message
  · simp only [ht, if_true, refer, nested, scope, Draft.put]
    split
    · rfl
    · cases fields dialect (nestedName name column) 1 columns {} fs <;> rfl
  · simp only [ht, if_false, refer, Draft.put]
    rfl

/-- Columns are compiled one after the other. -/
theorem fields_cons (h : fields dialect name number (c :: cs) d fs = .ok (d', fs')) :
    ∃ t l fs₁, wireType c = .ok t ∧ label dialect c = .ok l ∧
      refer dialect name c t fs = .ok fs₁ ∧
      fields dialect name (number + 1) cs (d.put dialect name number c t l) fs₁ = .ok (d', fs') := by
  rw [fields, field_eq] at h
  obtain ⟨⟨d₁, fs₁⟩, hfield, hrest⟩ := bind_eq_ok.mp h
  obtain ⟨t, ht, hfield⟩ := bind_eq_ok.mp hfield
  obtain ⟨l, hl, hfield⟩ := bind_eq_ok.mp hfield
  obtain ⟨fs₂, hfs, hput⟩ := bind_eq_ok.mp hfield
  obtain ⟨rfl, rfl⟩ : d.put dialect name number c t l = d₁ ∧ fs₂ = fs₁ := by
    simpa [pure, Except.pure] using hput
  exact ⟨t, l, fs₂, ht, hl, hfs, hrest⟩

theorem scope_eq {s : Scope} (h : scope dialect s.name s.columns fs = .ok fs') :
    ∃ d fs₁, fields dialect s.name 1 s.columns {} fs = .ok (d, fs₁) ∧
      fs' = addFile dialect s.name d fs₁ := by
  rw [scope] at h
  obtain ⟨⟨d, fs₁⟩, hfields, heq⟩ := bind_eq_ok.mp h
  exact ⟨d, fs₁, hfields, (Except.ok.inj heq).symm⟩

/-! ## Drafts -/

/-- The draft `d'` is `d` with the fields of columns, the first of which has the number. -/
inductive Drafted (dialect : Dialect) (name : String) : Nat → List Column → Draft → Draft → Prop
  | nil (number : Nat) (d : Draft) : Drafted dialect name number [] d d
  | cons {number : Nat} {c : Column} {cs : List Column} {d d' : Draft} {t : FieldType} {l : Label}
      (type : wireType c = .ok t) (label : label dialect c = .ok l)
      (rest : Drafted dialect name (number + 1) cs (d.put dialect name number c t l) d') :
      Drafted dialect name number (c :: cs) d d'

/-- The files that are there do not matter for the fields. -/
theorem drafted_of_fields (h : fields dialect name number cs d fs = .ok (d', fs')) :
    Drafted dialect name number cs d d' := by
  induction cs generalizing number d fs with
  | nil =>
    rw [fields] at h
    obtain ⟨rfl, -⟩ : d = d' ∧ fs = fs' := by simpa using h
    exact .nil number d
  | cons c cs ih =>
    obtain ⟨t, l, fs₁, ht, hl, -, hrest⟩ := fields_cons h
    exact .cons ht hl (ih hrest)

/-- The marks of presence leave everything else of a field. -/
theorem add_fields (d : Draft) (dialect : Dialect) (column : String) (l : Label) (t : FieldType)
    (f : Descriptor.Field) : ∃ presence oneof, (d.add dialect column l t f).fields =
      d.fields ++ [{ f with proto3Optional := presence, oneofIndex := oneof }] := by
  simp only [Draft.add]
  split
  · exact ⟨_, _, rfl⟩
  · exact ⟨f.proto3Optional, f.oneofIndex, rfl⟩

@[simp] theorem require_fields (d : Draft) (file : String) : (d.require file).fields = d.fields := by
  simp only [Draft.require]
  split <;> rfl

/-- The field that is put into a draft describes its column. -/
theorem put_fields (d : Draft) (name : String) (number : Nat) (ht : wireType c = .ok t)
    (hl : label dialect c = .ok l) : ∃ f, (d.put dialect name number c t l).fields =
      d.fields ++ [f] ∧ DescribesColumn dialect name number c f := by
  obtain ⟨m, hm, rfl⟩ := mode_of_label hl
  simp only [Draft.put]
  split
  · obtain ⟨presence, oneof, heq⟩ := add_fields (d.require (fileName (nestedName name c.name)))
      dialect c.name (m.label dialect) t
      { baseField dialect c.name number (m.label dialect) t with
        typeName := some ("." ++ nestedName name c.name) }
    rw [require_fields] at heq
    exact ⟨_, heq, rfl, rfl, ⟨t, ht, rfl⟩, ⟨m, hm, rfl⟩, fun _ => rfl⟩
  · rename_i hscalar
    obtain ⟨presence, oneof, heq⟩ := add_fields d dialect c.name (m.label dialect) t
      (baseField dialect c.name number (m.label dialect) t)
    exact ⟨_, heq, rfl, rfl, ⟨t, ht, rfl⟩, ⟨m, hm, rfl⟩,
      fun hstruct => absurd ((eq_message_iff ht).mpr hstruct) hscalar⟩

/-- Columns add their fields to a draft, in their order. -/
theorem Drafted.fields (h : Drafted dialect name number cs d d') : ∃ added,
    d'.fields = d.fields ++ added ∧ added.length = cs.length ∧
      ∀ i c f, cs[i]? = some c → added[i]? = some f →
        DescribesColumn dialect name (number + i) c f := by
  induction h with
  | nil number d => exact ⟨[], by simp⟩
  | @cons number c cs d d' t l ht hl _ ih =>
    obtain ⟨f, hput, hf⟩ := put_fields d name number ht hl
    obtain ⟨added, heq, hlength, hadded⟩ := ih
    refine ⟨f :: added, by simp [heq, hput], by simp [hlength], fun i c' f' hc' hf' => ?_⟩
    cases i with
    | zero =>
      obtain rfl : c = c' := by simpa using hc'
      obtain rfl : f = f' := by simpa using hf'
      exact hf
    | succ i =>
      have hi := hadded i c' f' (by simpa using hc') (by simpa using hf')
      rwa [Nat.add_right_comm] at hi

/-- **The message of a finished draft describes its scope.** -/
theorem describes_of_drafted {s : Scope} (h : Drafted dialect s.name 1 s.columns {} d) :
    Describes dialect s (d.message s.name) := by
  obtain ⟨added, heq, hlength, hadded⟩ := h.fields
  rw [List.nil_append] at heq
  refine ⟨rfl, by rw [← hlength, ← heq]; rfl, fun i c f hc hf => ?_⟩
  rw [Nat.add_comm]
  exact hadded i c f hc (by simpa [Draft.message, heq] using hf)

end Compile

end RowStream.Table
