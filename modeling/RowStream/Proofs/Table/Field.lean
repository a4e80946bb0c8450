import RowStream.Proofs.Table.Draft

/-!
# The field of a column

What a column adds to a draft, written out: one field, perhaps a choice that marks its presence, and
for a STRUCT column the file that the message needs.

* `put_eq`: the draft with the field of a column.
* `Drafted.added`, `Drafted.field`: the fields of a finished draft are those of its columns.
* `Drafted.numbered`: every choice belongs to one field.
* `Drafted.mem_dependencies`: a finished draft needs exactly the files of its STRUCT columns.
-/

namespace RowStream.Table.Compile

open Descriptor (Dialect FieldType Label Scalar)

/-- In the newer dialect a field that may be left out and is no message marks its presence. -/
def isMarked (dialect : Dialect) (l : Label) (t : FieldType) : Bool :=
  decide (dialect = .proto3 ∧ l = .optional ∧ t ≠ .message)

/-- The field of a column in the message `name`, which has `oneofs` choices before it. -/
def columnField (dialect : Dialect) (name : String) (number : Nat) (c : Column) (t : FieldType)
    (l : Label) (oneofs : Nat) : Descriptor.Field where
  name := some c.name
  number := some (Int32.ofNat number)
  label := some l.number
  type := some t.number
  typeName := if t = .message then some ("." ++ nestedName name c.name) else none
  options :=
    if dialect = .proto2 ∧ l = .repeated ∧ isPacked t then some { packed := some true } else none
  oneofIndex := if isMarked dialect l t then some (Int32.ofNat oneofs) else none
  proto3Optional := if isMarked dialect l t then some true else none

variable {dialect : Dialect} {name : String} {number : Nat} {c : Column} {cs : List Column}
  {d d' : Draft} {t : FieldType} {l : Label}

theorem isMarked_iff : isMarked dialect l t = true ↔
    dialect = .proto3 ∧ l = .optional ∧ t ≠ .message := decide_eq_true_iff

/-- **What a column adds to a draft.** -/
theorem put_eq (d : Draft) (dialect : Dialect) (name : String) (number : Nat) (c : Column)
    (t : FieldType) (l : Label) : d.put dialect name number c t l =
      { fields := d.fields ++ [columnField dialect name number c t l d.oneofs.length]
        oneofs :=
          if isMarked dialect l t then d.oneofs ++ [{ name := some ("_" ++ c.name) }] else d.oneofs
        dependencies :=
          if t = .message then (d.require (fileName (nestedName name c.name))).dependencies
          else d.dependencies } := by
  unfold Draft.put Draft.add
  by_cases ht : t = .message
  · -- a message is never marked
    have honeofs : (d.require (fileName (nestedName name c.name))).oneofs = d.oneofs := by
      unfold Draft.require
      split <;> rfl
    simp [ht, columnField, baseField, isMarked, honeofs]
  · simp only [← isMarked_iff, ht, if_false, columnField, baseField]
    cases isMarked dialect l t <;> rfl

theorem mem_require {file x : String} :
    x ∈ (d.require file).dependencies ↔ x ∈ d.dependencies ∨ x = file := by
  unfold Draft.require
  split
  · rename_i htaken
    have hmem : file ∈ d.dependencies := by simpa using htaken
    exact ⟨.inl, fun h => h.elim id fun heq => heq ▸ hmem⟩
  · simp

theorem nodup_require {file : String} (h : d.dependencies.Nodup) :
    (d.require file).dependencies.Nodup := by
  unfold Draft.require
  split
  · exact h
  · rename_i hfree
    have hnot : file ∉ d.dependencies := by simpa using hfree
    exact List.nodup_append.mpr ⟨h, List.pairwise_singleton _ file, fun x hx y hy heq =>
      hnot (List.mem_singleton.mp hy ▸ heq ▸ hx)⟩

/-! ## What the field of a column says -/

/-- The types of scalar columns. -/
def columnScalars : List Scalar := [.bool, .bytes, .int32, .string, .int64, .double]

/-- The values of a column are messages or have one of six scalar types. -/
theorem type_of_wireType (h : wireType c = .ok t) :
    t = .message ∨ ∃ s ∈ columnScalars, t = .scalar s := by
  simp only [wireType] at h
  cases hn : ColumnType.ofNumber? c.type with
  | none => simp [hn] at h
  | some ct =>
    simp only [hn] at h
    have hscalar {s : Scalar} (hs : s ∈ columnScalars)
        (h : Except.ok (.scalar s) = (.ok t : Except Unsupported FieldType)) :
        t = .message ∨ ∃ s ∈ columnScalars, t = .scalar s := .inr ⟨s, hs, (Except.ok.inj h).symm⟩
    cases ct
    case struct => exact .inl (Except.ok.inj h).symm
    case unspecified | interval | range => exact absurd h (by simp)
    case timestamp =>
      simp only at h
      split at h
      · split at h <;> exact hscalar (by decide) h
      · exact hscalar (by decide) h
    all_goals exact hscalar (by decide) h

@[simp] theorem typeValue_columnField (dialect : Dialect) (name : String) (number : Nat) (c : Column)
    (t : FieldType) (l : Label) (k : Nat) :
    (columnField dialect name number c t l k).typeValue = t := by
  cases t with
  | scalar s => cases s <;> rfl
  | _ => rfl

@[simp] theorem labelValue_columnField (dialect : Dialect) (name : String) (number : Nat)
    (c : Column) (t : FieldType) (l : Label) (k : Nat) :
    (columnField dialect name number c t l k).labelValue = l := by
  cases l <;> rfl

/-! ## Finished drafts -/

/-- The field of a column stands at its position, with its number. -/
def FieldAt (dialect : Dialect) (name : String) (number : Nat) (fs : List Descriptor.Field) (i : Nat)
    (c : Column) : Prop :=
  ∃ t l k, wireType c = .ok t ∧ label dialect c = .ok l ∧
    fs[i]? = some (columnField dialect name number c t l k)

/-- Columns add their fields, in their order. -/
theorem Drafted.added (h : Drafted dialect name number cs d d') : ∃ added,
    d'.fields = d.fields ++ added ∧ added.length = cs.length ∧
      ∀ i c, cs[i]? = some c → FieldAt dialect name (number + i) added i c := by
  induction h with
  | nil number d => exact ⟨[], by simp⟩
  | @cons number c cs d d' t l ht hl _ ih =>
    obtain ⟨added, heq, hlength, hadded⟩ := ih
    rw [put_eq] at heq
    refine ⟨columnField dialect name number c t l d.oneofs.length :: added, by simp [heq],
      by simp [hlength], fun i x hx => ?_⟩
    cases i with
    | zero =>
      obtain rfl : c = x := by simpa using hx
      exact ⟨t, l, _, ht, hl, rfl⟩
    | succ i =>
      obtain ⟨t', l', k', ht', hl', hf⟩ := hadded i x (by simpa using hx)
      exact ⟨t', l', k', ht', hl', by rw [List.getElem?_cons_succ, hf, Nat.add_right_comm, Nat.add_assoc]⟩

/-- Every field that columns add is the field of one of them. -/
theorem Drafted.field (h : Drafted dialect name number cs d d') :
    ∀ f ∈ d'.fields, f ∈ d.fields ∨ ∃ i c t l k, cs[i]? = some c ∧ wireType c = .ok t ∧
      label dialect c = .ok l ∧ f = columnField dialect name (number + i) c t l k := by
  intro f hf
  obtain ⟨added, heq, hlength, hadded⟩ := h.added
  rw [heq, List.mem_append] at hf
  refine hf.imp id fun hf => ?_
  obtain ⟨i, hi, rfl⟩ := List.mem_iff_getElem.mp hf
  have hc := List.getElem?_eq_getElem (hlength ▸ hi)
  obtain ⟨t, l, k, ht, hl, hget⟩ := hadded i _ hc
  rw [List.getElem?_eq_getElem hi] at hget
  exact ⟨i, _, t, l, k, hc, ht, hl, Option.some.inj hget⟩

/-- The draft of a whole scope has one field for each column. -/
theorem Drafted.length_fields (h : Drafted dialect name number cs {} d) :
    d.fields.length = cs.length := by
  obtain ⟨added, heq, hlength, -⟩ := h.added
  rw [heq, List.nil_append, hlength]

theorem Drafted.fieldAt (h : Drafted dialect name number cs {} d) {i : Nat} (hc : cs[i]? = some c) :
    FieldAt dialect name (number + i) d.fields i c := by
  obtain ⟨added, heq, -, hadded⟩ := h.added
  rw [heq, List.nil_append]
  exact hadded i c hc

/-- The choices of a draft belong to its marked fields, one each and in their order. -/
def Draft.Numbered (d : Draft) : Prop :=
  d.fields.filterMap (·.oneofIndex) = (List.range d.oneofs.length).map Int32.ofNat

theorem Drafted.numbered (h : Drafted dialect name number cs d d') (hd : d.Numbered) :
    d'.Numbered := by
  induction h with
  | nil number d => exact hd
  | @cons number c cs d d' t l ht hl _ ih =>
    refine ih ?_
    unfold Draft.Numbered at hd ⊢
    cases hmark : isMarked dialect l t <;>
      simp [put_eq, columnField, hmark, hd, List.range_succ]

/-- A draft needs the files of the STRUCT columns that were put into it. -/
theorem Drafted.mem_dependencies (h : Drafted dialect name number cs d d') {x : String} :
    x ∈ d'.dependencies ↔ x ∈ d.dependencies ∨
      ∃ c ∈ cs, c.isStruct = true ∧ x = fileName (nestedName name c.name) := by
  induction h with
  | nil number d => simp
  | @cons number c cs d d' t l ht hl _ ih =>
    have hput : x ∈ (d.put dialect name number c t l).dependencies ↔
        x ∈ d.dependencies ∨ (c.isStruct = true ∧ x = fileName (nestedName name c.name)) := by
      rw [put_eq, ← eq_message_iff ht]
      by_cases hm : t = .message <;> simp [hm, mem_require]
    rw [ih, hput, or_assoc]
    simp

/-- A draft needs no file twice. -/
theorem Drafted.nodup (h : Drafted dialect name number cs d d') (hd : d.dependencies.Nodup) :
    d'.dependencies.Nodup := by
  induction h with
  | nil number d => exact hd
  | @cons number c cs d d' t l ht hl _ ih =>
    refine ih ?_
    rw [put_eq]
    by_cases hm : t = .message
    · simpa [hm] using nodup_require hd
    · simpa [hm] using hd

end RowStream.Table.Compile
