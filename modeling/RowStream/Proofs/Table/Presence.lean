import Mathlib.Data.List.Nodup
import Mathlib.Data.Option.Basic
import RowStream.Proofs.Table.Field
import RowStream.Proofs.Table.Registered

/-!
# The marks of presence

In the newer dialect a column with one value that is no STRUCT has a field that marks its presence by
a oneof of its own. The oneof has the name of the column after an underscore.

Fields and oneofs of a message share one scope. The name of a oneof is not looked up among the columns,
so it is free only if no column has it already: the names in a message are distinct exactly if the columns
of its scope keep clear of the marks (`Unmarked`).

* `Drafted.oneofs`, `Drafted.paired`: the marks that columns add, one for each marked field.
* `presence_of_files`: the marks of every message of a schema, and when their names are free.
-/

namespace RowStream.Table

open Descriptor (Dialect FieldType Label)

/-- A column with one value that is no STRUCT. -/
def Column.isSingle (c : Column) : Bool := !c.isStruct && Mode.ofNumber? c.mode != some .repeated

/-- The name of the oneof that marks the presence of a field. -/
def mark (field : String) : String := "_" ++ field

theorem mark_injective : Function.Injective mark := fun _ _ h => (String.append_right_inj "_").mp h

namespace Scope

/-- In the scope and in every one below it, no two columns have one name. -/
def Distinct (root : Scope) : Prop :=
  ∀ p t, root.at? p = some t → (t.columns.map (·.name)).Nodup

/-- No column has the name of the mark of another. -/
def Unmarked (s : Scope) : Prop :=
  ∀ c ∈ s.columns, c.isSingle = true → ∀ d ∈ s.columns, d.name ≠ mark c.name

theorem distinct_iff {s : Scope} : s.Distinct ↔ (s.columns.map (·.name)).Nodup ∧
    ∀ c ∈ s.columns, c.isStruct = true → Distinct ⟨Compile.nestedName s.name c.name, c.columns⟩ := by
  constructor
  · refine fun h => ⟨h [] s rfl, fun c hc hstruct p t ht => ?_⟩
    obtain ⟨i, hi⟩ := List.mem_iff_getElem?.mp hc
    refine h (i :: p) t ?_
    rw [at?, sub?_eq_some.mpr ⟨c, hi, hstruct, rfl⟩, Option.bind_some, ht]
  · rintro ⟨hnames, hbelow⟩ p t ht
    cases p with
    | nil => exact Option.some.inj ht ▸ hnames
    | cons i p =>
      obtain ⟨u, hu, ht⟩ := Option.bind_eq_some_iff.mp ht
      obtain ⟨c, hc, hstruct, rfl⟩ := sub?_eq_some.mp hu
      exact hbelow c (List.mem_of_getElem? hc) hstruct p t ht

theorem distinct_of_flat {s : Scope} (hnames : (s.columns.map (·.name)).Nodup)
    (hflat : ∀ c ∈ s.columns, c.isStruct = false) : s.Distinct :=
  distinct_iff.mpr ⟨hnames, fun c hc hstruct => absurd hstruct (by simp [hflat c hc])⟩

end Scope

/-! ## Marks -/

/-- A field that may be left out and is no message. -/
def isLone (f : Descriptor.Field) : Bool := f.labelValue == .optional && f.typeValue != .message

/-- The fields of a message mark their presence: those that may be left out and are no messages, one oneof
each and in their order, and no others. -/
structure Presence (m : Descriptor.Message) : Prop where
  fields : (m.fields.map (·.name)).Nodup
  oneofs : (m.oneofs.map (·.name)).Nodup
  marked : ∀ f ∈ m.fields, isLone f = true → f.proto3Optional = some true
  /-- The index leads from each of these fields to its own oneof, and all oneofs are led to. -/
  paired : (m.fields.filter isLone).map (fun f => (f.oneofIndex, f.name.map mark)) =
    m.oneofs.zipIdx.map fun o => (some (Int32.ofNat o.2), o.1.name)
  unmarked : ∀ f ∈ m.fields, isLone f = false → f.proto3Optional = none ∧ f.oneofIndex = none

namespace Compile

variable {dialect : Dialect} {name : String} {number : Nat} {c : Column} {cs : List Column}
  {d d' : Draft} {t : FieldType} {l : Label}

theorem isLone_columnField (dialect : Dialect) (name : String) (number : Nat) (c : Column) (t : FieldType)
    (l : Label) (k : Nat) :
    isLone (columnField dialect name number c t l k) = isMarked .proto3 l t := by
  cases l <;> simp [isLone, isMarked, bne, beq_eq_decide]

/-- Exactly the single columns are marked. -/
theorem isMarked_eq_isSingle (ht : wireType c = .ok t) (hl : label .proto3 c = .ok l) :
    isMarked .proto3 l t = c.isSingle := by
  obtain ⟨m, hm, rfl⟩ := mode_of_label hl
  rw [Bool.eq_iff_iff, isMarked_iff, ne_eq, eq_message_iff ht]
  cases m <;> simp [Column.isSingle, hm, Mode.label]

/-! ## Drafts -/

theorem Drafted.names (h : Drafted dialect name number cs d d') :
    d'.fields.map (·.name) = d.fields.map (·.name) ++ cs.map (some ·.name) := by
  induction h with
  | nil number d => simp
  | cons _ _ _ ih => simp [ih, put_eq, columnField]

/-- Each single column adds its mark. -/
theorem Drafted.oneofs (h : Drafted .proto3 name number cs d d') : d'.oneofs.map (·.name) =
    d.oneofs.map (·.name) ++ (cs.filter Column.isSingle).map (some <| mark ·.name) := by
  induction h with
  | nil number d => simp
  | @cons number c cs d d' t l ht hl _ ih =>
    rw [ih, put_eq, List.filter_cons, isMarked_eq_isSingle ht hl]
    cases c.isSingle <;> simp [mark]

/-- The fields of a draft that may be left out lead to its oneofs. -/
def Draft.Paired (d : Draft) : Prop :=
  (d.fields.filter isLone).map (fun f => (f.oneofIndex, f.name.map mark)) =
    d.oneofs.zipIdx.map fun o => (some (Int32.ofNat o.2), o.1.name)

theorem Drafted.paired (h : Drafted .proto3 name number cs d d') (hd : d.Paired) : d'.Paired := by
  induction h with
  | nil number d => exact hd
  | @cons number c cs d d' t l ht hl _ ih =>
    refine ih ?_
    unfold Draft.Paired at hd ⊢
    rw [put_eq, List.filter_append, List.map_append, hd, List.filter_singleton, isLone_columnField]
    cases hmark : isMarked .proto3 l t
    · simp
    · simp [columnField, hmark, mark, List.zipIdx_append]

/-- **The fields of a scope mark their presence**, if no two columns have one name. -/
theorem Drafted.presence {s : Scope} (h : Drafted .proto3 s.name 1 s.columns {} d)
    (hdistinct : (s.columns.map (·.name)).Nodup) : Presence (d.message s.name) := by
  have hfield {f : Descriptor.Field} (hf : f ∈ d.fields) :
      f.proto3Optional = (if isLone f then some true else none) ∧
        (isLone f = false → f.oneofIndex = none) := by
    rcases h.field f hf with hnil | ⟨i, c, t, l, k, -, -, -, rfl⟩
    · exact absurd hnil List.not_mem_nil
    · rw [isLone_columnField]
      exact ⟨rfl, fun hmark => by simp [columnField, hmark]⟩
  refine ⟨?_, ?_, fun f hf hlone => ?_, h.paired rfl, fun f hf hlone => ⟨?_, (hfield hf).2 hlone⟩⟩
  · change (d.fields.map (·.name)).Nodup
    rw [h.names]
    simpa [Function.comp_def] using hdistinct.map (Option.some_injective _)
  · change (d.oneofs.map (·.name)).Nodup
    rw [h.oneofs]
    have hsub := (List.filter_sublist (p := Column.isSingle) (l := s.columns)).map (·.name)
    simpa [Function.comp_def] using
      (hdistinct.sublist hsub).map ((Option.some_injective _).comp mark_injective)
  · simpa [hlone] using (hfield hf).1
  · simpa [hlone] using (hfield hf).1

/-- The names of fields and of oneofs meet where a column has the name of a mark. -/
theorem Drafted.disjoint_iff {s : Scope} (h : Drafted .proto3 s.name 1 s.columns {} d) :
    List.Disjoint (d.fields.map (·.name)) (d.oneofs.map (·.name)) ↔ s.Unmarked := by
  rw [h.names, h.oneofs]
  simp only [List.map_nil, List.nil_append, List.disjoint_left, List.forall_mem_map]
  constructor
  · intro hfree c hc hsingle d hd heq
    refine hfree d hd (List.mem_map.mpr ⟨c, List.mem_filter.mpr ⟨hc, hsingle⟩, ?_⟩)
    rw [heq]
  · intro hfree x hx hmem
    obtain ⟨c, hc, heq⟩ := List.mem_map.mp hmem
    obtain ⟨hc, hsingle⟩ := List.mem_filter.mp hc
    exact hfree c hc hsingle x hx (Option.some.inj heq).symm

end Compile

/-! ## Schemas -/

/-- **Every message of a schema marks the presence of its fields**, and its names are distinct exactly if
no column of its scope has the name of a mark. -/
theorem presence_of_files {s : Schema} {name : String} {fs : List Descriptor.File}
    (h : Compile.files s name .proto3 = .ok fs) (hdistinct : (Scope.mk name s.columns).Distinct) :
    ∀ f ∈ fs, ∀ m ∈ f.messages, Presence m ∧ ∃ p t, (Scope.mk name s.columns).at? p = some t ∧
      Describes .proto3 t m ∧
      ((m.fields.map (·.name) ++ m.oneofs.map (·.name)).Nodup ↔ t.Unmarked) := by
  obtain ⟨es, rfl, hr, -⟩ := Compile.registered_of_files h
  intro f hf m hm
  obtain ⟨e, he, rfl⟩ := List.mem_map.mp hf
  obtain rfl : m = e.message := List.mem_singleton.mp hm
  have hdrafted := hr.drafted_of_mem he
  have hpresence : Presence e.message :=
    hdrafted.presence (hdistinct e.path e.scope (hr.located_of_mem he))
  refine ⟨hpresence, e.path, e.scope, hr.located_of_mem he, hr.describes he, ?_⟩
  rw [List.nodup_append', ← hdrafted.disjoint_iff]
  exact ⟨fun hnodup => hnodup.2.2, fun hfree => ⟨hpresence.fields, hpresence.oneofs, hfree⟩⟩

/-- A table with a STRUCT column: its own field leaves no mark, and the marks of the others are free. -/
theorem presence_nested :
    let x : Column := { name := "x", type := 2 }
    let y : Column := { name := "y", type := 1, mode := 3 }
    let s : Schema := ⟨[x, { name := "a", type := 4, columns := [y, x] }, y]⟩
    ∃ fs, Compile.files s "root" .proto3 = .ok fs ∧
      fs.map (fun f => f.messages.map fun m => m.oneofs.map (·.name)) = [[[some "_x"]], [[some "_x"]]] ∧
      ∀ f ∈ fs, ∀ m ∈ f.messages, Presence m := by
  intro x y s
  have hok : Compile.files s "root" .proto3 = .ok _ := rfl
  have hdistinct : (Scope.mk "root" s.columns).Distinct := by
    refine Scope.distinct_iff.mpr ⟨by decide, List.forall_mem_cons.mpr ⟨fun h => absurd h (by decide),
      List.forall_mem_cons.mpr ⟨fun _ => ?_, List.forall_mem_singleton.mpr fun h => absurd h (by decide)⟩⟩⟩
    exact Scope.distinct_of_flat (by decide) (by decide)
  exact ⟨_, hok, rfl, fun f hf m hm => (presence_of_files hok hdistinct f hf m hm).1⟩

/-- A column that has the name of another one's mark: the field and the oneof are called the same. -/
theorem mark_taken :
    let s : Schema := ⟨[{ name := "a", type := 2 }, { name := "_a", type := 2, mode := 3 }]⟩
    (Scope.mk "root" s.columns).Distinct ∧ ∃ fs, Compile.files s "root" .proto3 = .ok fs ∧
      ∃ f ∈ fs, ∃ m ∈ f.messages, ¬ (m.fields.map (·.name) ++ m.oneofs.map (·.name)).Nodup := by
  intro s
  exact ⟨Scope.distinct_of_flat (by decide) (by decide), _, rfl, _, List.mem_singleton_self _, _,
    List.mem_singleton_self _, by decide⟩

end RowStream.Table
