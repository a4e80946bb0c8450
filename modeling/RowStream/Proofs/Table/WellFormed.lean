import Mathlib.Data.List.Nodup
import Mathlib.Logic.Relation
import RowStream.Proofs.Table.Field
import RowStream.Proofs.Table.Registered

/-!
# Well-formed sets of files

The files of a schema make a set that any reader of descriptors takes: each is named after its one
message and stands after the files that it depends on, it depends on exactly the files of the messages
that it refers to, and all of them are needed for the table (`WellFormed`).

Two facts carry this, also where STRUCT columns share a joined name. Names get longer along references,
so that no message comes back to itself. And a file is added only on the way to a column of a scope whose
own file follows, so that the table leads to all of them.

* `reached_of_files`: from the file of the table one gets to every other.
* `wellFormed_of_files`: the files of a schema are well formed.
-/

namespace RowStream.Table

open Descriptor (Dialect)

/-- A field of the message has the message with a name for its type. -/
def RefersTo (m : Descriptor.Message) (name : String) : Prop :=
  ∃ f ∈ m.fields, f.typeName = some ("." ++ name)

/-- The files have a message of the first name that refers to the second. -/
def Refer (fs : List Descriptor.File) (a b : String) : Prop :=
  ∃ f ∈ fs, ∃ m ∈ f.messages, m.name = some a ∧ RefersTo m b

/-- There is a file of the first name that depends on the second. -/
def Needs (fs : List Descriptor.File) (a b : String) : Prop :=
  ∃ f ∈ fs, f.name = some a ∧ b ∈ f.dependencies

/-- The files are a well-formed set with the message of the scope at its end. -/
structure WellFormed (fs : List Descriptor.File) (scope : String) : Prop where
  /-- No two files have one name. -/
  names : (fs.map (·.name)).Nodup
  /-- A file holds one message and is named after it. -/
  single : ∀ f ∈ fs, ∃ m n, f.messages = [m] ∧ m.name = some n ∧
    f.name = some (Compile.fileName n)
  /-- What a file depends on stands before it. -/
  earlier : ∀ before f after, fs = before ++ f :: after → ∀ d ∈ f.dependencies,
    ∃ g ∈ before, g.name = some d
  /-- A file depends on no file twice. -/
  once : ∀ f ∈ fs, f.dependencies.Nodup
  /-- A file depends on the files of the messages that it refers to, and on no others. -/
  needed : ∀ f ∈ fs, ∀ m ∈ f.messages, ∀ d,
    d ∈ f.dependencies ↔ ∃ n, RefersTo m n ∧ d = Compile.fileName n
  /-- A field of a message type refers to a message of the set, and no other field refers to one. -/
  typed : ∀ f ∈ fs, ∀ m ∈ f.messages, ∀ field ∈ m.fields,
    (field.typeValue = .message → ∃ g ∈ fs, ∃ o ∈ g.messages, ∃ n, o.name = some n ∧
      field.typeName = some ("." ++ n)) ∧
    (field.typeValue ≠ .message → field.typeName = none)
  /-- The last file is that of the scope. -/
  last : fs.getLast?.map (·.name) = some (some (Compile.fileName scope))
  /-- The file of the scope leads to every other. -/
  reached : ∀ f ∈ fs, ∃ a, f.name = some a ∧
    Relation.ReflTransGen (Needs fs) (Compile.fileName scope) a
  /-- No message refers to itself, directly or through others. -/
  acyclic : ∀ a, ¬ Relation.TransGen (Refer fs) a a

namespace Compile

variable {dialect : Dialect} {name : String} {number : Nat} {c : Column} {cs : List Column}
  {d d' : Draft} {fs fs' : List Descriptor.File}

/-! ## From the table to every file -/

/-- What compiling columns into a draft does to the files: those that are new have names longer than
`name`, and what the draft depends on leads to them. -/
structure Grafted (name : String) (d' : Draft) (fs fs' : List Descriptor.File) : Prop where
  kept : fs ⊆ fs'
  new : ∀ f ∈ fs', f ∈ fs ∨ ∃ n, f.name = some (fileName n) ∧ name.length < n.length ∧
    ∃ x ∈ d'.dependencies, Relation.ReflTransGen (Needs fs') x (fileName n)

/-- More files do not cut a way off. -/
theorem reaches_mono (h : fs ⊆ fs') {a b : String}
    (hreach : Relation.ReflTransGen (Needs fs) a b) : Relation.ReflTransGen (Needs fs') a b :=
  hreach.lift id fun _ _ ⟨f, hf, hname, hb⟩ => ⟨f, h hf, hname, hb⟩

/-- Nothing below a scope takes its name, because the names there are longer. -/
theorem Grafted.free (h : Grafted name d' fs fs') (hfree : ¬ isTaken fs (fileName name) = true) :
    ¬ isTaken fs' (fileName name) = true := by
  intro htaken
  obtain ⟨f, hf, hname⟩ := List.any_eq_true.mp htaken
  rcases h.new f hf with hold | ⟨n, hn, hlt, -⟩
  · exact hfree (List.any_eq_true.mpr ⟨f, hold, hname⟩)
  · have heq : n = name := fileName_inj.mp (by simpa [hn] using hname)
    rw [heq] at hlt
    exact Nat.lt_irrefl _ hlt

/-- Adding a scope adds its file, and files that its file leads to. -/
theorem reached_nested {s : Scope} {fs fs' : List Descriptor.File}
    (hcols : ∀ {number : Nat} {d d' : Draft} {fs fs' : List Descriptor.File},
      fields dialect s.name number s.columns d fs = .ok (d', fs') → Grafted s.name d' fs fs')
    (h : nested dialect s fs = .ok fs') : fs ⊆ fs' ∧ ∀ f ∈ fs', f ∈ fs ∨
      ∃ n, f.name = some (fileName n) ∧ s.name.length ≤ n.length ∧
        Relation.ReflTransGen (Needs fs') (fileName s.name) (fileName n) := by
  unfold nested at h
  split at h
  · obtain rfl := Except.ok.inj h
    exact ⟨List.Subset.refl fs, fun f hf => .inl hf⟩
  · rename_i hfree
    obtain ⟨d, fs₁, hfields, rfl⟩ := scope_eq h
    have hgraft := hcols hfields
    unfold addFile
    rw [if_neg (hgraft.free hfree)]
    refine ⟨List.Subset.trans hgraft.kept (List.subset_append_left _ _), fun f hf => ?_⟩
    rcases List.mem_append.mp hf with hf | hf
    · rcases hgraft.new f hf with hold | ⟨n, hn, hlt, x, hx, hreach⟩
      · exact .inl hold
      · refine .inr ⟨n, hn, Nat.le_of_lt hlt, .head ?_ (reaches_mono (List.subset_append_left _ _) hreach)⟩
        exact ⟨_, List.mem_append_right _ (List.mem_singleton_self _), rfl, hx⟩
    · obtain rfl := List.mem_singleton.mp hf
      exact .inr ⟨s.name, rfl, Nat.le_refl _, .refl⟩

/-- **Columns graft the files below them** on what their draft depends on. -/
theorem grafted_fields (dialect : Dialect) (cs : List Column) {name : String} {number : Nat}
    {d d' : Draft} {fs fs' : List Descriptor.File}
    (h : fields dialect name number cs d fs = .ok (d', fs')) : Grafted name d' fs fs' := by
  induction cs using Column.list_induct generalizing name number d d' fs fs' with
  | nil =>
    rw [fields] at h
    obtain ⟨rfl, rfl⟩ : d = d' ∧ fs = fs' := by simpa using h
    exact ⟨List.Subset.refl fs, fun f hf => .inl hf⟩
  | cons c cs ihc ih =>
    obtain ⟨t, l, fs₁, ht, hl, hrefer, hrest⟩ := fields_cons h
    have hgraft := ih hrest
    unfold refer at hrefer
    split at hrefer
    · rename_i hm
      obtain ⟨hkept, hnew⟩ := reached_nested (s := ⟨nestedName name c.name, c.columns⟩)
        (fun h => ihc h) hrefer
      refine ⟨List.Subset.trans hkept hgraft.kept, fun f hf => ?_⟩
      rcases hgraft.new f hf with hmid | hnew'
      · rcases hnew f hmid with hold | ⟨n, hn, hle, hreach⟩
        · exact .inl hold
        · refine .inr ⟨n, hn, ?_, fileName (nestedName name c.name), ?_,
            reaches_mono hgraft.kept hreach⟩
          · have hscore : "_".length = 1 := rfl
            simp only [nestedName, String.length_append] at hle
            omega
          · refine (drafted_of_fields hrest).mem_dependencies.mpr (.inl ?_)
            rw [put_eq, if_pos hm]
            exact mem_require.mpr (.inr rfl)
      · exact .inr hnew'
    · obtain rfl := Except.ok.inj hrefer
      exact ⟨hgraft.kept, hgraft.new⟩

/-- **The file of the table leads to every file of a schema.** -/
theorem reached_of_files {s : Schema} (h : files s name dialect = .ok fs) :
    ∀ f ∈ fs, ∃ a, f.name = some a ∧ Relation.ReflTransGen (Needs fs) (fileName name) a := by
  intro f hf
  have hnested : nested dialect ⟨name, s.columns⟩ [] = .ok fs := h
  obtain ⟨-, hnew⟩ := reached_nested (fun h => grafted_fields dialect s.columns h) hnested
  rcases hnew f hf with hold | ⟨n, hn, -, hreach⟩
  · exact absurd hold List.not_mem_nil
  · exact ⟨fileName n, hn, hreach⟩

/-- The file of the table is the last one. -/
theorem last_of_files {s : Schema} (h : files s name dialect = .ok fs) :
    fs.getLast?.map (·.name) = some (some (fileName name)) := by
  obtain ⟨d, fs₁, hfields, rfl⟩ := scope_eq (s := ⟨name, s.columns⟩) h
  have hfree := (grafted_fields dialect s.columns hfields).free (by simp [isTaken])
  unfold addFile
  rw [if_neg hfree, List.getLast?_concat, Option.map_some]

/-! ## What a file refers to -/

theorem dot_inj {a b : String} : "." ++ a = "." ++ b ↔ a = b := String.append_right_inj "."

variable {root : Scope} {es : List Entry} {e : Entry}

/-- The message of a scope refers to the messages of its STRUCT columns. -/
theorem Registered.refersTo_iff (h : Registered dialect root es) (he : e ∈ es) {n : String} :
    RefersTo e.message n ↔
      ∃ c ∈ e.scope.columns, c.isStruct = true ∧ n = nestedName e.scope.name c.name := by
  have hdrafted := h.drafted_of_mem he
  constructor
  · rintro ⟨f, hf, htype⟩
    rcases hdrafted.field f hf with hf | ⟨i, c, t, l, k, hc, ht, hl, rfl⟩
    · exact absurd hf List.not_mem_nil
    · by_cases hm : t = .message
      · refine ⟨c, List.mem_of_getElem? hc, (eq_message_iff ht).mp hm, ?_⟩
        have hname : "." ++ nestedName e.scope.name c.name = "." ++ n := by
          simpa [columnField, hm] using htype
        exact (dot_inj.mp hname).symm
      · simp [columnField, hm] at htype
  · rintro ⟨c, hc, hstruct, rfl⟩
    obtain ⟨i, hi⟩ := List.getElem?_of_mem hc
    have hdesc := h.describes he
    have hlt : i < e.message.fields.length := by
      rw [hdesc.length]
      exact (List.getElem?_eq_some_iff.mp hi).1
    have hf := List.getElem?_eq_getElem hlt
    exact ⟨_, List.mem_of_getElem? hf, (hdesc.column i c _ hi hf).reference hstruct⟩

/-- A reference leads to a longer name. -/
theorem Registered.length_lt_of_refer (h : Registered dialect root es) {a b : String}
    (hab : Refer (es.map (Entry.file dialect)) a b) : a.length < b.length := by
  obtain ⟨f, hf, m, hm, hname, href⟩ := hab
  obtain ⟨e, he, rfl⟩ := List.mem_map.mp hf
  obtain rfl := List.mem_singleton.mp hm
  obtain ⟨c, hc, hstruct, rfl⟩ := (h.refersTo_iff he).mp href
  obtain rfl : e.scope.name = a := Option.some.inj hname
  have hscore : "_".length = 1 := rfl
  simp only [nestedName, String.length_append]
  omega

end Compile

/-! ## The files of a schema -/

/-- **The files of a schema are a well-formed set.** -/
theorem wellFormed_of_files {s : Schema} {name : String} {dialect : Dialect}
    {fs : List Descriptor.File} (h : Compile.files s name dialect = .ok fs) : WellFormed fs name := by
  have hreached := Compile.reached_of_files h
  have hlast := Compile.last_of_files h
  obtain ⟨es, rfl, hr, -⟩ := Compile.registered_of_files h
  have hfile {f : Descriptor.File} (hf : f ∈ es.map (Compile.Entry.file dialect)) :
      ∃ e ∈ es, f = e.file dialect := by
    obtain ⟨e, he, rfl⟩ := List.mem_map.mp hf
    exact ⟨e, he, rfl⟩
  constructor
  case names =>
    rw [List.map_map]
    refine List.Nodup.map_on (fun e he o ho heq => ?_) hr.nodup
    exact hr.eq_of_name he ho (Compile.fileName_inj.mp (Option.some.inj heq))
  case single =>
    intro f hf
    obtain ⟨e, he, rfl⟩ := hfile hf
    exact ⟨e.message, e.scope.name, rfl, rfl, rfl⟩
  case earlier =>
    intro before f after heq d hd
    obtain ⟨es₁, rest, rfl, rfl, hrest⟩ := List.map_eq_append_iff.mp heq
    obtain ⟨e, es₂, rfl, rfl, -⟩ := List.map_eq_cons_iff.mp hrest
    have hdrafted := hr.drafted_of_mem (List.mem_append_right es₁ List.mem_cons_self)
    rcases hdrafted.mem_dependencies.mp hd with hd | ⟨c, hc, hstruct, rfl⟩
    · exact absurd hd List.not_mem_nil
    · obtain ⟨i, hi⟩ := List.getElem?_of_mem hc
      obtain ⟨o, ho, hname⟩ := hr.older (Scope.sub?_eq_some.mpr ⟨c, hi, hstruct, rfl⟩)
      exact ⟨o.file dialect, List.mem_map_of_mem ho, congrArg (some ∘ Compile.fileName) hname⟩
  case once =>
    intro f hf
    obtain ⟨e, he, rfl⟩ := hfile hf
    exact (hr.drafted_of_mem he).nodup List.nodup_nil
  case needed =>
    intro f hf m hm d
    obtain ⟨e, he, rfl⟩ := hfile hf
    obtain rfl := List.mem_singleton.mp hm
    have hdeps := (hr.drafted_of_mem he).mem_dependencies (x := d)
    refine hdeps.trans ⟨?_, ?_⟩
    · rintro (hd | ⟨c, hc, hstruct, rfl⟩)
      · exact absurd hd List.not_mem_nil
      · exact ⟨_, (hr.refersTo_iff he).mpr ⟨c, hc, hstruct, rfl⟩, rfl⟩
    · rintro ⟨n, hn, rfl⟩
      obtain ⟨c, hc, hstruct, rfl⟩ := (hr.refersTo_iff he).mp hn
      exact .inr ⟨c, hc, hstruct, rfl⟩
  case typed =>
    intro f hf m hm field hfield
    obtain ⟨e, he, rfl⟩ := hfile hf
    obtain rfl := List.mem_singleton.mp hm
    rcases (hr.drafted_of_mem he).field field hfield with hnil | ⟨i, c, t, l, k, hc, ht, hl, rfl⟩
    · exact absurd hnil List.not_mem_nil
    · rw [Compile.typeValue_columnField]
      refine ⟨fun hm => ?_, fun hm => if_neg hm⟩
      have hstruct := (Compile.eq_message_iff ht).mp hm
      obtain ⟨o, ho, hname, -⟩ :=
        hr.refers_of_mem he (Scope.sub?_eq_some.mpr ⟨c, hc, hstruct, rfl⟩)
      refine ⟨o.file dialect, List.mem_map_of_mem ho, o.message, List.mem_singleton_self _,
        o.scope.name, rfl, ?_⟩
      rw [hname]
      exact if_pos hm
  case last => exact hlast
  case reached => exact hreached
  case acyclic =>
    intro a hcycle
    have hlt : ∀ b, Relation.TransGen (Refer (es.map (Compile.Entry.file dialect))) a b →
        a.length < b.length := by
      intro b hab
      induction hab with
      | single hstep => exact hr.length_lt_of_refer hstep
      | tail _ hstep ih => exact Nat.lt_trans ih (hr.length_lt_of_refer hstep)
    exact Nat.lt_irrefl _ (hlt a hcycle)

/-- Two STRUCT columns that share a joined name: one file for both. -/
theorem wellFormed_of_shared_name :
    let x : Column := { name := "x", type := 2 }
    let b : Column := { name := "b", type := 4, columns := [x] }
    let s : Schema := ⟨[{ name := "a", type := 4, columns := [b] },
      { name := "a_b", type := 4, mode := 3, columns := [x] }]⟩
    ∃ fs, Compile.files s "root" .proto3 = .ok fs ∧
      fs.map (·.name) = [some "root_a_b.proto", some "root_a.proto", some "root.proto"] ∧
      WellFormed fs "root" := by
  intro x b s
  have hok : Compile.files s "root" .proto3 = .ok _ := rfl
  exact ⟨_, hok, by decide, wellFormed_of_files hok⟩

end RowStream.Table
