import RowStream.Descriptor.Layout
import RowStream.Proofs.Keyed
import RowStream.Proofs.Pool.Linked
import RowStream.Proofs.Table.Resolved
import RowStream.Proofs.Table.WellFormed

/-!
# The layout of a table

The layout of the files of a schema is read off their declarations, one name after the other, and the
pool that rows are written with resolves the same files by following references. Both say the same.
The layout has exactly the messages that the table leads to, and of each its fields: their names and
numbers, how often they occur, and what their values are (`LaysOut`).

Names carry this. Each file holds one message with a name of its own, so nothing in the layout is put
over anything else. And no name starts with a dot, so dropping the dots of a reference leaves the name
that the pool finds.

* `ofFiles_entries`: the layout of registered scopes.
* `layout_of_ofTable`: the layout of a table and its pool.
-/

namespace RowStream

/-! ## Messages that a shape leads to -/

/-- References lead from the message of the shape to the message. -/
def Shape.Reaches (s : Shape) (m : Pool.Message) : Prop :=
  Relation.ReflTransGen s.pool.Refers s.message m

namespace Table

open Descriptor (Dialect FieldType Label Layout)

/-- The entry says of a field of the pool its number, its rule and its type: the name of a scalar, or
the full name of a message, which the layout has too. -/
structure SaysField (l : Layout) (p : Pool) (f : Pool.Field) (x : Layout.Field) : Prop where
  number : x.number.toInt = f.number
  rule : x.rule = f.label
  type : (∃ s, f.kind = .scalar s ∧ x.type = s.name) ∨
    ∃ o, f.kind = .message o.fullName ∧ p.find o.fullName = some o ∧ x.type = o.fullName ∧
      (Keyed.get? l o.fullName).isSome

/-- The layout has the fields of a message, each under its name, and no others. -/
structure LaysOut (l : Layout) (p : Pool) (m : Pool.Message) (xs : Descriptor.FieldLayouts) :
    Prop where
  entry : Keyed.get? l m.fullName = some xs
  names : (xs.map (·.1)).Perm (m.fields.map (·.name))
  field : ∀ f ∈ m.fields, ∃ x, Keyed.get? xs f.name = some x ∧ SaysField l p f x

namespace Compile

variable {dialect : Dialect} {root : Scope} {es : List Entry} {e : Entry} {shape : Shape}

/-! ## Names without a dot in front -/

/-- The name of a scope starts like that of the scope around it, or with an underscore. -/
theorem Scope.undotted_of_at? {s t : Scope} {p : List Nat} (h : s.at? p = some t)
    (hs : s.name.toList.head? ≠ some '.') : t.name.toList.head? ≠ some '.' := by
  induction p generalizing s with
  | nil => exact Option.some.inj h ▸ hs
  | cons i p ih =>
    obtain ⟨u, hu, ht⟩ := Option.bind_eq_some_iff.mp h
    obtain ⟨c, -, -, rfl⟩ := Scope.sub?_eq_some.mp hu
    refine ih ht ?_
    simp only [nestedName, String.toList_append]
    cases hn : s.name.toList with
    | nil => simp
    | cons a as => simpa [hn] using hs

theorem Resolved.dropDots (h : Resolved dialect root es shape) (he : e ∈ es) :
    Text.dropDots ("." ++ e.scope.name) = e.scope.name :=
  Text.dropDots_dot (Scope.undotted_of_at? (h.registered.located_of_mem he)
    (Text.dropDot_eq_self.mp h.undotted))

/-! ## Entries -/

/-- **The layout of registered scopes** has the fields of their drafts. -/
theorem ofFiles_entries (es : List Entry) : Layout.ofFiles (es.map (Entry.file dialect)) =
    Keyed.ofList (es.map fun e => (e.scope.name, Layout.ofFields e.draft.fields)) := by
  unfold Layout.ofFiles Keyed.ofList
  rw [List.foldl_map, List.foldl_map]
  rfl

theorem Registered.names_nodup (h : Registered dialect root es) :
    (es.map (·.scope.name)).Nodup :=
  List.Nodup.map_on (fun _ he _ ho hname => h.eq_of_name he ho hname) h.nodup

/-- The layout has one entry for each registered scope. -/
theorem Registered.layout_perm (h : Registered dialect root es) :
    (Layout.ofFiles (es.map (Entry.file dialect))).Perm
      (es.map fun e => (e.scope.name, Layout.ofFields e.draft.fields)) := by
  rw [ofFiles_entries]
  refine Keyed.ofList_perm ?_
  rw [List.map_map]
  exact h.names_nodup

theorem Registered.entry (h : Registered dialect root es) (he : e ∈ es) :
    Keyed.get? (Layout.ofFiles (es.map (Entry.file dialect))) e.scope.name =
      some (Layout.ofFields e.draft.fields) := by
  have hordered : Keyed.Ordered (Layout.ofFiles (es.map (Entry.file dialect))) := by
    rw [ofFiles_entries]
    exact Keyed.ordered_ofList _
  exact hordered.get?_of_mem (h.layout_perm.mem_iff.mpr (List.mem_map_of_mem he))

namespace Resolved

/-- The fields of a message have names of their own. -/
theorem names_nodup (h : Resolved dialect root es shape) (he : e ∈ es) :
    ((e.resolved dialect).fields.map (·.name)).Nodup := by
  refine List.pairwise_map.mpr ((h.distinct he).imp_of_mem fun {f g} hf hg hne hname => hne.2 ?_)
  obtain ⟨_, _, -, hof⟩ := (h.messageOf he).of_mem hf
  obtain ⟨_, _, -, hog⟩ := (h.messageOf he).of_mem hg
  rw [hof.jsonName, hog.jsonName, hname]

/-- The fields of the layout are those of the message. -/
theorem fields_perm (h : Resolved dialect root es shape) (he : e ∈ es) :
    (Layout.ofFields e.draft.fields).Perm
      (e.draft.fields.map fun f => (f.nameText, Layout.ofField f)) := by
  refine Keyed.ofList_perm ?_
  have hnodup := h.names_nodup he
  rw [h.registered.resolved_fields he (h.messageOf he).bounded, List.map_map] at hnodup
  rw [List.map_map]
  exact hnodup

/-- A field of the layout says what the field of the message says. -/
theorem saysField (h : Resolved dialect root es shape) (he : e ∈ es) {i : Nat} {c : Column}
    (hc : e.scope.columns[i]? = some c) {t : FieldType} (ht : wireType c = .ok t) {l : Label}
    (hl : label dialect c = .ok l) (k : Nat) :
    let f := columnField dialect e.scope.name (i + 1) c t l k
    SaysField (Layout.ofFiles (es.map (Entry.file dialect))) shape.pool
      (Pool.plainField dialect f) (Layout.ofField f) := by
  intro f
  have hlt := (List.getElem?_eq_some_iff.mp hc).1
  have hbounded := (h.messageOf he).bounded
  have hof : FieldOf dialect e.scope.name (i + 1) c (Pool.plainField dialect f) :=
    fieldOf_plainField ht hl (by omega)
  constructor
  case number =>
    rw [hof.number]
    exact Int32.toInt_ofNat_of_lt (by omega)
  case rule => rfl
  case type =>
    rcases hof.kind with ⟨s, -, hs, hkind⟩ | ⟨hstruct, hkind⟩
    · obtain rfl : t = .scalar s := Except.ok.inj (ht.symm.trans hs)
      refine .inl ⟨s, hkind, ?_⟩
      simp only [Layout.ofField, f, typeValue_columnField]
    · obtain rfl := (eq_message_iff ht).mpr hstruct
      obtain ⟨o, ho, hname⟩ := h.refers he (List.mem_of_getElem? hc) hstruct
      have hfull : (o.resolved dialect).fullName = o.scope.name := fullName_message o
      refine .inr ⟨o.resolved dialect, ?_, ?_, ?_, ?_⟩
      · rw [hkind, hfull, hname]
      · rw [hfull]
        exact h.find_of_mem ho
      · rw [hfull, ← h.dropDots ho, hname]
        simp only [Layout.ofField, f, typeValue_columnField]
        rfl
      · rw [hfull, h.registered.entry ho]
        rfl

/-- The layout has the message of a registered scope. -/
theorem laysOut (h : Resolved dialect root es shape) (he : e ∈ es) :
    LaysOut (Layout.ofFiles (es.map (Entry.file dialect))) shape.pool (e.resolved dialect)
      (Layout.ofFields e.draft.fields) := by
  have hperm := h.fields_perm he
  have hfields := h.registered.resolved_fields he (h.messageOf he).bounded
  constructor
  case entry =>
    rw [show (e.resolved dialect).fullName = e.scope.name from fullName_message e]
    exact h.registered.entry he
  case names =>
    have hnames := hperm.map (·.1)
    rw [List.map_map] at hnames
    rw [hfields, List.map_map]
    exact hnames
  case field =>
    intro f hf
    rw [hfields] at hf
    obtain ⟨g, hg, rfl⟩ := List.mem_map.mp hf
    obtain hnil | ⟨i, c, t, l, k, hc, ht, hl, rfl⟩ := (h.registered.drafted_of_mem he).field g hg
    · exact absurd hnil List.not_mem_nil
    refine ⟨_, (Keyed.ordered_ofList _).get?_of_mem (hperm.mem_iff.mpr (List.mem_map_of_mem hg)), ?_⟩
    rw [Nat.add_comm 1 i]
    exact h.saysField he hc ht hl k

/-! ## What the table leads to -/

/-- A file that another needs has a message that the other's refers to. -/
theorem refers_of_needs (h : Resolved dialect root es shape) (he : e ∈ es) {a : String}
    (ha : Needs (es.map (Entry.file dialect)) (fileName e.scope.name) a) :
    ∃ o ∈ es, fileName o.scope.name = a ∧
      shape.pool.Refers (e.resolved dialect) (o.resolved dialect) := by
  obtain ⟨f, hf, hname, hdep⟩ := ha
  obtain ⟨e', he', rfl⟩ := List.mem_map.mp hf
  obtain rfl := h.registered.eq_of_name he' he (fileName_inj.mp (Option.some.inj hname))
  obtain hnil | ⟨c, hc, hstruct, rfl⟩ :=
    (h.registered.drafted_of_mem he).mem_dependencies.mp hdep
  · exact absurd hnil List.not_mem_nil
  obtain ⟨o, ho, hjoined⟩ := h.refers he hc hstruct
  obtain ⟨f, hf, hkind⟩ := h.exists_field he hc hstruct
  have hfull : (o.resolved dialect).fullName = o.scope.name := fullName_message o
  refine ⟨o, ho, by rw [hjoined], f, hf, ?_, ?_⟩
  · rw [hkind, hfull, hjoined]
    rfl
  · rw [hfull]
    exact h.find_of_mem ho

/-- **The table leads to the message of every registered scope.** -/
theorem reaches (h : Resolved dialect root es shape) {s : Schema}
    (hfiles : files s root.name dialect = .ok (es.map (Entry.file dialect))) (he : e ∈ es) :
    shape.Reaches (e.resolved dialect) := by
  have hlead {a : String}
      (ha : Relation.ReflTransGen (Needs (es.map (Entry.file dialect))) (fileName root.name) a) :
      ∃ o ∈ es, fileName o.scope.name = a ∧ shape.Reaches (o.resolved dialect) := by
    induction ha with
    | refl =>
      obtain ⟨o, ho, rfl, hmessage⟩ := h.top
      exact ⟨o, ho, rfl, hmessage ▸ .refl⟩
    | tail _ hstep ih =>
      obtain ⟨o, ho, rfl, hreach⟩ := ih
      obtain ⟨u, hu, hname, hrefers⟩ := h.refers_of_needs ho hstep
      exact ⟨u, hu, hname, hreach.tail hrefers⟩
  obtain ⟨a, ha, hreach⟩ := reached_of_files hfiles _ (List.mem_map_of_mem he)
  obtain ⟨o, ho, rfl, hmessage⟩ := hlead hreach
  rwa [h.registered.eq_of_name ho he (fileName_inj.mp (Option.some.inj ha)).symm] at hmessage

/-- What the table leads to is the message of a registered scope. -/
theorem of_reaches (h : Resolved dialect root es shape) {m : Pool.Message} (hm : shape.Reaches m) :
    ∃ e ∈ es, m = e.resolved dialect := by
  induction hm with
  | refl =>
    obtain ⟨e, he, -, hmessage⟩ := h.top
    exact ⟨e, he, hmessage⟩
  | tail _ hstep _ =>
    obtain ⟨f, -, -, hfind⟩ := hstep
    obtain ⟨e, he, -, hmessage⟩ := h.of_find hfind
    exact ⟨e, he, hmessage⟩

end Resolved

end Compile

/-! ## The layout of a table -/

/-- **The layout of a table is that of the messages its rows are written with.** The files of a schema
that has a shape have a layout with, under the full name of every message that the message of the
table leads to, exactly the fields of that message, and with no other message. -/
theorem layout_of_ofTable {s : Schema} {scope : String} {dialect : Dialect} {shape : Shape}
    (h : Shape.ofTable s scope dialect = .ok shape) :
    ∃ fs, Compile.files s scope dialect = .ok fs ∧ Keyed.Ordered (Layout.ofFiles fs) ∧
      (∀ m, shape.Reaches m → ∃ xs, Keyed.Ordered xs ∧
        LaysOut (Layout.ofFiles fs) shape.pool m xs) ∧
      ∀ n xs, (n, xs) ∈ Layout.ofFiles fs → ∃ m, shape.Reaches m ∧ m.fullName = n := by
  obtain ⟨es, hfiles, hr⟩ := Compile.resolved_of_ofTable h
  refine ⟨_, hfiles, ?_, fun m hm => ?_, fun n xs hn => ?_⟩
  · rw [Compile.ofFiles_entries]
    exact Keyed.ordered_ofList _
  · obtain ⟨e, he, rfl⟩ := hr.of_reaches hm
    exact ⟨_, Keyed.ordered_ofList _, hr.laysOut he⟩
  · obtain ⟨e, he, hentry⟩ := List.mem_map.mp (hr.registered.layout_perm.mem_iff.mp hn)
    exact ⟨_, hr.reaches hfiles he, (Compile.fullName_message e).trans (congrArg (·.1) hentry)⟩

/-- Two STRUCT columns that share a joined name: one entry for both. -/
theorem layout_of_shared_name :
    let x : Column := { name := "x", type := 2 }
    let b : Column := { name := "b", type := 4, columns := [x] }
    let s : Schema := ⟨[{ name := "a", type := 4, columns := [b] },
      { name := "a_b", type := 4, mode := 3, columns := [x] }]⟩
    let l : Layout :=
      [("root", [("a", ⟨1, "root_a", .optional⟩), ("a_b", ⟨2, "root_a_b", .repeated⟩)]),
        ("root_a", [("b", ⟨1, "root_a_b", .optional⟩)]),
        ("root_a_b", [("x", ⟨1, "int64", .optional⟩)])]
    ∃ shape fs, Shape.ofTable s "root" .proto3 = .ok shape ∧
      Compile.files s "root" .proto3 = .ok fs ∧ Layout.ofFiles fs = l ∧
      ∀ m, shape.Reaches m → ∃ xs, LaysOut l shape.pool m xs := by
  intro x b s l
  have hok : (Shape.ofTable s "root" .proto3).toOption.isSome = true := by decide +kernel
  obtain ⟨shape, h⟩ := Option.isSome_iff_exists.mp hok
  rw [toOption_eq_some] at h
  obtain ⟨fs, hfiles, -, hreach, -⟩ := layout_of_ofTable h
  have hlayout : (Compile.files s "root" .proto3).toOption.map Layout.ofFiles = some l := by decide +kernel
  rw [hfiles] at hlayout
  have hl : Layout.ofFiles fs = l := Option.some.inj hlayout
  refine ⟨shape, fs, h, hfiles, hl, fun m hm => ?_⟩
  obtain ⟨xs, -, hxs⟩ := hreach m hm
  exact ⟨xs, hl ▸ hxs⟩

end Table

end RowStream
