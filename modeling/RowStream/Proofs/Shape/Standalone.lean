import RowStream.Proofs.Shape.Inlined

/-!
# When a descriptor stands alone

A descriptor that stands alone is the one message of a file in the older dialect. It can be used exactly
if its names are different, and each of its messages resolves with those that it defines.

For the descriptor of a table little of this is left to ask. The numbers and the JSON names of its fields
are those that the table had, and a reference finds its message by the place of that in the root. Only
without a name of its own the root has no such places, and names may meet in it.

* `ofDescriptor_eq_ok`: exactly when a descriptor stands alone, and its shape.
* `standsAlone_iff`: the same for the descriptor of a table.
-/

namespace RowStream.Shape

open Descriptor (Dialect)
open Pool (Role Names Simple AllSettled Settled Defined treeNames plainMessage plainMessages)

variable {d : Descriptor.Message} {t : Shape} {n : String}

/-- The definitions of the file that holds one descriptor. -/
def definitions (d : Descriptor.Message) : Names :=
  ((treeNames "" d).map fun s => ⟨s.1, (standaloneFile d).nameText, s.2⟩).reverse

/-- Where the fields of the descriptor are resolved. -/
def surroundings (d : Descriptor.Message) : Pool.Scope :=
  ⟨definitions d, [], [(standaloneFile d).nameText], .proto2⟩

theorem dot_not_mem_flatName (n : String) : '.' ∉ (flatName n).toList := by
  rw [flatName, Text.underscored, String.toList_ofList]
  intro hmem
  obtain ⟨c, -, hc⟩ := List.mem_map.mp hmem
  split at hc
  · exact absurd hc (by decide)
  · rename_i hdot
    exact hdot (by rw [hc]; rfl)

/-- The messages that can be referred to are those that the descriptor names. -/
theorem defined_iff (h : ((treeNames "" d).map (·.1)).Nodup) :
    Defined (definitions d) [(standaloneFile d).nameText] n ↔ (n, Role.message) ∈ treeNames "" d := by
  have hmem {x : Pool.Definition} : x ∈ definitions d ↔
      ∃ s ∈ treeNames "" d, ⟨s.1, (standaloneFile d).nameText, s.2⟩ = x := by
    simp [definitions]
  constructor
  · rintro ⟨x, hfind, -, hrole⟩
    obtain ⟨hx, hname⟩ := Pool.find_eq_some hfind
    obtain ⟨s, hs, rfl⟩ := hmem.mp hx
    obtain ⟨name, role⟩ := s
    obtain rfl : name = n := hname
    obtain rfl : role = .message := hrole
    exact hs
  · intro hn
    have hself := hmem.mpr ⟨_, hn, rfl⟩
    cases hfind : (definitions d).find n with
    | none => exact absurd rfl (Pool.find_eq_none.mp hfind _ hself)
    | some x =>
      obtain ⟨hx, hname⟩ := Pool.find_eq_some hfind
      obtain ⟨s, hs, rfl⟩ := hmem.mp hx
      obtain rfl : s = (n, Role.message) := List.inj_on_of_nodup_map h hs hn hname
      exact ⟨_, hfind, List.mem_singleton_self _, rfl⟩

/-- **Exactly when a descriptor stands alone**, and its shape. -/
theorem ofDescriptor_eq_ok (hd : Simple d) (hdot : Text.dropDot d.nameText = d.nameText) :
    ofDescriptor d = .ok t ↔ ((treeNames "" d).map (·.1)).Nodup ∧ AllSettled (surroundings d) d ∧
      t = ⟨⟨plainMessages .proto2 d, []⟩, plainMessage .proto2 "" d⟩ := by
  have hfile : ∀ e ∈ [d], Pool.Holds (standaloneFile e) e ∧ Simple e ∧
      Pool.dialectOf (standaloneFile e) = .ok .proto2 := by
    intro e he
    rw [List.mem_singleton.mp he]
    exact ⟨⟨rfl, rfl, rfl⟩, hd, rfl⟩
  have hpool (p : Pool) : Pool.ofFiles [standaloneFile d] = .ok p ↔
      ((treeNames "" d).map (·.1)).Nodup ∧ AllSettled (surroundings d) d ∧
        p = ⟨plainMessages .proto2 d, []⟩ := by
    have hof := Pool.ofFiles_eq_ok (p := p) hfile
    rw [List.map_singleton] at hof
    simp only [hof, Pool.addFiles_single (hfile d (List.mem_singleton_self d)).1 hd.toFlat rfl]
    constructor
    · rintro ⟨_, ⟨hnodup, rfl⟩, hall, rfl⟩
      exact ⟨hnodup, (hall d (List.mem_singleton_self d)).2, by simp⟩
    · rintro ⟨hnodup, hall, rfl⟩
      refine ⟨_, ⟨hnodup, rfl⟩, fun e he => ?_, by simp⟩
      rw [List.mem_singleton.mp he]
      exact ⟨fun x hx => absurd hx List.not_mem_nil, hall⟩
  have htop : (⟨plainMessages .proto2 d, []⟩ : Pool).message? d.nameText =
      some (plainMessage .proto2 "" d) := by
    have hname : (plainMessage .proto2 "" d).fullName = d.nameText := Text.qualify_empty _
    rw [Pool.message?, hdot]
    exact List.find?_cons_of_pos (beq_iff_eq.mpr hname)
  unfold ofDescriptor ofFiles
  constructor
  · intro h
    split at h
    · exact absurd h (by simp)
    · rename_i p hp
      obtain ⟨hnodup, hall, rfl⟩ := (hpool p).mp hp
      rw [htop] at h
      exact ⟨hnodup, hall, (Except.ok.inj h).symm⟩
  · rintro ⟨hnodup, hall, rfl⟩
    rw [(hpool _).mpr ⟨hnodup, hall, rfl⟩]
    simp only [htop]

end RowStream.Shape

namespace RowStream.Table.Compile.Resolved

open Descriptor (Dialect)
open Pool (Role Settled Defined Distinct treeNames ownNames)
open Shape (standalone bare inlined innerName surroundings)

variable {dialect : Dialect} {top : Scope} {es : List Entry} {shape : Shape} {e : Entry}
  {ms : List Pool.Message}

theorem simple_standalone (h : Resolved dialect top es shape) (hi : Inner dialect top es ms) :
    Pool.Simple (standalone top.name shape.message ms) := by
  obtain ⟨e₀, he₀, -, hmessage⟩ := h.top
  have hplain {e : Entry} (he : e ∈ es) : Pool.AllPlain (bare top.name (e.resolved dialect)) := by
    intro g hg
    obtain ⟨f, hf, rfl⟩ := List.mem_map.mp hg
    obtain ⟨f, hplain, rfl⟩ := h.plain_of_mem he hf
    exact (Shape.plain_inlineField hplain).1
  refine ⟨⟨fun n hn => ?_, rfl⟩, hmessage ▸ hplain he₀, fun n hn => ?_⟩
  · obtain ⟨m, -, rfl⟩ := List.mem_map.mp hn
    exact ⟨rfl, rfl⟩
  · obtain ⟨m, hm, rfl⟩ := List.mem_map.mp hn
    obtain ⟨e, he, rfl, -⟩ := hi.of_mem m hm
    exact hplain he

theorem inlineOf_of_mem (h : Resolved dialect top es shape) (he : e ∈ es) {f : Pool.Field}
    (hf : f ∈ (e.resolved dialect).fields) :
    Shape.InlineOf top.name f (inlined top.name f) := by
  obtain ⟨g, hg, rfl⟩ := h.plain_of_mem he hf
  exact Shape.inlineOf_plain hg

/-- Fields that differ in number and JSON name still do inside the root. -/
theorem distinct_inlined (h : Resolved dialect top es shape) (he : e ∈ es) :
    Distinct (((e.resolved dialect).fields.map (Shape.inlineField top.name [])).map
      (Pool.plainField .proto2)) := by
  rw [List.map_map]
  refine List.pairwise_map.mpr ((h.distinct he).imp_of_mem fun {f g} hf hg hfg => ?_)
  change (inlined top.name f).number ≠ (inlined top.name g).number ∧
    (inlined top.name f).descriptor.jsonName ≠ (inlined top.name g).descriptor.jsonName
  have hinf := h.inlineOf_of_mem he hf
  have hing := h.inlineOf_of_mem he hg
  rw [hinf.number, hing.number, hinf.jsonName, hing.jsonName]
  exact hfg

/-- A message resolves inside the root when what its fields refer to is defined there. -/
theorem settled_bare (h : Resolved dialect top es shape) (he : e ∈ es) {s : Pool.Scope}
    (hs : s.dialect = .proto2) : Settled s (bare top.name (e.resolved dialect)) ↔
      ∀ f ∈ (e.resolved dialect).fields, ∀ n, f.kind = .message n →
        Defined s.names s.imported (innerName top.name n) := by
  have hkind {f : Pool.Field} (hf : f ∈ (e.resolved dialect).fields) :
      Pool.plainKind (Shape.inlineField top.name [] f) = Shape.innerKind top.name f.kind := by
    obtain ⟨g, hg, rfl⟩ := h.plain_of_mem he hf
    exact (Shape.plain_inlineField hg).2
  constructor
  · intro hsettled f hf n hn
    have htype := (hsettled.fields _ (List.mem_map_of_mem hf)).type
    exact htype _ (by rw [hkind hf, hn]; rfl)
  · intro hall
    refine ⟨fun g hg => ?_, hs ▸ h.distinct_inlined he⟩
    obtain ⟨f, hf, rfl⟩ := List.mem_map.mp hg
    refine ⟨?_, fun n hn => ?_, fun i hi => ?_⟩
    · obtain ⟨s, -, hsettled⟩ := h.settled e he
      have hold := hf
      rw [h.registered.resolved_fields he (h.messageOf he).bounded] at hold
      obtain ⟨f₀, hf₀, rfl⟩ := List.mem_map.mp hold
      have hnumber := (hsettled.fields f₀ hf₀).number
      rwa [← Pool.complete_number (Pool.plainKind f₀) f₀] at hnumber
    · rw [hkind hf] at hn
      rcases h.kind_of_mem he hf with ⟨t, ht⟩ | ⟨c, -, -, hc⟩
      · rw [ht] at hn
        exact nomatch hn
      · rw [hc] at hn
        exact Pool.Kind.message.inj hn ▸ hall f hf _ hc
    · rw [Shape.oneofIndex_inlineField] at hi
      exact nomatch hi

/-! ## The names in the root -/

theorem fullName_standalone (h : Resolved dialect top es shape) :
    Pool.fullName "" (standalone top.name shape.message ms) = top.name := by
  obtain ⟨e₀, -, hscope, hmessage⟩ := h.top
  rw [Pool.fullName, Text.qualify_empty, hmessage, ← hscope]
  rfl

/-- The names of a message inside the root. -/
def innerNames (top : String) (m : Pool.Message) : List String :=
  Text.qualify top (Shape.flatName m.fullName) ::
    m.fields.map fun f => Text.qualify (Text.qualify top (Shape.flatName m.fullName)) f.name

/-- The names of a message that has the fields of another inside the root. -/
theorem ownNames_bare (h : Resolved dialect top es shape) (he : e ∈ es) {scope : String}
    {d : Descriptor.Message} (hfields : d.fields = (bare top.name (e.resolved dialect)).fields)
    (honeofs : d.oneofs = []) : (ownNames scope d).map (·.1) =
      Pool.fullName scope d :: (e.resolved dialect).fields.map fun f =>
        Text.qualify (Pool.fullName scope d) f.name := by
  unfold ownNames
  rw [hfields, honeofs, bare]
  simp only [List.map_nil, List.nil_append, List.map_cons, List.map_map, List.cons.injEq, true_and]
  refine List.map_congr_left fun f hf => ?_
  have hname : (Shape.inlineField top.name [] f).nameText = f.name := (h.inlineOf_of_mem he hf).name
  exact congrArg (Text.qualify (Pool.fullName scope d)) hname

/-- The names of the descriptor. -/
theorem treeNames_standalone (h : Resolved dialect top es shape) (hi : Inner dialect top es ms) :
    (treeNames "" (standalone top.name shape.message ms)).map (·.1) =
      (top.name :: shape.message.fields.map fun f => Text.qualify top.name f.name) ++
        ms.flatMap (innerNames top.name) := by
  obtain ⟨e₀, he₀, -, hmessage⟩ := h.top
  have hfields : (standalone top.name shape.message ms).fields =
      (bare top.name (e₀.resolved dialect)).fields := hmessage ▸ rfl
  have htop : (ownNames "" (standalone top.name shape.message ms)).map (·.1) = _ :=
    h.ownNames_bare he₀ hfields rfl
  rw [h.fullName_standalone, ← hmessage] at htop
  rw [treeNames, List.map_append, htop, h.fullName_standalone, List.map_flatMap, standalone,
    List.flatMap_map]
  refine congrArg _ (List.flatMap_congr fun m hm => ?_)
  obtain ⟨e, he, rfl, -⟩ := hi.of_mem m hm
  exact h.ownNames_bare he rfl rfl

/-- A message inside the root is named by its place there, if the root has a name. -/
theorem mem_treeNames_iff (h : Resolved dialect top es shape) {m : Pool.Message} (hm : m ∈ ms) :
    (innerName top.name m.fullName, Role.message) ∈
      treeNames "" (standalone top.name shape.message ms) ↔ top.name ≠ "" := by
  constructor
  · intro hmem hempty
    rw [treeNames, h.fullName_standalone, List.mem_append, List.mem_flatMap] at hmem
    have hdot : '.' ∈ (innerName top.name m.fullName).toList := by
      simp [innerName, String.toList_append]
    simp only [ownNames, List.mem_cons, List.mem_append, List.mem_map, Prod.mk.injEq, reduceCtorEq,
      and_false, exists_false, or_false] at hmem
    rcases hmem with ⟨heq, -⟩ | ⟨n, hn, heq, -⟩
    · rw [heq, h.fullName_standalone, hempty] at hdot
      exact absurd hdot List.not_mem_nil
    · obtain ⟨o, -, rfl⟩ := List.mem_map.mp hn
      have hflat : innerName top.name m.fullName = Shape.flatName o.fullName := by
        rw [heq, hempty]
        exact Text.qualify_empty _
      exact Shape.dot_not_mem_flatName _ (hflat ▸ hdot)
  · intro hne
    refine List.mem_append_right _ (List.mem_flatMap.mpr ⟨_, List.mem_map_of_mem hm, ?_⟩)
    have hname : Pool.fullName (Pool.fullName "" (standalone top.name shape.message ms))
        { bare top.name m with name := some (Shape.flatName m.fullName) } =
          innerName top.name m.fullName := by
      rw [h.fullName_standalone]
      exact Text.qualify_of_ne hne _
    exact List.mem_cons.mpr (.inl (by rw [hname]))

/-- A table with other scopes than its own has a STRUCT column. -/
theorem exists_struct (h : Resolved dialect top es shape) (he : e ∈ es)
    (hne : e.scope.name ≠ top.name) : ∃ c ∈ top.columns, c.isStruct = true := by
  have hat := h.registered.located_of_mem he
  cases hpath : e.path with
  | nil =>
    rw [hpath] at hat
    exact absurd (congrArg Scope.name (Option.some.inj hat).symm) hne
  | cons i p =>
    rw [hpath] at hat
    obtain ⟨t, ht, -⟩ := Option.bind_eq_some_iff.mp hat
    obtain ⟨c, hc, hstruct, -⟩ := Scope.sub?_eq_some.mp ht
    exact ⟨c, List.mem_of_getElem? hc, hstruct⟩

theorem allSettled_standalone (h : Resolved dialect top es shape) (hi : Inner dialect top es ms)
    {s : Pool.Scope} (hs : s.dialect = .proto2)
    (hall : ∀ m ∈ ms, Defined s.names s.imported (innerName top.name m.fullName)) :
    Pool.AllSettled s (standalone top.name shape.message ms) := by
  obtain ⟨e₀, he₀, -, hmessage⟩ := h.top
  have hsettled {e : Entry} (he : e ∈ es) : Settled s (bare top.name (e.resolved dialect)) := by
    refine (h.settled_bare he hs).mpr fun f hf n hn => ?_
    obtain ⟨m, hm, rfl⟩ := hi.referred e he f hf n hn
    exact hall m hm
  have htop := hsettled he₀
  rw [← hmessage] at htop
  refine ⟨⟨htop.fields, htop.distinct⟩, fun n hn => ?_⟩
  obtain ⟨m, hm, rfl⟩ := List.mem_map.mp hn
  obtain ⟨e, he, rfl, -⟩ := hi.of_mem m hm
  exact ⟨(hsettled he).fields, (hsettled he).distinct⟩

theorem undotted_standalone (h : Resolved dialect top es shape) :
    Text.dropDot (standalone top.name shape.message ms).nameText =
      (standalone top.name shape.message ms).nameText := by
  have hname : (standalone top.name shape.message ms).nameText = top.name :=
    (Text.qualify_empty _).symm.trans h.fullName_standalone
  rw [hname, h.undotted]

/-- **Exactly when the descriptor of a table stands alone**: its names are different, and the table
has a name if there are messages in it. -/
theorem standsAlone_iff (h : Resolved dialect top es shape) (hi : Inner dialect top es ms) :
    (∃ t, Shape.ofDescriptor (standalone top.name shape.message ms) = .ok t) ↔
      ((treeNames "" (standalone top.name shape.message ms)).map (·.1)).Nodup ∧
        (ms ≠ [] → top.name ≠ "") := by
  simp only [Shape.ofDescriptor_eq_ok (h.simple_standalone hi) h.undotted_standalone,
    exists_and_left, exists_eq, and_true]
  refine and_congr_right fun hnodup => ⟨fun hall hne => ?_, fun hname => ?_⟩
  · obtain ⟨m, hm⟩ := List.exists_mem_of_ne_nil ms hne
    obtain ⟨e, he, rfl, hlonger⟩ := hi.of_mem m hm
    -- the table itself refers to one of the messages inside, by a name that starts with its own
    obtain ⟨c, hc, hstruct⟩ := h.exists_struct he fun heq => Nat.lt_irrefl _ (heq ▸ hlonger)
    obtain ⟨e₀, he₀, hscope, hmessage⟩ := h.top
    obtain ⟨f, hf, hn⟩ := h.exists_field he₀ (hscope ▸ hc) hstruct
    have hsettled : Settled (surroundings (standalone top.name shape.message ms))
        (bare top.name (e₀.resolved dialect)) := by
      rw [← hmessage]
      exact ⟨hall.1.fields, hall.1.distinct⟩
    have hdefined := (h.settled_bare he₀ rfl).mp hsettled f hf _ hn
    obtain ⟨o, ho, hname⟩ := hi.referred e₀ he₀ f hf _ hn
    rw [← hname] at hdefined
    exact (h.mem_treeNames_iff ho).mp ((Shape.defined_iff hnodup).mp hdefined)
  · refine h.allSettled_standalone hi rfl fun m hm => ?_
    exact (Shape.defined_iff hnodup).mpr
      ((h.mem_treeNames_iff hm).mpr (hname (List.ne_nil_of_mem hm)))

end RowStream.Table.Compile.Resolved
