import Mathlib
import RowStream.Proofs.Shape.Recursion

/-!
# The descriptor that stands alone, field by field

Every message inside the root, and the root itself, has the fields that its message was declared with:
with their names, numbers, labels and types (`FieldKept`). What changes is where references lead, which is
to the definitions beside them (`LeadsInward`), and the oneofs: those that only mark presence are gone,
and the others move up.

Two things can keep the descriptor from standing alone (`SelfContained`). Extensions that are declared in a
message stay there, and what they extend and refer to is not brought in. And full names that differ can
become one name, so that a reference no longer says which of two definitions it leads to.

An index of the descriptor counts the real oneofs only. It is a number of 32 bits like the one before, as
a list of increasing numbers holds at no position one that is smaller than the position.

* `toInt_oneofIndex`, `isSome_oneofIndex`: the index of a field inside the root.
* `messageKept_inlineMessage`: a message inside the root beside what it was.
* `leadsInward_withInner`, `unextended_iff`, `selfContained_iff`: where references lead, and when nothing else
  is needed.
* `inline_keeps`: what this makes of the messages of any pool.
-/

namespace RowStream.Shape

open Pool (Field Message Enum Declares ResolvedIn Linked)

variable {p : Pool} {c : Collected} {m : Message} {f : Field} {root n : String} {i j oneofs : Nat}

/-! ## Oneofs -/

/-- The oneof with the index only marks the presence of the one field that belongs to it. -/
def Marks (m : Message) (i : Nat) : Prop :=
  ∃ f, membersOf m i = [f] ∧ f.descriptor.proto3Optional = some true

theorem isPresenceMark_iff : isPresenceMark m i = true ↔ Marks m i := by
  unfold isPresenceMark Marks
  split
  · rename_i f hmembers
    cases hmark : f.descriptor.proto3Optional <;> simp [hmembers, hmark]
  · rename_i hmembers
    simp only [Bool.false_eq_true, false_iff, not_exists, not_and]
    exact fun f hf => absurd hf (hmembers f)

theorem mem_realOneofs : i ∈ realOneofs m ↔ i < m.descriptor.oneofs.length ∧ ¬Marks m i := by
  simp [realOneofs, ← isPresenceMark_iff]

theorem realOneofs_ordered (m : Message) : (realOneofs m).Pairwise (· < ·) :=
  List.pairwise_lt_range.filter _

/-- No position of a list of increasing numbers is past its number. -/
theorem le_of_ordered {is : List Nat} (h : is.Pairwise (· < ·)) (hj : is[j]? = some i) : j ≤ i := by
  induction j generalizing i with
  | zero => exact Nat.zero_le i
  | succ j ih =>
    obtain ⟨hlt, rfl⟩ := List.getElem?_eq_some_iff.mp hj
    have hbefore := ih (List.getElem?_eq_getElem (Nat.lt_of_succ_lt hlt))
    exact Nat.succ_le_of_lt (Nat.lt_of_le_of_lt hbefore
      (List.pairwise_iff_getElem.mp h j (j + 1) (Nat.lt_of_succ_lt hlt) hlt (Nat.lt_succ_self j)))

/-- **The index of a field inside the root** is the position of its oneof among the real ones. -/
theorem toInt_oneofIndex (hbounded : ∀ i, f.oneof = some i → i < twoTo 31) {x : Int32}
    (hx : (inlineField root (realOneofs m) f).oneofIndex = some x) :
    ∃ i j : Nat, f.oneof = some i ∧ (realOneofs m)[j]? = some i ∧ x.toInt = j := by
  obtain ⟨i, hi, hx⟩ := Option.bind_eq_some_iff.mp hx
  obtain ⟨j, hj, rfl⟩ := Option.map_eq_some_iff.mp hx
  obtain ⟨hlt, heq, -⟩ := List.idxOf?_eq_some_iff.mp hj
  have hget : (realOneofs m)[j]? = some i := List.getElem?_eq_some_iff.mpr ⟨hlt, heq⟩
  have hle := le_of_ordered (realOneofs_ordered m) hget
  exact ⟨i, j, hi, hget, Int32.toInt_ofNat_of_lt (Nat.lt_of_le_of_lt hle (hbounded i hi))⟩

/-- A field has an index exactly if it belongs to a real oneof. -/
theorem isSome_oneofIndex (hbounded : ∀ i, f.oneof = some i → i < m.descriptor.oneofs.length) :
    (inlineField root (realOneofs m) f).oneofIndex.isSome = true ↔
      ∃ i, f.oneof = some i ∧ ¬Marks m i := by
  simp only [inlineField, Option.isSome_bind, Option.any_eq_true, Option.isSome_map, List.isSome_idxOf?,
    mem_realOneofs]
  exact exists_congr fun i => and_congr_right fun hi => and_iff_right (hbounded i hi)

/-! ## Fields and messages inside the root -/

/-- The field inside the root says what the field of the message says. A reference leads to the
definition inside, and the index to the oneof of the field among the real ones. -/
structure FieldKept (root : String) (m : Message) (real : List Nat) (f : Field) (g : Descriptor.Field) :
    Prop where
  name : g.nameText = f.name
  number : (g.number.getD 0).toInt = f.number
  label : g.labelValue = f.label
  type : g.typeValue = f.kind.type
  reference : ∀ n, f.kind.message? = some n ∨ f.kind = .enum n →
    g.typeName = some ("." ++ root ++ "." ++ flatName n)
  unmarked : g.proto3Optional = none
  belongs : g.oneofIndex.isSome = true ↔ ∃ i, f.oneof = some i ∧ ¬Marks m i
  index : ∀ x, g.oneofIndex = some x → ∃ i j : Nat, f.oneof = some i ∧ real[j]? = some i ∧ x.toInt = j

/-- The message inside the root has the fields of the message, those that were declared, and its real
oneofs in their order. -/
structure MessageKept (root : String) (m : Message) (real : List Nat) (d : Descriptor.Message) :
    Prop where
  fields : List.Forall₂ (FieldKept root m real) m.fields d.fields
  declared : (d.fields.map fun g => (g.name, g.number, g.label)).Perm
    (m.descriptor.fields.map fun f => (f.name, f.number, f.label))
  listed : ∀ i, i ∈ real ↔ i < m.descriptor.oneofs.length ∧ ¬Marks m i
  ordered : real.Pairwise (· < ·)
  oneofs : d.oneofs.map some = real.map fun i => m.descriptor.oneofs[i]?

/-- What else the descriptor holds does not matter. -/
theorem MessageKept.of_eq {real : List Nat} {d d' : Descriptor.Message} (h : MessageKept root m real d)
    (hfields : d'.fields = d.fields) (honeofs : d'.oneofs = d.oneofs) : MessageKept root m real d' :=
  ⟨hfields ▸ h.fields, hfields ▸ h.declared, h.listed, h.ordered, honeofs ▸ h.oneofs⟩

theorem fieldKept_inlineField {f₀ : Descriptor.Field} (h : Declares m.descriptor.oneofs.length f₀ f) :
    FieldKept root m (realOneofs m) f (inlineField root (realOneofs m) f) := by
  constructor
  case name =>
    rw [← h.name, Descriptor.Field.nameText, inlineField, h.descriptor, Pool.complete_name]
    rfl
  case number =>
    rw [← h.number, inlineField, h.descriptor, Pool.complete_number]
  case label =>
    rw [← h.label, Descriptor.Field.labelValue, inlineField, h.descriptor, Pool.complete_label]
    rfl
  case type => exact h.type
  case reference =>
    intro n hn
    cases hk : f.kind <;> simp_all [inlineField, Pool.Kind.message?]
  case unmarked => rfl
  case belongs => exact isSome_oneofIndex fun i hi => (h.bounded i hi).1
  case index => exact fun x hx => toInt_oneofIndex (fun i hi => (h.bounded i hi).2) hx

/-- **A message inside the root** keeps its fields and its real oneofs. -/
theorem messageKept_inlineMessage {s : Pool.Scope} (h : ResolvedIn s m) :
    MessageKept root m (realOneofs m) (inlineMessage root m) := by
  obtain ⟨gs, hperm, hall⟩ := h.declares
  constructor
  case fields =>
    refine List.forall₂_map_right_iff.mpr (List.forall₂_same.mpr fun f hf => ?_)
    obtain ⟨i, hi, rfl⟩ := List.mem_iff_getElem.mp (hperm.mem_iff.mp hf)
    exact fieldKept_inlineField (hall.get (hall.length_eq ▸ hi) hi)
  case declared =>
    have hsaid : gs.map (fun g => (g.descriptor.name, g.descriptor.number, g.descriptor.label)) =
        m.descriptor.fields.map fun f => (f.name, f.number, f.label) := by
      refine List.forall₂_eq_eq_eq ▸ List.forall₂_map_left_iff.mpr (List.forall₂_map_right_iff.mpr ?_)
      exact hall.flip.imp fun g f hfg => by simp [hfg.descriptor]
    rw [← hsaid, inlineMessage, List.map_map]
    exact hperm.map _
  case listed => exact fun i => mem_realOneofs
  case ordered => exact realOneofs_ordered m
  case oneofs =>
    rw [inlineMessage, List.map_filterMap_some_eq_filter_map_isSome, List.filter_eq_self]
    refine List.forall_mem_map.mpr fun i hi => ?_
    rw [List.getElem?_eq_getElem (mem_realOneofs.mp hi).1]
    rfl

/-! ## Descriptors that stand alone -/

/-- All that the fields of the root and of the messages inside refer to lies in the root, and no message or
enum lies deeper. -/
structure LeadsInward (d : Descriptor.Message) : Prop where
  flat : ∀ x ∈ d.nested, x.nested = [] ∧ x.enums = []
  messages : ∀ x ∈ d :: d.nested, ∀ g ∈ x.fields, g.typeValue = .message ∨ g.typeValue = .group →
    ∃ o ∈ d.nested, g.typeName = some ("." ++ d.nameText ++ "." ++ o.nameText)
  enums : ∀ x ∈ d :: d.nested, ∀ g ∈ x.fields, g.typeValue = .enum →
    ∃ e ∈ d.enums, g.typeName = some ("." ++ d.nameText ++ "." ++ e.nameText)

/-- No extension is declared in the descriptor, which would refer to something else. -/
def Unextended (d : Descriptor.Message) : Prop := ∀ x ∈ d :: d.nested, x.reserve.extensions = []

/-- The descriptor stands alone: references lead inward, each to the one definition of its name, and no
extension is declared. -/
structure SelfContained (d : Descriptor.Message) : Prop extends LeadsInward d where
  plain : Unextended d
  distinct : (d.nested.map (·.nameText) ++ d.enums.map (·.nameText)).Nodup

/-- The enum is used by the message, or by one that its references lead to. -/
def UsedBelow (p : Pool) (m : Message) (e : Enum) : Prop := ∃ x, p.Leads m x ∧ p.Uses x e

/-- The names that the messages and the enums get inside the root stay apart. -/
structure TypesApart (lies : Message → Prop) (used : Enum → Prop) : Prop where
  messages : ∀ x, lies x → ∀ y, lies y → flatName x.fullName = flatName y.fullName → x = y
  enums : ∀ e, used e → ∀ e', used e' → flatName e.fullName = flatName e'.fullName → e = e'
  types : ∀ x, lies x → ∀ e, used e → flatName x.fullName ≠ flatName e.fullName

/-- The root with what was collected for it. -/
def withInner (m : Message) (c : Collected) : Descriptor.Message :=
  { inlineMessage m.name m with
    nested := c.messages.map fun x => { inlineMessage m.name x with name := some (flatName x.fullName) }
    enums := c.enums.map fun e => { e.descriptor with name := some (flatName e.fullName) } }

/-- What is inlined was found by a search. -/
theorem finds_of_inline {d : Descriptor.Message} (h : inline ⟨p, m⟩ = .ok d) :
    ∃ c, Finds p [m.fullName] m.fields {} c ∧ d = withInner m c := by
  have hends := finds_or_fails p [m.fullName] m.fields {}
  unfold inline at h
  cases hc : collect p [m.fullName] m.fields {} with
  | error n => simp [hc] at h
  | ok c =>
    rw [hc] at hends h
    exact ⟨c, hends, (Except.ok.inj h).symm⟩

/-- The messages whose fields and extensions lie in the root are those that the root leads to. -/
theorem mem_withInner {x : Descriptor.Message} (hc : Finds p [m.fullName] m.fields {} c) (hp : Linked p)
    (hx : x ∈ withInner m c :: (withInner m c).nested) :
    ∃ y, p.Leads m y ∧ x.fields = y.fields.map (inlineField m.name (realOneofs y)) ∧
      x.reserve = y.descriptor.reserve := by
  rcases List.mem_cons.mp hx with rfl | hx
  · exact ⟨m, .refl, rfl, rfl⟩
  · obtain ⟨y, hy, rfl⟩ := List.mem_map.mp hx
    exact ⟨y, ((hc.exact hp).1.2 y).mp hy |>.to_reflTransGen, rfl, rfl⟩

/-- What the root leads to lies in it. -/
theorem exists_withInner (hc : Finds p [m.fullName] m.fields {} c) (hp : Linked p) {y : Message}
    (hy : p.Leads m y) :
    ∃ x ∈ withInner m c :: (withInner m c).nested, x.reserve = y.descriptor.reserve := by
  rcases Relation.reflTransGen_iff_eq_or_transGen.mp hy with rfl | hy
  · exact ⟨_, List.mem_cons_self, rfl⟩
  · exact ⟨_, List.mem_cons_of_mem _ (List.mem_map_of_mem (((hc.exact hp).1.2 y).mpr hy)), rfl⟩

/-- **References lead inward**: each was followed by the search. -/
theorem leadsInward_withInner (hc : Finds p [m.fullName] m.fields {} c) (hp : Linked p)
    (hm : ∀ y ∈ p.messages, ∃ s, ResolvedIn s y) (hroot : m ∈ p.messages) :
    LeadsInward (withInner m c) := by
  obtain ⟨⟨-, hmessages⟩, ⟨-, henums⟩, -⟩ := hc.exact hp
  have hmem {y : Message} (hy : p.Leads m y) : y ∈ p.messages := by
    rcases Relation.reflTransGen_iff_eq_or_transGen.mp hy with rfl | hy
    · exact hroot
    · exact Pool.Descends.mem hy
  have hkept {y : Message} (hy : p.Leads m y) {f : Field} (hf : f ∈ y.fields) :
      FieldKept m.name y (realOneofs y) f (inlineField m.name (realOneofs y) f) := by
    obtain ⟨s, hs⟩ := hm y (hmem hy)
    exact List.forall₂_same.mp (List.forall₂_map_right_iff.mp (messageKept_inlineMessage hs).fields) f hf
  constructor
  case flat =>
    exact List.forall_mem_map.mpr fun y _ => ⟨rfl, rfl⟩
  case messages =>
    intro x hx g hg htype
    obtain ⟨y, hy, hfields, -⟩ := mem_withInner hc hp hx
    obtain ⟨f, hf, rfl⟩ := List.mem_map.mp (hfields ▸ hg)
    have hkind : ∃ n, f.kind.message? = some n := by
      rw [(hkept hy hf).type] at htype
      cases hk : f.kind <;> simp_all [Pool.Kind.type, Pool.Kind.message?]
    obtain ⟨n, hn⟩ := hkind
    obtain ⟨o, ho, rfl⟩ := hp.refers y (hmem hy) f hf n hn
    have hstep : p.Refers y o := ⟨f, hf, hn, Pool.find_of_mem ho hp.messages⟩
    exact ⟨_, List.mem_map_of_mem ((hmessages o).mpr (.tail' hy hstep)),
      (hkept hy hf).reference _ (.inl hn)⟩
  case enums =>
    intro x hx g hg htype
    obtain ⟨y, hy, hfields, -⟩ := mem_withInner hc hp hx
    obtain ⟨f, hf, rfl⟩ := List.mem_map.mp (hfields ▸ hg)
    have hkind : ∃ n, f.kind = .enum n := by
      rw [(hkept hy hf).type] at htype
      cases hk : f.kind <;> simp_all [Pool.Kind.type]
    obtain ⟨n, hn⟩ := hkind
    obtain ⟨e, he, rfl⟩ := hp.uses y (hmem hy) f hf n hn
    exact ⟨_, List.mem_map_of_mem ((henums e).mpr ⟨y, hy, he, f, hf, hn⟩),
      (hkept hy hf).reference _ (.inr hn)⟩

/-- The names of messages and enums inside the root are distinct if those of what was collected stay
apart. -/
theorem nodup_typeNames_iff (hmessages : c.messages.Nodup) (henums : c.enums.Nodup) :
    ((withInner m c).nested.map (·.nameText) ++ (withInner m c).enums.map (·.nameText)).Nodup ↔
      TypesApart (· ∈ c.messages) (· ∈ c.enums) := by
  have hnames : (withInner m c).nested.map (·.nameText) ++ (withInner m c).enums.map (·.nameText) =
      c.messages.map (flatName ·.fullName) ++ c.enums.map (flatName ·.fullName) := by
    simp only [withInner, List.map_map]
    rfl
  rw [hnames, List.nodup_append', List.nodup_map_iff_inj_on hmessages, List.nodup_map_iff_inj_on henums]
  simp only [List.disjoint_left, List.mem_map, forall_exists_index, and_imp, forall_apply_eq_imp_iff₂,
    not_exists, not_and]
  constructor
  · rintro ⟨hm, he, ht⟩
    exact ⟨hm, he, fun x hx e hem heq => ht x hx e hem heq.symm⟩
  · intro h
    exact ⟨h.messages, h.enums, fun x hx e he heq => h.types x hx e he heq.symm⟩

/-- Extensions stay where they are declared, and none are added. -/
theorem unextended_iff (hc : Finds p [m.fullName] m.fields {} c) (hp : Linked p) :
    Unextended (withInner m c) ↔ ∀ x, p.Leads m x → x.descriptor.reserve.extensions = [] := by
  constructor
  · intro h y hy
    obtain ⟨x, hx, hreserve⟩ := exists_withInner hc hp hy
    rw [← hreserve]
    exact h x hx
  · intro h x hx
    obtain ⟨y, hy, -, hreserve⟩ := mem_withInner hc hp hx
    rw [hreserve]
    exact h y hy

/-- **The descriptor stands alone exactly if** no message that the root leads to declares extensions, and
the names inside stay apart. -/
theorem selfContained_iff (hc : Finds p [m.fullName] m.fields {} c) (hp : Linked p)
    (hinward : LeadsInward (withInner m c)) :
    SelfContained (withInner m c) ↔ (∀ x, p.Leads m x → x.descriptor.reserve.extensions = []) ∧
      TypesApart (p.Descends m) (UsedBelow p m) := by
  obtain ⟨⟨hmnames, hmessages⟩, ⟨henames, henums⟩, -⟩ := hc.exact hp
  have hlies : (· ∈ c.messages) = p.Descends m := funext fun x => propext (hmessages x)
  have hused : (· ∈ c.enums) = UsedBelow p m := funext fun e => propext (henums e)
  have hdistinct := nodup_typeNames_iff (m := m) hmnames.of_map henames.of_map
  rw [hlies, hused] at hdistinct
  rw [← unextended_iff hc hp, ← hdistinct]
  exact ⟨fun h => ⟨h.plain, h.distinct⟩, fun ⟨hplain, hnames⟩ => ⟨hinward, hplain, hnames⟩⟩

/-! ## Messages of any pool -/

/-- **The descriptor that stands alone keeps the fields, and needs nothing else where no extensions are
declared and names stay apart.** For a message of a pool of any files that can be inlined

* all that fields refer to lies in the root, under the name by which it is referred to, and no message or
  enum lies deeper;
* no extension is declared in the descriptor exactly if neither the message nor any that references lead
  to declares one;
* the descriptor is self-contained exactly if this is so and the names inside are distinct;
* the root has the fields and the real oneofs of the message, and each message inside has those of one
  that references lead to, all of which are there. -/
theorem inline_keeps {files : List Descriptor.File} (h : Pool.ofFiles files = .ok p)
    (hm : m ∈ p.messages) {d : Descriptor.Message} (hd : inline ⟨p, m⟩ = .ok d) :
    LeadsInward d ∧
      (Unextended d ↔ ∀ x, p.Leads m x → x.descriptor.reserve.extensions = []) ∧
      (SelfContained d ↔ (∀ x, p.Leads m x → x.descriptor.reserve.extensions = []) ∧
        TypesApart (p.Descends m) (UsedBelow p m)) ∧
      (d.nameText = m.name ∧ MessageKept m.name m (realOneofs m) d) ∧
      ∃ ms : List Message, (∀ x, x ∈ ms ↔ p.Descends m x) ∧
        List.Forall₂ (fun x y => y.name = some (flatName x.fullName) ∧
          MessageKept m.name x (realOneofs x) y) ms d.nested := by
  have hp := Pool.linked_of_ofFiles h
  have hresolved := Pool.resolved_of_ofFiles h
  have hkept {y : Message} (hy : y ∈ p.messages) :
      MessageKept m.name y (realOneofs y) (inlineMessage m.name y) := by
    obtain ⟨s, hs⟩ := hresolved y hy
    exact messageKept_inlineMessage hs
  obtain ⟨c, hc, rfl⟩ := finds_of_inline hd
  have hmessages := (hc.exact hp).1.2
  have hinward := leadsInward_withInner hc hp hresolved hm
  refine ⟨hinward, unextended_iff hc hp, selfContained_iff hc hp hinward, ⟨rfl, ?_⟩, c.messages, hmessages, ?_⟩
  · exact (hkept hm).of_eq rfl rfl
  · refine List.forall₂_map_right_iff.mpr (List.forall₂_same.mpr fun y hy => ⟨rfl, ?_⟩)
    exact (hkept ((hmessages y).mp hy).mem).of_eq rfl rfl

/-- A message that is nested in another: its mark of presence is gone, its real oneof moves up, and an enum
and a message from beside it lie in it. -/
theorem inline_nested_root :
    let file : Descriptor.File :=
      { name := some "n.proto", dialect := some "proto3", messages := [{
          name := some "Outer"
          nested :=
            [{ name := some "Root"
               oneofs := [{ name := some "_a" }, { name := some "pick" }]
               fields :=
                 [{ name := some "a", number := some 1, label := some 1, type := some 3,
                    oneofIndex := some 0, proto3Optional := some true },
                  { name := some "b", number := some 2, label := some 1, type := some 9,
                    oneofIndex := some 1 },
                  { name := some "c", number := some 3, label := some 1, type := some 14,
                    typeName := some ".Outer.E" },
                  { name := some "d", number := some 4, label := some 3, type := some 11,
                    typeName := some ".Outer.Sub" }] },
             { name := some "Sub", fields :=
                 [{ name := some "x", number := some 1, label := some 1, type := some 3 }] }]
          enums := [{ name := some "E", values := [{ name := some "ZERO", number := some 0 }] }] }] }
    ∃ p m d, Pool.ofFiles [file] = .ok p ∧ m ∈ p.messages ∧ inline ⟨p, m⟩ = .ok d ∧
      d.fields.map (fun g => (g.nameText, g.oneofIndex, g.typeName)) =
        [("a", none, none), ("b", some 0, none), ("c", none, some ".Root.Outer_E"),
          ("d", none, some ".Root.Outer_Sub")] ∧
      SelfContained d ∧ TypesApart (p.Descends m) (UsedBelow p m) := by
  intro file
  have hrun : ((Pool.ofFiles [file]).toOption.bind fun p => (p.message? "Outer.Root").bind fun m =>
      (inline ⟨p, m⟩).toOption.map fun d =>
        (d.fields.map fun g => (g.nameText, g.oneofIndex, g.typeName),
          (d :: d.nested).all (·.reserve.extensions == []),
          d.nested.map (·.nameText) ++ d.enums.map (·.nameText))) =
      some ([("a", none, none), ("b", some 0, none), ("c", none, some ".Root.Outer_E"),
        ("d", none, some ".Root.Outer_Sub")], true, ["Outer_Sub", "Outer_E"]) := by cbv
  simp only [Option.bind_eq_some_iff, Option.map_eq_some_iff, toOption_eq_some, Prod.mk.injEq] at hrun
  obtain ⟨p, hp, m, hm, d, hd, hfields, hplain, hnames⟩ := hrun
  have hmem := List.mem_of_find?_eq_some hm
  obtain ⟨hinward, -, hiff, -⟩ := inline_keeps hp hmem hd
  have hself : SelfContained d :=
    ⟨hinward, by simpa [Unextended] using hplain, by rw [hnames]; decide⟩
  exact ⟨p, m, d, hp, hmem, hd, hfields, hself, (hiff.mp hself).2⟩

/-- The root declares an extension: it stays, and refers to two messages that do not lie in the root. And the
messages `A.B` and `A_B` lie in their root under one name, by which both are referred to. -/
theorem references_not_contained :
    let extended : Descriptor.File :=
      { name := some "e.proto", dialect := some "proto2", messages :=
          [{ name := some "Base"
             reserve := { extensionRanges := [{ start := some 100, stop := some 200 }] } },
           { name := some "Other", fields :=
              [{ name := some "y", number := some 1, label := some 1, type := some 9 }] },
           { name := some "M"
             fields := [{ name := some "x", number := some 1, label := some 1, type := some 3 }]
             reserve :=
              { extensions := [{ name := some "e", extendee := some ".Base", number := some 100,
                                 label := some 1, type := some 11, typeName := some ".Other" }] } }] }
    let met : Descriptor.File :=
      { name := some "t.proto", dialect := some "proto2", messages :=
          [{ name := some "A", nested := [{ name := some "B", fields :=
              [{ name := some "x", number := some 1, label := some 1, type := some 3 }] }] },
           { name := some "A_B", fields :=
              [{ name := some "y", number := some 1, label := some 1, type := some 9 }] },
           { name := some "Root", fields :=
              [{ name := some "p", number := some 1, label := some 1, type := some 11,
                 typeName := some ".A.B" },
               { name := some "q", number := some 2, label := some 1, type := some 11,
                 typeName := some ".A_B" }] }] }
    (∃ p m d, Pool.ofFiles [extended] = .ok p ∧ m ∈ p.messages ∧ inline ⟨p, m⟩ = .ok d ∧
      d.reserve.extensions.map (fun e => (e.extendee, e.typeName)) = [(some ".Base", some ".Other")] ∧
      d.nested = [] ∧ ¬ Unextended d ∧ ¬ SelfContained d) ∧
    ∃ p m d, Pool.ofFiles [met] = .ok p ∧ m ∈ p.messages ∧ inline ⟨p, m⟩ = .ok d ∧
      d.fields.map (·.typeName) = [some ".Root.A_B", some ".Root.A_B"] ∧
      d.nested.map (·.nameText) = ["A_B", "A_B"] ∧ ¬ SelfContained d := by
  intro extended met
  constructor
  · have hrun : ((Pool.ofFiles [extended]).toOption.bind fun p => (p.message? "M").bind fun m =>
        (inline ⟨p, m⟩).toOption.map fun d =>
          (d.reserve.extensions.map fun e => (e.extendee, e.typeName), d.nested)) =
        some ([(some ".Base", some ".Other")], []) := by cbv
    simp only [Option.bind_eq_some_iff, Option.map_eq_some_iff, toOption_eq_some, Prod.mk.injEq] at hrun
    obtain ⟨p, hp, m, hm, d, hd, hextensions, hnested⟩ := hrun
    have hplain : ¬ Unextended d := by
      intro h
      rw [h d List.mem_cons_self] at hextensions
      exact absurd hextensions (by simp)
    exact ⟨p, m, d, hp, List.mem_of_find?_eq_some hm, hd, hextensions, hnested, hplain,
      fun h => hplain h.plain⟩
  · have hrun : ((Pool.ofFiles [met]).toOption.bind fun p => (p.message? "Root").bind fun m =>
        (inline ⟨p, m⟩).toOption.map fun d =>
          (d.fields.map (·.typeName), d.nested.map (·.nameText))) =
        some ([some ".Root.A_B", some ".Root.A_B"], ["A_B", "A_B"]) := by cbv
    simp only [Option.bind_eq_some_iff, Option.map_eq_some_iff, toOption_eq_some, Prod.mk.injEq] at hrun
    obtain ⟨p, hp, m, hm, d, hd, hfields, hnames⟩ := hrun
    refine ⟨p, m, d, hp, List.mem_of_find?_eq_some hm, hd, hfields, hnames, fun h => ?_⟩
    have hdistinct := h.distinct.of_append_left
    rw [hnames] at hdistinct
    exact absurd hdistinct (by decide)

end RowStream.Shape
