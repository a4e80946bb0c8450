import Mathlib.Data.List.Nodup
import Mathlib.Data.List.Pairwise
import RowStream.Proofs.Shape.Standalone

/-!
# Names that meet in the root

The messages of a table had names that no field had, because each was a file of its own. In the root they
lie beside its fields, with underscores for the dots in their names, and three things can meet there: two
messages, a message and a field, and a field of a message and a field with a dot in its name.

* `standsAlone_iff_apart`: the descriptor of a table can be used exactly if none of these do.
-/

namespace RowStream.Shape

/-- The messages other than that of the rows. -/
def Other (s : Shape) (m : Pool.Message) : Prop :=
  m ∈ s.pool.messages ∧ m.fullName ≠ s.message.fullName

/-- The names that meet in the root stay apart: the messages inside get different names, none of these
is the name of a field of the root, and no field of the root is called like a field inside. -/
structure Apart (s : Shape) : Prop where
  named : ∀ m, s.Other m → s.message.fullName ≠ ""
  messages : ∀ m n, s.Other m → s.Other n → flatName m.fullName = flatName n.fullName →
    m.fullName = n.fullName
  fields : ∀ m, s.Other m → ∀ f ∈ s.message.fields, f.name ≠ flatName m.fullName
  inner : ∀ m, s.Other m → ∀ f ∈ s.message.fields, ∀ g ∈ m.fields,
    f.name ≠ flatName m.fullName ++ "." ++ g.name

/-- The names of a message and its fields, as the root sees them. -/
def innerPaths (m : Pool.Message) : List String :=
  flatName m.fullName :: m.fields.map fun g => flatName m.fullName ++ "." ++ g.name

/-- What stands before the first dot. -/
def stem (s : String) : List Char := s.toList.takeWhile (· != '.')

theorem stem_of_mem_innerPaths {m : Pool.Message} {s : String} (h : s ∈ innerPaths m) :
    stem s = (flatName m.fullName).toList := by
  have hall : ∀ c ∈ (flatName m.fullName).toList, (c != '.') = true := by
    intro c hc
    refine bne_iff_ne.mpr fun hdot => ?_
    exact dot_not_mem_flatName m.fullName (hdot ▸ hc)
  rcases List.mem_cons.mp h with rfl | h
  · rw [stem, ← List.append_nil (flatName m.fullName).toList, List.takeWhile_append_of_pos hall]
    simp
  · obtain ⟨g, -, rfl⟩ := List.mem_map.mp h
    rw [stem, String.append_assoc, String.toList_append, List.takeWhile_append_of_pos hall]
    simp [String.toList_append]

theorem nodup_innerPaths {m : Pool.Message} (h : (m.fields.map (·.name)).Nodup) :
    (innerPaths m).Nodup := by
  refine List.nodup_cons.mpr ⟨fun hmem => ?_, ?_⟩
  · obtain ⟨g, -, heq⟩ := List.mem_map.mp hmem
    have hlength := congrArg String.length heq
    simp only [String.length_append] at hlength
    have hdot : ".".length = 1 := rfl
    omega
  · have hinj : Function.Injective fun s => flatName m.fullName ++ "." ++ s :=
      fun a b hab => (String.append_right_inj _).mp hab
    have hmap := h.map hinj
    rwa [List.map_map] at hmap

/-- Messages whose names differ inside the root have different names there. -/
theorem nodup_flatMap_innerPaths {ms : List Pool.Message}
    (hfields : ∀ m ∈ ms, (m.fields.map (·.name)).Nodup) (hms : (ms.map (·.fullName)).Nodup) :
    (ms.flatMap innerPaths).Nodup ↔ ∀ m ∈ ms, ∀ n ∈ ms,
      flatName m.fullName = flatName n.fullName → m.fullName = n.fullName := by
  rw [List.nodup_flatMap]
  constructor
  · rintro ⟨-, hpairs⟩ m hm n hn hflat
    by_contra hne
    have hsymm : Std.Symm (Function.onFun List.Disjoint innerPaths) := ⟨fun _ _ h s hs hs' => h hs' hs⟩
    have hdisjoint := hpairs.forall hm hn fun heq => hne (congrArg (·.fullName) heq)
    exact hdisjoint List.mem_cons_self (hflat ▸ List.mem_cons_self)
  · intro hinj
    refine ⟨fun m hm => nodup_innerPaths (hfields m hm), ?_⟩
    have hnames := List.pairwise_map.mp hms
    refine hnames.imp_of_mem fun {m n} hm hn hne => ?_
    intro s hs hs'
    have hstem := (stem_of_mem_innerPaths hs).symm.trans (stem_of_mem_innerPaths hs')
    exact hne (hinj m hm n hn (String.toList_inj.mp hstem))

end RowStream.Shape

namespace RowStream.Table.Compile.Resolved

open Shape (Apart Other innerPaths flatName standalone)
open Pool (treeNames)

variable {top : Scope} {es : List Entry} {shape : Shape} {e : Entry} {ms : List Pool.Message}

/-- The names of a message of a table are different. -/
theorem nodup_names (h : Resolved .proto2 top es shape) (he : e ∈ es) :
    (e.scope.name :: (e.resolved .proto2).fields.map fun f =>
      Text.qualify e.scope.name f.name).Nodup := by
  refine (h.names rfl e he).sublist ?_
  have hfields : ((e.resolved .proto2).fields.map fun f => Text.qualify e.scope.name f.name) =
      (e.draft.fields.map fun f => (Text.qualify e.scope.name f.nameText, Pool.Role.field)).map
        (·.1) := by
    rw [h.registered.resolved_fields he (h.messageOf he).bounded, List.map_map, List.map_map]
    rfl
  rw [hfields, treeNames, Pool.ownNames, fullName_message, List.map_append, List.map_cons,
    List.map_append]
  exact List.sublist_append_of_sublist_left ((List.sublist_append_right _ _).cons_cons _)

theorem nodup_fieldNames (h : Resolved .proto2 top es shape) (he : e ∈ es) :
    ((e.resolved .proto2).fields.map (·.name)).Nodup := by
  have hnodup := (List.nodup_cons.mp (h.nodup_names he)).2
  rw [show (fun f : Pool.Field => Text.qualify e.scope.name f.name) =
    Text.qualify e.scope.name ∘ (·.name) from rfl, ← List.map_map] at hnodup
  exact hnodup.of_map _

/-- The names of the descriptor are different if those that the root sees are. -/
theorem nodup_standalone_iff (h : Resolved .proto2 top es shape) (hi : Inner .proto2 top es ms)
    (hname : top.name ≠ "") :
    ((treeNames "" (standalone top.name shape.message ms)).map (·.1)).Nodup ↔
      (shape.message.fields.map (·.name) ++ ms.flatMap innerPaths).Nodup := by
  have hinner (m : Pool.Message) :
      innerNames top.name m = (innerPaths m).map (Text.qualify top.name) := by
    have hne : Text.qualify top.name (flatName m.fullName) ≠ "" := by
      rw [Text.qualify_of_ne hname]
      simp
    simp only [innerNames, innerPaths, List.map_cons, List.map_map, List.cons.injEq, true_and]
    refine List.map_congr_left fun g _ => ?_
    rw [Text.qualify_of_ne hne, Text.qualify_of_ne hname, Function.comp, Text.qualify_of_ne hname]
    simp only [String.append_assoc]
  have hlist : (treeNames "" (standalone top.name shape.message ms)).map (·.1) =
      top.name :: (shape.message.fields.map (·.name) ++ ms.flatMap innerPaths).map
        (Text.qualify top.name) := by
    rw [h.treeNames_standalone hi, List.map_append, List.map_flatMap, List.map_map]
    exact congrArg _ (List.flatMap_congr fun m _ => hinner m)
  rw [hlist, List.nodup_cons, List.nodup_map_iff fun a b hab => Text.qualify_inj.mp hab]
  refine and_iff_right fun hmem => ?_
  obtain ⟨s, -, heq⟩ := List.mem_map.mp hmem
  have hlength := congrArg String.length heq
  rw [Text.qualify_of_ne hname] at hlength
  simp only [String.length_append] at hlength
  have hdot : ".".length = 1 := rfl
  omega

/-- The messages inside the root are the others of the shape. -/
theorem other_iff (h : Resolved .proto2 top es shape) (hi : Inner .proto2 top es ms)
    {m : Pool.Message} : shape.Other m ↔ m ∈ ms := by
  obtain ⟨e₀, -, hscope, hmessage⟩ := h.top
  have hfull : shape.message.fullName = top.name := by
    rw [hmessage, ← hscope]
    exact fullName_message e₀
  unfold Other
  rw [hfull, h.pool]
  constructor
  · rintro ⟨hmem, hne⟩
    obtain ⟨e, he, rfl⟩ := List.mem_map.mp hmem
    exact hi.mem_of e he fun heq => hne ((fullName_message e).trans heq)
  · intro hm
    obtain ⟨e, he, rfl, hlonger⟩ := hi.of_mem m hm
    refine ⟨List.mem_map_of_mem he, fun heq => ?_⟩
    rw [show e.scope.name = top.name from (fullName_message e).symm.trans heq] at hlonger
    exact Nat.lt_irrefl _ hlonger

/-- **The descriptor of a table stands alone exactly if its names stay apart.** -/
theorem standsAlone_iff_apart (h : Resolved .proto2 top es shape) (hi : Inner .proto2 top es ms) :
    (∃ t, Shape.ofDescriptor (standalone top.name shape.message ms) = .ok t) ↔ Apart shape := by
  obtain ⟨e₀, he₀, hscope, hmessage⟩ := h.top
  have hfull : shape.message.fullName = top.name := by
    rw [hmessage, ← hscope]
    exact fullName_message e₀
  have hfields : ∀ m ∈ ms, (m.fields.map (·.name)).Nodup := by
    intro m hm
    obtain ⟨e, he, rfl, -⟩ := hi.of_mem m hm
    exact h.nodup_fieldNames he
  have hroot : (shape.message.fields.map (·.name)).Nodup := hmessage ▸ h.nodup_fieldNames he₀
  rw [h.standsAlone_iff hi]
  constructor
  · rintro ⟨hnodup, hnamed⟩
    have hname : ∀ m, shape.Other m → top.name ≠ "" := fun m hm =>
      hnamed (List.ne_nil_of_mem ((h.other_iff hi).mp hm))
    have hsplit : ∀ m, shape.Other m →
        (ms.flatMap innerPaths).Nodup ∧
          ∀ f ∈ shape.message.fields, ∀ s ∈ innerPaths m, f.name ≠ s := by
      intro m hm
      obtain ⟨-, hinner, hapart⟩ :=
        List.nodup_append.mp ((h.nodup_standalone_iff hi (hname m hm)).mp hnodup)
      exact ⟨hinner, fun f hf s hs => hapart _ (List.mem_map_of_mem hf) s
        (List.mem_flatMap.mpr ⟨m, (h.other_iff hi).mp hm, hs⟩)⟩
    constructor
    case named => exact fun m hm => hfull ▸ hname m hm
    case messages =>
      exact fun m n hm hn => (Shape.nodup_flatMap_innerPaths hfields hi.nodup).mp (hsplit m hm).1
        m ((h.other_iff hi).mp hm) n ((h.other_iff hi).mp hn)
    case fields => exact fun m hm f hf => (hsplit m hm).2 f hf _ List.mem_cons_self
    case inner =>
      exact fun m hm f hf g hg => (hsplit m hm).2 f hf _
        (List.mem_cons_of_mem _ (List.mem_map_of_mem (f := fun g : Pool.Field =>
          flatName m.fullName ++ "." ++ g.name) hg))
  · intro hapart
    have hnamed : ms ≠ [] → top.name ≠ "" := by
      intro hne
      obtain ⟨m, hm⟩ := List.exists_mem_of_ne_nil ms hne
      exact hfull ▸ hapart.named m ((h.other_iff hi).mpr hm)
    refine ⟨?_, hnamed⟩
    by_cases hms : ms = []
    · -- without messages inside, the names are those that the table had
      rw [h.treeNames_standalone hi, hms, List.flatMap_nil, List.append_nil, hmessage, ← hscope]
      exact h.nodup_names he₀
    · rw [h.nodup_standalone_iff hi (hnamed hms), List.nodup_append]
      refine ⟨hroot, (Shape.nodup_flatMap_innerPaths hfields hi.nodup).mpr fun m hm n hn =>
        hapart.messages m n ((h.other_iff hi).mpr hm) ((h.other_iff hi).mpr hn), ?_⟩
      intro x hx s hs heq
      obtain ⟨f, hf, rfl⟩ := List.mem_map.mp hx
      obtain ⟨m, hm, hs⟩ := List.mem_flatMap.mp hs
      have hother := (h.other_iff hi).mpr hm
      rcases List.mem_cons.mp hs with hs | hs
      · exact hapart.fields m hother f hf (heq.trans hs)
      · obtain ⟨g, hg, hs⟩ := List.mem_map.mp hs
        exact hapart.inner m hother f hf g hg (heq.trans hs.symm)

end RowStream.Table.Compile.Resolved
