import RowStream.Proofs.Row.Built
import RowStream.Proofs.Shape.Standalone

/-!
# Rows lose nothing by the schema of a table

The descriptor that stands alone for a table has no maps, and no field of it stands in a choice or is
marked as present, so nothing that a row gives to a repeated field is lost. Only a descriptor that comes
from elsewhere can lose a value.

* `listing_standalone`: the messages of such a descriptor.
* `keeps_of_table`: rows of any sort.
-/

namespace RowStream.Table.Compile.Resolved

open Descriptor (Dialect)
open Pool (plainMessages)
open Row (Listing)
open Shape (bare inlined standalone)

variable {dialect : Dialect} {top : Scope} {es : List Entry} {shape : Shape} {ms : List Pool.Message}

/-- What the root of a table resolves to: the messages of its scopes, without options. -/
theorem exists_of_mem_plainMessages (h : Resolved dialect top es shape) (hi : Inner dialect top es ms)
    {m : Pool.Message} (hm : m ∈ plainMessages .proto2 (standalone top.name shape.message ms)) :
    m.descriptor.options = none ∧ ∃ e ∈ es, ∀ g ∈ m.fields,
      ∃ f ∈ (e.resolved dialect).fields, inlined top.name f = g := by
  have hof {e : Entry} (he : e ∈ es) {scope : String} {d : Descriptor.Message}
      (hfields : d.fields = (bare top.name (e.resolved dialect)).fields)
      (hoptions : d.options = none) :
      (Pool.plainMessage .proto2 scope d).descriptor.options = none ∧ ∃ e ∈ es,
        ∀ g ∈ (Pool.plainMessage .proto2 scope d).fields,
          ∃ f ∈ (e.resolved dialect).fields, inlined top.name f = g := by
    refine ⟨hoptions, e, he, fun g hg => ?_⟩
    rw [Pool.plainMessage, List.mem_mergeSort, hfields, bare, List.map_map] at hg
    exact List.mem_map.mp hg
  obtain ⟨e₀, he₀, -, hmessage⟩ := h.top
  rcases List.mem_cons.mp hm with rfl | hm
  · exact hof he₀ (by rw [hmessage]; rfl) (by rw [hmessage]; rfl)
  · obtain ⟨d, hd, rfl⟩ := List.mem_map.mp hm
    obtain ⟨n, hn, rfl⟩ := List.mem_map.mp hd
    obtain ⟨e, he, rfl, -⟩ := hi.of_mem n hn
    exact hof he rfl rfl

/-- **The messages of a table's descriptor** have no maps, and no repeated field with presence. -/
theorem listing_standalone (h : Resolved dialect top es shape) (hi : Inner dialect top es ms)
    {p : Pool} (hp : p.messages = plainMessages .proto2 (standalone top.name shape.message ms)) :
    ∀ m ∈ p.messages, Listing p m := by
  intro m hm g hg hrepeated
  obtain ⟨-, e, he, hfields⟩ := h.exists_of_mem_plainMessages hi (hp ▸ hm)
  obtain ⟨f, hf, rfl⟩ := hfields g hg
  have hof := h.inlineOf_of_mem he hf
  constructor
  · rw [Pool.isMap, hrepeated, Bool.true_and]
    split
    · split
      · rename_i name _ n hn
        obtain ⟨hoptions, -⟩ := h.exists_of_mem_plainMessages hi (hp ▸ (Pool.mem_of_find hn).1)
        rw [Pool.Message.isMapEntry, Descriptor.Message.isMapEntry, hoptions]
      · rfl
    · rfl
  · rw [Pool.Field.isRepeated, hof.label] at hrepeated
    exact .inr (by rw [hof.presence, Pool.Field.isRepeated, hrepeated, Bool.not_true])

end RowStream.Table.Compile.Resolved

namespace RowStream.Shape

/-- **No row loses anything** by the descriptor of a table. -/
theorem keeps_of_table {s : Table.Schema} {scope : String} {dialect : Descriptor.Dialect}
    {d : Descriptor.Message} {e : Encoder} (h : writerDescriptor s scope dialect = .ok d)
    (he : ofDescriptor d = .ok e.shape) (row : Row) : e.Keeps row := by
  unfold writerDescriptor at h
  split at h
  case h_2 => exact absurd h (by simp)
  rename_i t ht
  obtain ⟨es, hfiles, hr⟩ := Table.Compile.resolved_of_ofTable ht
  obtain ⟨ms, hi, hinline⟩ := hr.inline_eq hfiles
  obtain rfl := Except.ok.inj (hinline.symm.trans h)
  obtain ⟨-, -, hshape⟩ :=
    (ofDescriptor_eq_ok (hr.simple_standalone hi) hr.undotted_standalone).mp he
  have hlisting := hr.listing_standalone hi (p := e.shape.pool) (congrArg (·.pool.messages) hshape)
  have hmem : e.shape.message ∈ e.shape.pool.messages := by
    rw [hshape]
    exact List.mem_cons_self
  exact Row.columnsLossless_of_listing (fun n m hn => hlisting m (Pool.mem_of_find hn).1) row
    (hlisting _ hmem)

end RowStream.Shape
