import Mathlib
import RowStream.Proofs.RowWriter.Run
import RowStream.Proofs.Shape.Apart

/-!
# Table schemas that a row writer can switch to

A schema that compiles always has a descriptor for requests: names get longer along STRUCT columns, so
no message comes back to itself while the messages are moved into the root. But the root then holds two
sorts of names, those of its fields and those of the messages, and nothing keeps them apart. The column
`root_a` beside the STRUCT column `a` has the name that the message of `a` gets, and the descriptor is
refused.

* `switches_iff_apart`: a schema that compiles is switched to exactly if its names stay apart, and an
  event that reports any other one is taken with a fault.
* `names_meet`: a schema that compiles and is never switched to.
-/

namespace RowStream.Stream.RowWriter

open Shape (Apart)

/-- A schema that compiles has a descriptor for requests. -/
theorem writerDescriptor_eq_ok {s : Table.Schema} {scope : String} {shape : Shape}
    (h : Shape.ofTable s scope .proto2 = .ok shape) :
    ∃ d, Shape.writerDescriptor s scope .proto2 = .ok d ∧
      ((∃ t, Shape.ofDescriptor d = .ok t) ↔ Apart shape) := by
  obtain ⟨es, hfiles, hr⟩ := Table.Compile.resolved_of_ofTable h
  obtain ⟨ms, hi, hinline⟩ := hr.inline_eq hfiles
  refine ⟨_, ?_, hr.standsAlone_iff_apart hi⟩
  rw [Shape.writerDescriptor, h]
  exact hinline

/-- **What becomes of a schema that compiles.** It has a descriptor for requests, and this can be used
exactly if the names in it stay apart. Then a row writer switches to it, also when the service reports
it; otherwise it keeps what it has, and the report ends in a fault. -/
theorem switches_iff_apart {s : Table.Schema} {scope : String} {shape : Shape}
    (h : Shape.ofTable s scope .proto2 = .ok shape) :
    ∃ d, Shape.writerDescriptor s scope .proto2 = .ok d ∧
      ((∃ t, Shape.ofDescriptor d = .ok t) ↔ Apart shape) ∧
      (scope = rootScope → ∀ (w : RowWriter) (c : Connection) (es : List Event),
        (Apart shape → ∃ w' c', w.advance.setTableSchema c s = .ok (w', c') ∧
          Shape.ofDescriptor d = .ok w'.encoder.shape ∧ w'.writer.descriptor = d ∧
          w.applyAll c (.schemaUpdated s :: es) = w'.applyAll c' es) ∧
        (¬ Apart shape → ∃ e, w.setTableSchema c s = .error e ∧
          w.applyAll c (.schemaUpdated s :: es) = (some e, w.advance, c))) := by
  obtain ⟨d, hd, hiff⟩ := writerDescriptor_eq_ok h
  refine ⟨d, hd, hiff, ?_⟩
  rintro rfl w c es
  constructor
  · intro hapart
    obtain ⟨t, ht⟩ := hiff.mpr hapart
    have hset := setDescriptor_eq_ok (w := w.advance) (c := c) |>.mpr ⟨t, ht, rfl, rfl⟩
    rw [← setTableSchema_eq hd] at hset
    refine ⟨_, _, hset, ht, ?_, by rw [applyAll, hset]⟩
    unfold Writer.setDescriptor
    split
    · rename_i heq
      exact heq.symm
    · rfl
  · intro hmeet
    have hrefused : ∀ t, Shape.ofDescriptor d ≠ .ok t := fun t ht => hmeet (hiff.mp ⟨t, ht⟩)
    cases hof : Shape.ofDescriptor d with
    | ok t => exact absurd hof (hrefused t)
    | error e =>
      have hset (w : RowWriter) : w.setTableSchema c s = .error e := by
        rw [setTableSchema_eq hd, setDescriptor, hof]
        rfl
      exact ⟨e, hset w, by rw [applyAll, hset w.advance]⟩

/-- The schema of the STRUCT column `a` and the column `root_b`. -/
def apartSchema : Table.Schema where
  columns := [{ name := "a", type := 4, mode := 3, columns := [{ name := "x", type := 2 }] },
    { name := "root_b", type := 2 }]

/-- Names that stay apart: a row writer switches to the schema whenever it is reported. -/
theorem names_apart :
    (∃ shape, Shape.ofTable apartSchema rootScope .proto2 = .ok shape ∧ Apart shape) ∧
      ∀ (w : RowWriter) (c : Connection), ∃ w' c',
        w.advance.setTableSchema c apartSchema = .ok (w', c') ∧
          w.applyAll c [.schemaUpdated apartSchema] = (none, w', c') := by
  have hcompiles : (Shape.ofTable apartSchema rootScope .proto2).isOk = true := by cbv
  have hstands : ((Shape.writerDescriptor apartSchema rootScope .proto2).bind
      Shape.ofDescriptor).isOk = true := by cbv
  obtain ⟨shape, hok⟩ := isOk_iff.mp hcompiles
  obtain ⟨d, hd, hiff, hswitch⟩ := switches_iff_apart hok
  rw [hd] at hstands
  have hapart := hiff.mp (isOk_iff.mp hstands)
  refine ⟨⟨shape, hok, hapart⟩, fun w c => ?_⟩
  obtain ⟨w', c', hset, -, -, happly⟩ := (hswitch rfl w c []).1 hapart
  exact ⟨w', c', hset, happly.trans (by rw [applyAll])⟩

/-- The schema of the STRUCT column `a` and the column `root_a`. -/
def metSchema : Table.Schema where
  columns := [{ name := "a", type := 4, columns := [{ name := "x", type := 2 }] },
    { name := "root_a", type := 2 }]

/-- **Two names that meet.** The schema compiles and has a descriptor for requests, which is refused
because a field and a message in it are both called `root.root_a`; no row writer switches to it. -/
theorem names_meet :
    (∃ shape, Shape.ofTable metSchema rootScope .proto2 = .ok shape) ∧
    (∃ d, Shape.writerDescriptor metSchema rootScope .proto2 = .ok d ∧
      Shape.ofDescriptor d = .error (.pool (.definedTwice "root.root_a"))) ∧
    ∀ (w : RowWriter) (c : Connection),
      w.setTableSchema c metSchema = .error (.pool (.definedTwice "root.root_a")) ∧
      w.applyAll c [.schemaUpdated metSchema] =
        (some (.pool (.definedTwice "root.root_a")), w.advance, c) := by
  refine ⟨⟨_, by cbv⟩, ⟨_, by cbv, by cbv⟩, fun w c => ⟨by cbv, by cbv⟩⟩

end RowStream.Stream.RowWriter
