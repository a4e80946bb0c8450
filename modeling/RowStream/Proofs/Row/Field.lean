import RowStream.Proofs.Message.Fields
import RowStream.Row.Encoder

/-!
# How a value goes into a field

The messages of tables are simple: no two fields stand in one choice, and none is the entry of a map.
So a repeated field holds a list, and to put a value into a field is to set its number. Only a field
without presence stays unset when its value is the default; these are the repeated ones, whose default is
the empty list.
-/

namespace RowStream.Encoder

open Pool (Field)
open Message (Fields Unbound)

variable {p : Pool} {m : Pool.Message} {f : Field}

/-- Where messages are no map entries, repeated fields hold lists. -/
theorem isList_eq (h : ∀ m, f.kind.message?.bind p.find = some m → m.isMapEntry = false) :
    p.isList f = f.isRepeated := by
  have hmap : p.isMap f = false := by
    unfold Pool.isMap
    cases hname : f.kind.message? with
    | none => simp
    | some a =>
      cases hfind : p.find a with
      | none => simp [hfind]
      | some m => simp [hfind, h m (by rw [hname, Option.bind_some, hfind])]
  simp [Pool.isList, hmap]

/-- What is put into a message. -/
theorem put_eq (hm : Unbound m) (hf : f ∈ m.fields) (hp : f.presence = !f.isRepeated)
    (v : Message.Value) (fields : Fields) : put p m f v fields =
      if f.isRepeated && v.sameScalar (.list []) then fields.erase f.number
      else fields.set f.number v := by
  rw [put, hp, Message.put_eq hm hf]
  cases hr : f.isRepeated with
  | false => rfl
  | true => simp [Pool.default, hr]

end RowStream.Encoder
