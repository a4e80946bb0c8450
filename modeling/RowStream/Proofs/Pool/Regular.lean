import RowStream.Proofs.Message.RoundTrip
import RowStream.Proofs.Pool.Defined

/-!
# The messages of any pool

Whatever the files declare, what resolves can be told apart on the wire: a field has a number that a key
can hold and that no sibling has, and is packed only if it is repeated and of a type that can be. So every
message of a pool is regular, those nested in others included, and so is that of every shape.

* `sound_of_field`: one field.
* `regular_of_resolvedIn`: a message.
* `regular_of_ofFiles`: pools, and shapes.
-/

namespace RowStream

namespace Pool

open RowStream.Message (Regular)

/-- The field has a number for keys, and is packed only if it can be. -/
structure Sound (f : Field) : Prop where
  positive : 1 ≤ f.number
  bounded : f.number < twoTo 29
  packed : f.packed = true → f.isRepeated = true ∧ f.kind.isPackable = true

variable {s : Scope} {message : String} {oneofs : Nat} {path : List Nat}

/-- **A field that resolves** can be written. -/
theorem sound_of_field {f : Descriptor.Field} {g : Field}
    (h : s.field message oneofs path f = .ok g) : Sound g := by
  rw [Scope.field, refuse_eq_ok] at h
  simp only [Bool.not_eq_true, Bool.not_eq_false', bind_eq_ok, pure_eq_ok] at h
  obtain ⟨hnumber, kind, -, value, -, oneof, -, rfl⟩ := h
  obtain ⟨hlow, hhigh, -⟩ := of_decide_eq_true hnumber
  have hlow : (1 : Int) ≤ (f.number.getD 0).toInt := Int32.le_iff_toInt_le.mp hlow
  have hhigh : (f.number.getD 0).toInt ≤ 536870911 := Int32.le_iff_toInt_le.mp hhigh
  constructor
  case positive =>
    change 1 ≤ (f.number.getD 0).toInt.toNat
    omega
  case bounded =>
    change (f.number.getD 0).toInt.toNat < 536870912
    omega
  case packed =>
    intro hpacked
    simp only [isPacked, Bool.and_eq_true] at hpacked
    exact hpacked.1

/-- **A message that resolves field by field** is regular. -/
theorem regular_of_resolvedIn {m : Message} (h : ResolvedIn s m) : Regular m := by
  have hall : ∀ f ∈ m.fields, Sound f := h.forall_mem fun _ _ _ _ hg => sound_of_field hg
  constructor
  case distinct => exact h.distinct
  case positive => exact fun f hf => (hall f hf).positive
  case bounded => exact fun f hf => (hall f hf).bounded
  case packed => exact fun f hf => (hall f hf).packed

/-- **The messages of a pool** are regular. -/
theorem regular_of_ofFiles {files : List Descriptor.File} {p : Pool} (h : ofFiles files = .ok p) :
    ∀ m ∈ p.messages, Regular m := fun m hm =>
  let ⟨_, hs⟩ := resolved_of_ofFiles h m hm
  regular_of_resolvedIn hs

end Pool

namespace Shape

open RowStream.Message (Regular)

/-- The message of a shape, and all that can be found in its pool. -/
theorem regular_of_ofFiles {files : List Descriptor.File} {name : String} {shape : Shape}
    (h : ofFiles files name = .ok shape) :
    (∀ n m, shape.pool.find n = some m → Regular m) ∧ Regular shape.message := by
  unfold ofFiles at h
  split at h
  · exact absurd h (by simp)
  · rename_i pool hpool
    split at h
    · rename_i m hm
      obtain rfl := Except.ok.inj h
      have hregular := Pool.regular_of_ofFiles hpool
      exact ⟨fun n o ho => hregular o (Pool.mem_of_find ho).1, hregular m (List.mem_of_find?_eq_some hm)⟩
    · exact absurd h (by simp)

end Shape

end RowStream
