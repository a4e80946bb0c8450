import RowStream.Message.Wire
import RowStream.Proofs.Wire.Message

/-!
# Scalars survive as payloads

The values of a scalar type or an enum are written as payloads of one shape, which give them back
(`Typed`). A repeated field of a type that can be packed writes its values one after the other, each as
long as its payload, and they are read back from the run one after the other.

* `unzigzag_zigzag`: folded integers.
* `ofPayload_scalarPayload`: one value.
* `readPacked_flatMap`: the values of a packed run.
-/

namespace RowStream.Message

open Pool (Kind)
open Wire (Payload)

/-- The value is one of the scalar type, or a number of the enum. -/
inductive Typed : Kind → Value → Prop
  | bool (b : Bool) : Typed (.scalar .bool) (.bool b)
  | int32 (n : Int32) : Typed (.scalar .int32) (.int32 n)
  | sint32 (n : Int32) : Typed (.scalar .sint32) (.int32 n)
  | sfixed32 (n : Int32) : Typed (.scalar .sfixed32) (.int32 n)
  | int64 (n : Int64) : Typed (.scalar .int64) (.int64 n)
  | sint64 (n : Int64) : Typed (.scalar .sint64) (.int64 n)
  | sfixed64 (n : Int64) : Typed (.scalar .sfixed64) (.int64 n)
  | uint32 (n : UInt32) : Typed (.scalar .uint32) (.uint32 n)
  | fixed32 (n : UInt32) : Typed (.scalar .fixed32) (.uint32 n)
  | uint64 (n : UInt64) : Typed (.scalar .uint64) (.uint64 n)
  | fixed64 (n : UInt64) : Typed (.scalar .fixed64) (.uint64 n)
  | float (x : Single) : Typed (.scalar .float) (.float x)
  | double (x : Double) : Typed (.scalar .double) (.double x)
  | string (s : String) : Typed (.scalar .string) (.string s)
  | bytes (b : List UInt8) : Typed (.scalar .bytes) (.bytes b)
  | enum (name : String) (n : Int32) : Typed (.enum name) (.enum n)

variable {k : Kind} {v : Value} {vs : List Value}

/-! ## Integers -/

/-- **A folded integer is unfolded again.** -/
theorem unzigzag_zigzag (n : Int) : unzigzag (zigzag n) = n := by
  unfold zigzag unzigzag
  split <;> split <;> omega

theorem zigzag_lt {n : Int} {half : Nat} (hlow : -(half : Int) ≤ n) (hhigh : n < half) :
    zigzag n < 2 * half := by
  unfold zigzag
  split <;> omega

theorem ofInt_unzigzag32 (n : Int32) :
    Int32.ofInt (unzigzag (UInt64.ofNat (zigzag n.toInt)).toUInt32.toNat) = n := by
  have hlt : zigzag n.toInt < 2 * 2147483648 := zigzag_lt n.le_toInt n.toInt_lt
  have hnat : (UInt64.ofNat (zigzag n.toInt)).toUInt32.toNat = zigzag n.toInt := by
    rw [UInt64.toNat_toUInt32, UInt64.toNat_ofNat']
    omega
  rw [hnat, unzigzag_zigzag, Int32.ofInt_toInt]

theorem ofInt_unzigzag64 (n : Int64) :
    Int64.ofInt (unzigzag (UInt64.ofNat (zigzag n.toInt)).toNat) = n := by
  have hlt : zigzag n.toInt < 2 * 9223372036854775808 := zigzag_lt n.le_toInt n.toInt_lt
  have hnat : (UInt64.ofNat (zigzag n.toInt)).toNat = zigzag n.toInt := by
    rw [UInt64.toNat_ofNat']
    omega
  rw [hnat, unzigzag_zigzag, Int64.ofInt_toInt]

/-! ## One value -/

/-- **A scalar is read back from its payload.** -/
theorem ofPayload_scalarPayload (h : Typed k v) : ofPayload k (scalarPayload k v) = some v := by
  cases h with
  | bool b => cases b <;> rfl
  | int32 n => exact congrArg (some ∘ Value.int32) (Wire.toInt32_toInt64 n)
  | sint32 n => exact congrArg (some ∘ Value.int32) (ofInt_unzigzag32 n)
  | sfixed32 n => exact congrArg (some ∘ Value.int32) (Int32.toInt32_toUInt32 n)
  | int64 n => exact congrArg (some ∘ Value.int64) (Int64.toInt64_toUInt64 n)
  | sint64 n => exact congrArg (some ∘ Value.int64) (ofInt_unzigzag64 n)
  | sfixed64 n => exact congrArg (some ∘ Value.int64) (Int64.toInt64_toUInt64 n)
  | uint32 n => exact congrArg (some ∘ Value.uint32) (UInt32.toUInt32_toUInt64 n)
  | fixed32 n => rfl
  | uint64 n => rfl
  | fixed64 n => rfl
  | float x => rfl
  | double x => rfl
  | string s => exact congrArg (Option.map Value.string) (Utf8.decode_encode s)
  | bytes b => rfl
  | enum name n => exact congrArg (some ∘ Value.enum) (Wire.toInt32_toInt64 n)

theorem shape_scalarPayload (h : Typed k v) : (scalarPayload k v).shape = payloadShape k := by
  cases h <;> rfl

theorem message?_of_typed (h : Typed k v) : k.message? = none := by
  cases h <;> rfl

/-- A scalar is no group, and what is no run of bytes can always be written. -/
theorem plain_scalarPayload (h : Typed k v)
    (hlength : ∀ b, scalarPayload k v = .bytes b → b.length < twoTo 64) :
    (scalarPayload k v).Plain := by
  cases h with
  | string s => exact hlength _ rfl
  | bytes b => exact hlength _ rfl
  | _ => exact trivial

theorem plain_of_packable (h : Typed k v) (hk : k.isPackable = true) : (scalarPayload k v).Plain := by
  cases h with
  | string | bytes => exact absurd hk (by decide)
  | _ => exact trivial

/-! ## Packed runs -/

theorem packedBytes_eq_body (h : Typed k v) (hk : k.isPackable = true) :
    packedBytes k v = (scalarPayload k v).body := by
  cases h with
  | string | bytes => exact absurd hk (by decide)
  | _ => rfl

theorem body_ne_nil {p : Payload} (h : p.Plain) : p.body ≠ [] := by
  cases p with
  | varint n => exact Wire.encodeVarint_ne_nil _
  | fixed64 n => exact List.ne_nil_of_length_pos (by simp [Payload.body])
  | bytes b => exact List.append_ne_nil_of_left_ne_nil (Wire.encodeVarint_ne_nil _) _
  | group _ => exact h.elim
  | fixed32 n => exact List.ne_nil_of_length_pos (by simp [Payload.body])

/-- **The values of a packed run are read back.** -/
theorem readPacked_flatMap (hk : k.isPackable = true) (h : ∀ v ∈ vs, Typed k v) {count : Nat}
    (hcount : vs.length ≤ count) :
    readPacked k count (vs.flatMap (packedBytes k)) = some vs := by
  induction vs generalizing count with
  | nil => rw [List.flatMap_nil, readPacked]
  | cons v vs ih =>
    obtain ⟨hv, hrest⟩ := List.forall_mem_cons.mp h
    obtain ⟨count, rfl⟩ : ∃ k, count = k + 1 :=
      ⟨count - 1, by simp only [List.length_cons] at hcount; omega⟩
    have hp := plain_of_packable hv hk
    have hread := Wire.decodePlain_body hp (vs.flatMap (packedBytes k))
    rw [shape_scalarPayload hv] at hread
    rw [List.flatMap_cons, packedBytes_eq_body hv hk]
    -- the run is not empty, so there is a first byte to start with
    cases hbytes : (scalarPayload k v).body ++ vs.flatMap (packedBytes k) with
    | nil => exact absurd (List.append_eq_nil_iff.mp hbytes).1 (body_ne_nil hp)
    | cons b bytes =>
      rw [hbytes] at hread
      rw [readPacked, hread]
      simp only [Option.bind_eq_bind, Option.bind_some, ofPayload_scalarPayload hv,
        ih hrest (Nat.le_of_succ_le_succ hcount)]
      rfl

/-- A packed run has a byte for every value. -/
theorem length_le_flatMap (hk : k.isPackable = true) (h : ∀ v ∈ vs, Typed k v) :
    vs.length ≤ (vs.flatMap (packedBytes k)).length := by
  induction vs with
  | nil => exact Nat.zero_le _
  | cons v vs ih =>
    obtain ⟨hv, hrest⟩ := List.forall_mem_cons.mp h
    have hpos := List.length_pos_iff.mpr (body_ne_nil (plain_of_packable hv hk))
    have hle := ih hrest
    rw [List.flatMap_cons, packedBytes_eq_body hv hk, List.length_append, List.length_cons]
    omega

end RowStream.Message
