import Mathlib.Data.List.Forall2
import RowStream.Proofs.Fallible
import RowStream.Proofs.Message.Scalar
import RowStream.Proofs.Number.Integer
import RowStream.Row.Encoder

/-!
# Values of rows

How deep rows lie inside a value, and what becomes of a value that is no row in a field: a value of the
field's kind.

* `typed_of_toScalar`, `typed_of_toEnum`: coercions.
* `typed_of_plain`, `asMessage_eq_ok`: what the encoder makes of a value that is no row, and of one that
  is.
* `encodeFrom_eq_ok`: what it makes of a list of rows.
-/

namespace RowStream.Row

open Descriptor (Scalar)
open Message (Typed)
open Pool (Kind)

/-! ## How deep rows nest -/

mutual

/-- How deep rows lie inside the value. -/
def Value.nesting : Value → Nat
  | .list vs => itemsNesting vs
  | .struct columns => columnsNesting columns + 1
  | _ => 0

/-- How deep rows lie inside the items of a list. -/
def itemsNesting : List Value → Nat
  | [] => 0
  | v :: vs => max v.nesting (itemsNesting vs)

/-- How deep rows lie inside the values of columns. -/
def columnsNesting : List (String × Value) → Nat
  | [] => 0
  | (_, v) :: columns => max v.nesting (columnsNesting columns)

end

theorem nesting_le_items {v : Value} {vs : List Value} (h : v ∈ vs) :
    v.nesting ≤ itemsNesting vs := by
  induction vs with
  | nil => exact absurd h List.not_mem_nil
  | cons w vs ih =>
    rw [itemsNesting]
    rcases List.mem_cons.mp h with rfl | h
    · exact Nat.le_max_left _ _
    · exact Nat.le_trans (ih h) (Nat.le_max_right _ _)

theorem nesting_le_columns {name : String} {v : Value} {columns : List (String × Value)}
    (h : (name, v) ∈ columns) : v.nesting ≤ columnsNesting columns := by
  induction columns with
  | nil => exact absurd h List.not_mem_nil
  | cons c columns ih =>
    rw [columnsNesting]
    rcases List.mem_cons.mp h with rfl | h
    · exact Nat.le_max_left _ _
    · exact Nat.le_trans (ih h) (Nat.le_max_right _ _)

/-! ## Scalars -/

theorem inRange_eq_value {range : Integer.Range} {name : String} {wrap : Int → Message.Value} {n : Int}
    {w : Message.Value} (h : inRange range name wrap n = .value w) :
    range.has n = true ∧ w = wrap n := by
  unfold inRange at h
  split at h
  · rename_i hrange
    exact ⟨hrange, (Coerced.value.inj h).symm⟩
  · exact absurd h (by simp)

variable {convertDates : Bool} {v : Value} {w : Message.Value}

theorem toInt32_eq_value (h : toInt32 convertDates v = .value w) : ∃ n, w = .int32 n := by
  unfold toInt32 at h
  split at h
  · exact ⟨_, (inRange_eq_value h).2⟩
  · exact absurd h (by simp)

theorem toInt64_eq_value (h : toInt64 convertDates v = .value w) : ∃ n, w = .int64 n := by
  unfold toInt64 at h
  split at h
  · exact ⟨_, (inRange_eq_value h).2⟩
  · exact absurd h (by simp)

theorem toUInt32_eq_value (h : toUInt32 v = .value w) : ∃ n, w = .uint32 n := by
  cases v with
  | int k =>
    rw [toUInt32] at h
    exact ⟨_, (inRange_eq_value h).2⟩
  | _ => exact absurd h (by simp [toUInt32])

theorem toUInt64_eq_value (h : toUInt64 v = .value w) : ∃ n, w = .uint64 n := by
  cases v with
  | int k =>
    rw [toUInt64] at h
    exact ⟨_, (inRange_eq_value h).2⟩
  | _ => exact absurd h (by simp [toUInt64])

theorem toSingle_eq_value (h : toSingle v = .value w) : ∃ x, w = .float x := by
  cases v with
  | float _ | int _ => exact ⟨_, (Coerced.value.inj h).symm⟩
  | _ => exact absurd h (by simp [toSingle])

theorem toDouble_eq_value (h : toDouble v = .value w) : ∃ x, w = .double x := by
  cases v with
  | float _ | int _ => exact ⟨_, (Coerced.value.inj h).symm⟩
  | string s =>
    cases hs : Decimal.read (Text.trim s) with
    | none => simp [toDouble, hs, Coerced.ofOption] at h
    | some x =>
      simp only [toDouble, hs, Option.map_some, Coerced.ofOption, Coerced.value.injEq] at h
      exact ⟨x, h.symm⟩
  | _ => exact absurd h (by simp [toDouble])

theorem toText_eq_value (h : toText convertDates v = .value w) : ∃ s, w = .string s := by
  cases v with
  | string _ | int _ | float _ => exact ⟨_, (Coerced.value.inj h).symm⟩
  | date _ | datetime _ =>
    cases convertDates with
    | true => exact ⟨_, (Coerced.value.inj h).symm⟩
    | false => exact absurd h (by simp [toText])
  | _ => exact absurd h (by simp [toText])

theorem toBytes_eq_value (h : toBytes v = .value w) : ∃ b, w = .bytes b := by
  cases v with
  | bytes _ | string _ => exact ⟨_, (Coerced.value.inj h).symm⟩
  | _ => exact absurd h (by simp [toBytes])

/-- **A coercion gives a value of the type.** -/
theorem typed_of_toScalar {s : Scalar} (h : toScalar convertDates s v = .value w) :
    Typed (.scalar s) w := by
  cases s with
  | bool =>
    cases v with
    | bool b => exact Coerced.value.inj h ▸ .bool b
    | _ => exact absurd h (by simp [toScalar])
  | int32 => obtain ⟨n, rfl⟩ := toInt32_eq_value h; exact .int32 n
  | sint32 => obtain ⟨n, rfl⟩ := toInt32_eq_value h; exact .sint32 n
  | sfixed32 => obtain ⟨n, rfl⟩ := toInt32_eq_value h; exact .sfixed32 n
  | int64 => obtain ⟨n, rfl⟩ := toInt64_eq_value h; exact .int64 n
  | sint64 => obtain ⟨n, rfl⟩ := toInt64_eq_value h; exact .sint64 n
  | sfixed64 => obtain ⟨n, rfl⟩ := toInt64_eq_value h; exact .sfixed64 n
  | uint32 => obtain ⟨n, rfl⟩ := toUInt32_eq_value h; exact .uint32 n
  | fixed32 => obtain ⟨n, rfl⟩ := toUInt32_eq_value h; exact .fixed32 n
  | uint64 => obtain ⟨n, rfl⟩ := toUInt64_eq_value h; exact .uint64 n
  | fixed64 => obtain ⟨n, rfl⟩ := toUInt64_eq_value h; exact .fixed64 n
  | float => obtain ⟨x, rfl⟩ := toSingle_eq_value h; exact .float x
  | double => obtain ⟨x, rfl⟩ := toDouble_eq_value h; exact .double x
  | string => obtain ⟨t, rfl⟩ := toText_eq_value h; exact .string t
  | bytes => obtain ⟨b, rfl⟩ := toBytes_eq_value h; exact .bytes b

theorem typed_of_toEnum {e : Pool.Enum} (h : toEnum e v = .value w) (name : String) :
    Typed (.enum name) w := by
  cases v with
  | int n =>
    rw [toEnum] at h
    obtain ⟨-, rfl⟩ := inRange_eq_value h
    exact .enum name _
  | string s =>
    cases hs : e.number? s with
    | none => simp [toEnum, hs, Coerced.ofOption] at h
    | some n =>
      simp only [toEnum, hs, Option.map_some, Coerced.ofOption, Coerced.value.injEq] at h
      exact h ▸ .enum name n
  | _ => exact absurd h (by simp [toEnum])

/-- What comes of a coercion that is no fault is its value. -/
theorem finish_eq_ok {k : Kind} {path : String} {c : Coerced} :
    Encoder.finish path k v c = .ok w ↔ c = .value w := by
  cases c <;> simp [Encoder.finish]

/-- **What a plain value becomes in a field** is of the field's kind. -/
theorem typed_of_plain {p : Pool} {k : Kind} {path : String}
    (h : Encoder.plain p convertDates k path v = .ok w) : Typed k w := by
  cases k with
  | scalar s => exact typed_of_toScalar (finish_eq_ok.mp h)
  | enum name =>
    have hfound := finish_eq_ok.mp h
    dsimp only at hfound
    split at hfound
    · exact typed_of_toEnum hfound name
    · simp at hfound
  | message name => simp [Encoder.plain, Encoder.finish] at h
  | group name => simp [Encoder.plain, Encoder.finish] at h

/-- What a row becomes in a field: the message that is built for it. -/
theorem asMessage_eq_ok {p : Pool} {k : Kind} {path : String}
    {inner : Pool.Message → Except Encoder.Fault Message.Fields}
    (h : Encoder.asMessage p k path inner = .ok w) : ∃ n m fields,
      k.message? = some n ∧ p.find n = some m ∧ inner m = .ok fields ∧ w = .message fields := by
  unfold Encoder.asMessage at h
  cases hk : k.message? with
  | none => simp [hk] at h
  | some n =>
    cases hfind : p.find n with
    | none => simp [hk, hfind] at h
    | some m =>
      simp only [hk, hfind, map_eq_ok] at h
      obtain ⟨fields, hfields, rfl⟩ := h
      exact ⟨n, m, fields, rfl, hfind, hfields, rfl⟩

end RowStream.Row

namespace RowStream.Encoder

variable {e : Encoder} {rows : List Row} {out : List (List UInt8)}

/-- Rows that are accepted become one byte string each, in order. -/
theorem encodeFrom_eq_ok {k : Nat} (h : e.encodeFrom k rows = .ok out) :
    List.Forall₂ (fun row bytes => e.encodeRow row = .ok bytes) rows out := by
  induction rows generalizing k out with
  | nil => exact Except.ok.inj h ▸ .nil
  | cons row rows ih =>
    rw [encodeFrom] at h
    cases hrow : e.encodeRow row with
    | error fault => simp [hrow] at h
    | ok bytes =>
      simp only [hrow, map_eq_ok] at h
      obtain ⟨rest, hrest, rfl⟩ := h
      exact .cons hrow (ih hrest)

end RowStream.Encoder
