import Mathlib
import RowStream.Proofs.Fallible
import RowStream.Proofs.Row.Place
import RowStream.Proofs.Row.Value

/-!
# Rows with dates, and rows with nulls

To convert dates only adds rows that are taken: without the conversion every date, date and time and
instant is refused wherever it stands, and no other value asks for it. So a row that is taken without it
becomes the same with it, and a row that has no dates fares alike, faults included (`Carries`).

A column that is null and has a field is passed over, so it can be left out of a row, or of any row inside
(`LeavesOut`), and no result changes. One that has no field is a fault, null or not.

* `build_carries`: the columns of a row, without and with the conversion.
* `LeavesOut.build_eq`: a row with one null less.
* `conservative_and_null_absent`: lists of rows.
-/

namespace RowStream.Row

open Encoder (Fault asMessage build fieldValue items plain single)
open Pool (Field Kind)

/-! ## Dates -/

/-- A date, a date and time, or an instant. -/
def Value.isDate : Value → Bool
  | .date _ | .datetime _ | .timestamp _ => true
  | _ => false

mutual

/-- No dates in the value, at any depth. -/
def Value.dateless : Value → Bool
  | .list vs => itemsDateless vs
  | .struct columns => columnsDateless columns
  | .date _ | .datetime _ | .timestamp _ => false
  | _ => true

/-- No dates in the items of a list. -/
def itemsDateless : List Value → Bool
  | [] => true
  | v :: vs => v.dateless && itemsDateless vs

/-- No dates in the values of columns. -/
def columnsDateless : List (String × Value) → Bool
  | [] => true
  | (_, v) :: columns => v.dateless && columnsDateless columns

end

variable {p : Pool} {k : Kind} {path : String} {v : Value}

theorem toScalar_of_isDate (h : v.isDate = true) (s : Descriptor.Scalar) :
    toScalar false s v = .misfit := by
  cases v with
  | date _ | datetime _ | timestamp _ => cases s <;> rfl
  | _ => exact absurd h (by simp [Value.isDate])

theorem toScalar_of_not_isDate (h : v.isDate = false) (s : Descriptor.Scalar) :
    toScalar false s v = toScalar true s v := by
  cases v with
  | date _ | datetime _ | timestamp _ => exact absurd h (by simp [Value.isDate])
  | string text => cases s <;> simp only [toScalar, toInt32, toInt64, toText, Value.integer?]
  | _ => cases s <;> rfl

/-- Without the conversion a date fits no field. -/
theorem plain_of_isDate (h : v.isDate = true) :
    plain p false k path v = .error (.mismatch path k.name v.kindName) := by
  cases k with
  | scalar s =>
    simp only [plain, toScalar_of_isDate h]
    rfl
  | enum name =>
    have henum (e : Pool.Enum) : toEnum e v = .misfit := by
      cases v with
      | date _ | datetime _ | timestamp _ => rfl
      | _ => exact absurd h (by simp [Value.isDate])
    cases he : p.enum? name <;> simp only [plain, he, henum] <;> rfl
  | message name | group name => rfl

/-- No other value asks for the conversion. -/
theorem plain_of_not_isDate (h : v.isDate = false) :
    plain p false k path v = plain p true k path v := by
  cases k with
  | scalar s => simp only [plain, toScalar_of_not_isDate h]
  | enum name | message name | group name => rfl

/-! ## Without the conversion and with it -/

/-- The second outcome is the first one, if that is no fault, and if the outcomes are to be the `same`, in
any case. -/
def Carries (same : Prop) {ε α : Type} (x y : Except ε α) : Prop :=
  (∀ a, x = .ok a → y = .ok a) ∧ (same → x = y)

namespace Carries

variable {same : Prop} {ε α β : Type} {x y : Except ε α}

theorem refl (x : Except ε α) : Carries same x x := ⟨fun _ h => h, fun _ => rfl⟩

theorem bind {f g : α → Except ε β} (h : Carries same x y) (hfg : ∀ a, Carries same (f a) (g a)) :
    Carries same (x >>= f) (y >>= g) := by
  cases x with
  | ok a =>
    rw [h.1 a rfl]
    exact hfg a
  | error e => exact ⟨fun _ he => absurd he (by simp [Bind.bind, Except.bind]), fun hs => h.2 hs ▸ rfl⟩

theorem map {f : α → β} (h : Carries same x y) : Carries same (x.map f) (y.map f) := by
  cases x with
  | ok a =>
    rw [h.1 a rfl]
    exact .refl _
  | error e => exact ⟨fun _ he => absurd he (by simp [Except.map]), fun hs => h.2 hs ▸ rfl⟩

end Carries

variable {same : Prop}

theorem plain_carries (h : same → v.dateless = true) :
    Carries same (plain p false k path v) (plain p true k path v) := by
  cases hdate : v.isDate with
  | false =>
    rw [plain_of_not_isDate hdate]
    exact .refl _
  | true =>
    have hdated : v.dateless = false := by
      cases v with
      | date _ | datetime _ | timestamp _ => rw [Value.dateless]
      | _ => exact absurd hdate (by simp [Value.isDate])
    rw [plain_of_isDate hdate]
    exact ⟨fun _ hok => absurd hok (by simp), fun hs => absurd (h hs) (by simp [hdated])⟩

theorem asMessage_carries {inner inner' : Pool.Message → Except Fault Message.Fields}
    (h : ∀ m, Carries same (inner m) (inner' m)) :
    Carries same (asMessage p k path inner) (asMessage p k path inner') := by
  unfold asMessage
  cases k.message? with
  | none => exact .refl _
  | some name =>
    cases hfind : p.find name with
    | none => simp only [hfind]; exact .refl _
    | some m => simp only [hfind]; exact (h m).map

mutual

/-- One value in a field of a kind. -/
theorem single_carries : ∀ (v : Value) {k : Kind} {path : String}, (same → v.dateless = true) →
    Carries same (single p false k path v) (single p true k path v)
  | .struct columns, _, _, h => by
    simp only [single]
    exact asMessage_carries fun m => build_carries columns h
  | .null, _, _, h | .bool _, _, _, h | .int _, _, _, h | .float _, _, _, h | .string _, _, _, h
  | .bytes _, _, _, h | .date _, _, _, h | .datetime _, _, _, h | .timestamp _, _, _, h
  | .list _, _, _, h => by
    simp only [single]
    exact plain_carries h

/-- The items of a list. -/
theorem items_carry : ∀ (vs : List Value) {k : Kind} {path : String},
    (same → itemsDateless vs = true) →
      Carries same (items p false k path vs) (items p true k path vs)
  | [], _, _, _ => .refl _
  | v :: vs, _, _, h => by
    have hboth (hs : same) : v.dateless = true ∧ itemsDateless vs = true :=
      Bool.and_eq_true_iff.mp (h hs)
    simp only [items]
    exact (single_carries v fun hs => (hboth hs).1).bind fun _ =>
      (items_carry vs fun hs => (hboth hs).2).bind fun _ => .refl _

/-- A value in a field. -/
theorem fieldValue_carries : ∀ (v : Value) {f : Field} {path : String}, (same → v.dateless = true) →
    Carries same (fieldValue p false f path v) (fieldValue p true f path v)
  | .null, _, _, _ => .refl _
  | .list vs, _, _, h => by
    simp only [fieldValue]
    split
    · exact (items_carry vs h).map
    · exact .refl _
  | .struct columns, _, _, h => by
    simp only [fieldValue]
    split
    · exact .refl _
    · exact (asMessage_carries fun m => build_carries columns h).map
  | .bool _, _, _, h | .int _, _, _, h | .float _, _, _, h | .string _, _, _, h | .bytes _, _, _, h
  | .date _, _, _, h | .datetime _, _, _, h | .timestamp _, _, _, h => by
    simp only [fieldValue]
    split
    · exact .refl _
    · exact (plain_carries h).map

/-- **The columns of a row**, without the conversion of dates and with it. -/
theorem build_carries : ∀ (columns : List (String × Value)) {m : Pool.Message} {outer : String}
    {done : Message.Fields}, (same → columnsDateless columns = true) →
      Carries same (build p false m outer done columns) (build p true m outer done columns)
  | [], _, _, _, _ => .refl _
  | (name, v) :: columns, m, outer, done, h => by
    have hboth (hs : same) : v.dateless = true ∧ columnsDateless columns = true :=
      Bool.and_eq_true_iff.mp (h hs)
    simp only [build]
    cases m.field? name with
    | none => exact .refl _
    | some f =>
      refine (fieldValue_carries v fun hs => (hboth hs).1).bind fun value => ?_
      cases value with
      | none => exact build_carries columns fun hs => (hboth hs).2
      | some value => exact build_carries columns fun hs => (hboth hs).2

end

/-! ## Nulls -/

/-- The second row is the first without one column that is null and has a field, of the row or of one
inside. -/
inductive LeavesOut (p : Pool) (m : Pool.Message) : Row → Row → Prop
  | intro {n : Pool.Message} {path name : String} {f : Field}
      {D : List (String × Value) → List (String × Value)} (before after : List (String × Value))
      (inside : Within p n path m "" D) (field : n.field? name = some f) :
      LeavesOut p m (D (before ++ (name, .null) :: after)) (D (before ++ after))

/-- **A row with one null less** becomes the same. -/
theorem LeavesOut.build_eq {m : Pool.Message} {row row' : Row} (h : LeavesOut p m row row')
    (convertDates : Bool) (done : Message.Fields) :
    build p convertDates m "" done row = build p convertDates m "" done row' := by
  cases h with
  | @intro n path name f D before after inside field =>
    refine inside.build_stable stable_eq (fun done => ?_) done
    refine build_append stable_eq (fun done => ?_) before done
    rw [build, field]
    rfl

end RowStream.Row

namespace RowStream.Encoder

open Row (Carries LeavesOut columnsDateless)

variable {shape : Shape}

/-- Lists of rows, without the conversion of dates and with it. -/
theorem encodeFrom_carries {same : Prop} (rows : List Row) (n : Nat)
    (h : same → ∀ row ∈ rows, columnsDateless row = true) :
    Carries same (encodeFrom ⟨shape, false⟩ n rows) (encodeFrom ⟨shape, true⟩ n rows) := by
  induction rows generalizing n with
  | nil => exact .refl _
  | cons row rows ih =>
    have hrow : Carries same (encodeRow ⟨shape, false⟩ row) (encodeRow ⟨shape, true⟩ row) :=
      (Row.build_carries row fun hs => h hs row List.mem_cons_self).map
    have hrest := ih (n + 1) fun hs r hr => h hs r (List.mem_cons_of_mem row hr)
    rw [encodeFrom, encodeFrom]
    cases hfirst : encodeRow ⟨shape, false⟩ row with
    | ok bytes =>
      rw [hrow.1 bytes hfirst]
      exact hrest.map
    | error fault =>
      refine ⟨fun _ he => absurd he (by simp), fun hs => ?_⟩
      rw [← hrow.2 hs, hfirst]

/-- Rows with fewer nulls become the same. -/
theorem encodeRow_leavesOut {e : Encoder} {row row' : Row}
    (h : Relation.ReflTransGen (LeavesOut e.shape.pool e.shape.message) row row') :
    e.encodeRow row = e.encodeRow row' := by
  induction h with
  | refl => rfl
  | tail _ hlast ih =>
    rw [ih, encodeRow, encodeRow, message, message, hlast.build_eq]

theorem encodeFrom_leavesOut {e : Encoder} {rows rows' : List Row}
    (h : List.Forall₂ (Relation.ReflTransGen (LeavesOut e.shape.pool e.shape.message)) rows rows')
    (n : Nat) : e.encodeFrom n rows = e.encodeFrom n rows' := by
  induction h generalizing n with
  | nil => rfl
  | cons hrow _ ih => rw [encodeFrom, encodeFrom, encodeRow_leavesOut hrow, ih]

/-- **To convert dates is conservative, and null means absent.** Under any shape, rows that are taken
without the conversion of dates are taken with it and become the same bytes; rows that have no dates at any
depth have the same outcome, faults included. And any number of columns that are null and have a field can
be left out of rows, and of rows inside, without a change of the outcome. -/
theorem conservative_and_null_absent (shape : Shape) (rows : List Row) :
    (∀ out, encode ⟨shape, false⟩ rows = .ok out → encode ⟨shape, true⟩ rows = .ok out) ∧
      ((∀ row ∈ rows, columnsDateless row = true) →
        encode ⟨shape, false⟩ rows = encode ⟨shape, true⟩ rows) ∧
      ∀ (convertDates : Bool) (rows' : List Row),
        List.Forall₂ (Relation.ReflTransGen (LeavesOut shape.pool shape.message)) rows rows' →
          encode ⟨shape, convertDates⟩ rows = encode ⟨shape, convertDates⟩ rows' := by
  refine ⟨?_, fun h => ?_, fun convertDates rows' h => ?_⟩
  · have hcarries : Carries False (encode ⟨shape, false⟩ rows) (encode ⟨shape, true⟩ rows) :=
      encodeFrom_carries rows 0 nofun
    exact hcarries.1
  · have hcarries : Carries True (encode ⟨shape, false⟩ rows) (encode ⟨shape, true⟩ rows) :=
      encodeFrom_carries rows 0 fun _ => h
    exact hcarries.2 trivial
  · exact encodeFrom_leavesOut (e := ⟨shape, convertDates⟩) h 0

/-- A null in a row of a list is left out, and dates could be converted. -/
theorem conservative_and_null_absent_nested :
    let inner : List Table.Column :=
      [{ name := "x", type := 2, mode := 2 }, { name := "y", type := 8, mode := 1 }]
    let s : Table.Schema := ⟨[{ name := "a", type := 4, mode := 3, columns := inner }]⟩
    let row : Row := [("a", .list [.struct [("x", .int 7), ("y", .null)]])]
    let row' : Row := [("a", .list [.struct [("x", .int 7)]])]
    ∃ shape, Shape.ofTable s "root" .proto2 = .ok shape ∧
      Relation.ReflTransGen (LeavesOut shape.pool shape.message) row row' ∧
        encode ⟨shape, false⟩ [row] = .ok [[10, 2, 8, 7]] ∧
          encode ⟨shape, true⟩ [row'] = .ok [[10, 2, 8, 7]] := by
  intro inner s row row'
  -- the shape, the field of the list, the message inside, the field of the null, and the bytes
  have hfound : ((Shape.ofTable s "root" .proto2).toOption.bind fun t =>
      (t.message.field? "a").bind fun f => (f.kind.message?.bind t.pool.find).bind fun o =>
        (o.field? "y").bind fun _ => (encode ⟨t, false⟩ [row]).toOption) =
      some [[10, 2, 8, 7]] := by cbv
  simp only [Option.bind_eq_some_iff, toOption_eq_some] at hfound
  obtain ⟨shape, h, f, hf, o, ho, g, hg, hencode⟩ := hfound
  have hleaves : LeavesOut shape.pool shape.message row row' :=
    .intro [("x", .int 7)] [] (.item [] [] [] [] hf (Option.bind_eq_some_iff.mpr ho) .here) hg
  have hnulls := (conservative_and_null_absent shape [row]).2.2 true [row']
    (.cons (.single hleaves) .nil)
  refine ⟨shape, h, .single hleaves, hencode, ?_⟩
  have hdateless : ∀ r ∈ [row], columnsDateless r = true := by
    simp [row, columnsDateless, Row.Value.dateless, Row.itemsDateless]
  rw [← hnulls, ← (conservative_and_null_absent shape [row]).2.1 hdateless]
  exact hencode

end RowStream.Encoder
