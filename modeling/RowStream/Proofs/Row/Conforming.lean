import RowStream.Proofs.Row.Fitting
import RowStream.Proofs.Row.Place
import RowStream.Proofs.Row.RoundTrip

/-!
# Rows that are accepted

Which rows a table takes is said without the encoder. A row conforms to a message if each of its columns has
a field of that name and is null, or a list of acceptable values if the field is repeated, or acceptable if
it is not; and if every required field has a column that is not null (`Conforms`). A value is acceptable if
it fits the scalar type, or is a row that conforms in turn.

The encoder accepts exactly these rows. Columns are set one after the other and required fields looked for at
the end, so the induction carries which required fields are set: those that were before, and those whose
column is not null. No column unsets a required field, since these are never repeated.

* `build_isOk`: the columns of a row.
* `accepted_iff_conforms`: lists of rows.
-/

namespace RowStream.Row

open Descriptor (Scalar)
open Encoder (asMessage build fieldValue finish items missing? plain single)
open Message (Fields)
open Pool (Field Kind)

variable {p : Pool} {convertDates : Bool} {m : Pool.Message} {f g : Field} {k : Kind}
  {path outer : String} {v : Value} {w : Message.Value} {done : Fields}

/-! ## Rows that conform -/

/-- Every required field of the message has a column that is not null. -/
def Complete (m : Pool.Message) (columns : List (String × Value)) : Prop :=
  ∀ f ∈ m.fields, f.label = .required → ∃ v, v ≠ .null ∧ (f.name, v) ∈ columns

mutual

/-- A row that conforms to the message of the kind, or a value that fits the scalar type. -/
def Value.Acceptable (p : Pool) (convertDates : Bool) (k : Kind) : Value → Prop
  | .struct columns => ∃ m, k.message?.bind p.find = some m ∧
      ColumnsAllowed p convertDates m columns ∧ Complete m columns
  | v => ∃ s, k = .scalar s ∧ FitsScalar convertDates s v

/-- A list of acceptable values. -/
def Value.ListAcceptable (p : Pool) (convertDates : Bool) (k : Kind) : Value → Prop
  | .list vs => ItemsAcceptable p convertDates k vs
  | _ => False

/-- Every item of a list is acceptable. -/
def ItemsAcceptable (p : Pool) (convertDates : Bool) (k : Kind) : List Value → Prop
  | [] => True
  | v :: vs => v.Acceptable p convertDates k ∧ ItemsAcceptable p convertDates k vs

/-- Each column has a field of its name. It is null, or a list of acceptable values if the field is
repeated, or acceptable if it is not. -/
def ColumnsAllowed (p : Pool) (convertDates : Bool) (m : Pool.Message) :
    List (String × Value) → Prop
  | [] => True
  | (name, v) :: columns =>
    (∃ f, m.field? name = some f ∧ (v = .null ∨
      f.isRepeated = true ∧ v.ListAcceptable p convertDates f.kind ∨
      f.isRepeated = false ∧ v.Acceptable p convertDates f.kind)) ∧
    ColumnsAllowed p convertDates m columns

end

/-- The row conforms to the message. -/
def Conforms (p : Pool) (convertDates : Bool) (m : Pool.Message) (row : Row) : Prop :=
  ColumnsAllowed p convertDates m row ∧ Complete m row

/-! ## Values in fields -/

/-- What a scalar type makes of a value that is no row, and no other kind does. -/
theorem plain_isOk (hk : ColumnKind k) : (∃ w, plain p convertDates k path v = .ok w) ↔
    ∃ s, k = .scalar s ∧ FitsScalar convertDates s v := by
  rcases hk with ⟨s, hs, rfl⟩ | ⟨n, rfl⟩
  · simp only [plain, finish_eq_ok, fitsScalar_iff hs, Kind.scalar.injEq, exists_eq_left']
  · simp [plain, finish]

theorem asMessage_isOk {inner : Pool.Message → Except Encoder.Fault Fields} :
    (∃ w, asMessage p k path inner = .ok w) ↔
      ∃ m, k.message?.bind p.find = some m ∧ ∃ fields, inner m = .ok fields := by
  constructor
  · rintro ⟨w, hw⟩
    obtain ⟨n, m, fields, hk, hfind, hinner, -⟩ := asMessage_eq_ok hw
    exact ⟨m, by rw [hk, Option.bind_some, hfind], fields, hinner⟩
  · rintro ⟨m, hm, fields, hinner⟩
    obtain ⟨n, hk, hfind⟩ := Option.bind_eq_some_iff.mp hm
    simp only [asMessage, hk, hfind, hinner]
    exact ⟨_, rfl⟩

/-- A value in a field: null, or a list in a field that holds one, or a single value. -/
theorem fieldValue_isOk : (∃ o, fieldValue p convertDates f path v = .ok o) ↔
    v = .null ∨
      p.isList f = true ∧ (∃ vs ws, v = .list vs ∧ items p convertDates f.kind path vs = .ok ws) ∨
      p.isList f = false ∧ ∃ w, single p convertDates f.kind path v = .ok w := by
  by_cases hnull : v = .null
  · subst hnull
    exact iff_of_true ⟨none, by rw [fieldValue]⟩ (.inl rfl)
  cases hlist : p.isList f with
  | false =>
    rw [fieldValue_eq_single hlist hnull]
    simp [map_eq_ok, hnull]
  | true =>
    cases v with
    | null => exact absurd rfl hnull
    | _ => simp [fieldValue, hlist, map_eq_ok]

/-- Only a null leaves its field as it is. -/
theorem fieldValue_eq_none (h : fieldValue p convertDates f path v = .ok none) : v = .null := by
  by_contra hnull
  cases hlist : p.isList f with
  | false =>
    rw [fieldValue_eq_single hlist hnull] at h
    simp [map_eq_ok] at h
  | true =>
    cases v with
    | null => exact absurd rfl hnull
    | _ => simp [fieldValue, hlist, map_eq_ok] at h

/-! ## Required fields -/

theorem has_iff {n : Nat} : done.has n = true ↔ ∃ x ∈ done, x.1 = n := by
  simp [Fields.has]

/-- A value that is put into a field sets no other required field, and unsets none. -/
theorem Tabular.has_put (hm : Tabular m) (hf : f ∈ m.fields) (hg : g ∈ m.fields)
    (hrequired : g.label = .required) :
    (Encoder.put p m f w done).has g.number = true ↔ g = f ∨ done.has g.number = true := by
  have hsame : g.number = f.number ↔ g = f :=
    ⟨List.inj_on_of_nodup_map hm.distinct hg hf, congrArg _⟩
  rw [Encoder.put_eq hm.toUnbound hf (hm.presence f hf), has_iff, has_iff]
  split
  · rename_i herased
    -- what is erased is repeated
    have hne : g ≠ f := by
      rintro rfl
      simp [Field.isRepeated, hrequired] at herased
    simp only [Fields.mem_erase, hne, false_or]
    refine exists_congr fun x => ?_
    constructor
    · rintro ⟨⟨hx, -⟩, hn⟩
      exact ⟨hx, hn⟩
    · rintro ⟨hx, hn⟩
      exact ⟨⟨hx, fun h => hne (hsame.mp (hn.symm.trans h))⟩, hn⟩
  · simp only [Fields.mem_set]
    constructor
    · rintro ⟨x, rfl | ⟨hx, -⟩, hn⟩
      · exact .inl (hsame.mp hn.symm)
      · exact .inr ⟨x, hx, hn⟩
    · rintro (rfl | ⟨x, hx, hn⟩)
      · exact ⟨_, .inl rfl, rfl⟩
      · by_cases hgf : g = f
        · exact ⟨_, .inl rfl, (hsame.mpr hgf).symm⟩
        · exact ⟨x, .inr ⟨hx, fun h => hgf (hsame.mp (hn.symm.trans h))⟩, hn⟩

/-- The fields that are set, and those whose column is not null, are all that are required. -/
def CompleteFrom (m : Pool.Message) (done : Fields) (columns : List (String × Value)) : Prop :=
  ∀ f ∈ m.fields, f.label = .required →
    done.has f.number = true ∨ ∃ v, v ≠ .null ∧ (f.name, v) ∈ columns

theorem completeFrom_nil : CompleteFrom m done [] ↔ missing? m done = none := by
  simp [CompleteFrom, missing?, List.find?_eq_none]

theorem completeFrom_empty {columns : List (String × Value)} :
    CompleteFrom m [] columns ↔ Complete m columns := by
  simp [CompleteFrom, Complete, Fields.has]

/-- A null completes nothing. -/
theorem completeFrom_null {name : String} {columns : List (String × Value)} :
    CompleteFrom m done ((name, .null) :: columns) ↔ CompleteFrom m done columns := by
  refine forall₃_congr fun g _ _ => or_congr_right (exists_congr fun v => and_congr_right fun hv => ?_)
  simp [hv]

/-- A column that is not null sets its field. -/
theorem completeFrom_cons (hm : Tabular m) (hf : f ∈ m.fields) (hv : v ≠ .null)
    {columns : List (String × Value)} : CompleteFrom m done ((f.name, v) :: columns) ↔
      CompleteFrom m (Encoder.put p m f w done) columns := by
  refine forall₃_congr fun g hg hrequired => ?_
  rw [hm.has_put hf hg hrequired]
  have hname : g.name = f.name ↔ g = f :=
    ⟨List.inj_on_of_nodup_map hm.named hg hf, congrArg _⟩
  constructor
  · rintro (h | ⟨u, hu, hmem⟩)
    · exact .inl (.inr h)
    · rcases List.mem_cons.mp hmem with heq | hmem
      · exact .inl (.inl (hname.mp (congrArg Prod.fst heq)))
      · exact .inr ⟨u, hu, hmem⟩
  · rintro ((rfl | h) | ⟨u, hu, hmem⟩)
    · exact .inr ⟨v, hv, List.mem_cons_self⟩
    · exact .inl h
    · exact .inr ⟨u, hu, List.mem_cons_of_mem _ hmem⟩

/-! ## What the encoder accepts -/

mutual

/-- One value in a field of a kind. -/
theorem single_isOk (hp : ∀ n m, p.find n = some m → Tabular m) : ∀ (v : Value) {k : Kind}
    {path : String}, ColumnKind k →
      ((∃ w, single p convertDates k path v = .ok w) ↔ v.Acceptable p convertDates k)
  | .struct columns, k, path, _ => by
    simp only [single, Value.Acceptable, asMessage_isOk]
    refine exists_congr fun m => and_congr_right fun hm => ?_
    obtain ⟨n, -, hfind⟩ := Option.bind_eq_some_iff.mp hm
    rw [build_isOk hp columns (hp n m hfind), completeFrom_empty]
  | .null, _, _, hk | .bool _, _, _, hk | .int _, _, _, hk | .float _, _, _, hk | .string _, _, _, hk
  | .bytes _, _, _, hk | .date _, _, _, hk | .datetime _, _, _, hk | .timestamp _, _, _, hk
  | .list _, _, _, hk => by
    simp only [single, Value.Acceptable]
    exact plain_isOk hk

/-- A list in a field that holds one. -/
theorem list_isOk (hp : ∀ n m, p.find n = some m → Tabular m) : ∀ (v : Value) {k : Kind}
    {path : String}, ColumnKind k →
      ((∃ vs ws, v = .list vs ∧ items p convertDates k path vs = .ok ws) ↔
        v.ListAcceptable p convertDates k)
  | .list vs, k, path, hk => by
    have hitems : (∃ ws, items p convertDates k path vs = .ok ws) ↔ _ := items_isOk hp vs hk
    rw [Value.ListAcceptable, ← hitems]
    constructor
    · rintro ⟨us, ws, heq, hws⟩
      exact ⟨ws, Value.list.inj heq ▸ hws⟩
    · rintro ⟨ws, hws⟩
      exact ⟨vs, ws, rfl, hws⟩
  | .null, _, _, _ | .bool _, _, _, _ | .int _, _, _, _ | .float _, _, _, _ | .string _, _, _, _
  | .bytes _, _, _, _ | .date _, _, _, _ | .datetime _, _, _, _ | .timestamp _, _, _, _
  | .struct _, _, _, _ => by simp [Value.ListAcceptable]

/-- The items of a list. -/
theorem items_isOk (hp : ∀ n m, p.find n = some m → Tabular m) : ∀ (vs : List Value) {k : Kind}
    {path : String}, ColumnKind k →
      ((∃ ws, items p convertDates k path vs = .ok ws) ↔ ItemsAcceptable p convertDates k vs)
  | [], _, _, _ => by simp [items, ItemsAcceptable]
  | v :: vs, k, path, hk => by
    have hfirst : (∃ w, single p convertDates k path v = .ok w) ↔ _ := single_isOk hp v hk
    have hrest : (∃ ws, items p convertDates k path vs = .ok ws) ↔ _ := items_isOk hp vs hk
    simp only [items, ItemsAcceptable, bind_eq_ok, pure_eq_ok, ← hfirst, ← hrest]
    constructor
    · rintro ⟨_, w, hw, ws, hws, rfl⟩
      exact ⟨⟨w, hw⟩, ws, hws⟩
    · rintro ⟨⟨w, hw⟩, ws, hws⟩
      exact ⟨_, w, hw, ws, hws, rfl⟩

/-- **The columns of a row**, after others have set fields. -/
theorem build_isOk (hp : ∀ n m, p.find n = some m → Tabular m) :
    ∀ (columns : List (String × Value)) {m : Pool.Message} {outer : String} {done : Fields},
      Tabular m → ((∃ fields, build p convertDates m outer done columns = .ok fields) ↔
        ColumnsAllowed p convertDates m columns ∧ CompleteFrom m done columns)
  | [], m, outer, done, _ => by
    rw [completeFrom_nil, build, ColumnsAllowed, true_and]
    cases missing? m done <;> simp
  | (name, v) :: columns, m, outer, done, hm => by
    rw [build, ColumnsAllowed]
    cases hfield : m.field? name with
    | none => simp [throw, throwThe, MonadExceptOf.throw]
    | some f =>
      have hf : f ∈ m.fields := List.mem_of_find?_eq_some hfield
      obtain rfl : f.name = name := by simpa using List.find?_some hfield
      have hvalue : (∃ o, fieldValue p convertDates f (Text.qualify outer f.name) v = .ok o) ↔ _ :=
        fieldValue_isOk
      rw [Tabular.isList_eq hp, list_isOk hp v (hm.kind f hf), single_isOk hp v (hm.kind f hf)] at hvalue
      simp only [Option.some.injEq, exists_eq_left', ← hvalue, bind_eq_ok]
      cases hbecomes : fieldValue p convertDates f (Text.qualify outer f.name) v with
      | error fault => simp
      | ok o =>
        simp only [Except.ok.injEq, exists_eq_left', exists_eq', true_and]
        cases o with
        | none =>
          obtain rfl := fieldValue_eq_none hbecomes
          rw [build_isOk hp columns hm, completeFrom_null]
        | some w =>
          have hnull : v ≠ .null := by
            rintro rfl
            simp [fieldValue] at hbecomes
          rw [build_isOk hp columns hm, completeFrom_cons hm hf hnull]

end

end RowStream.Row

namespace RowStream.Encoder

open Descriptor (Dialect)
open Row (Conforms)
open Table (MessageOf)

variable {e : Encoder}

/-- A list of rows is accepted if every row is. -/
theorem encodeFrom_isOk (rows : List Row) (n : Nat) :
    (∃ out, e.encodeFrom n rows = .ok out) ↔ ∀ row ∈ rows, ∃ bytes, e.encodeRow row = .ok bytes := by
  induction rows generalizing n with
  | nil => simp [encodeFrom]
  | cons row rows ih =>
    rw [encodeFrom, List.forall_mem_cons, ← ih (n + 1)]
    cases e.encodeRow row with
    | error fault => simp
    | ok bytes => simp [map_eq_ok]

/-- One row under messages of tables. -/
theorem encodeRow_isOk (hp : ∀ n m, e.shape.pool.find n = some m → Row.Tabular m)
    (hm : Row.Tabular e.shape.message) (row : Row) :
    (∃ bytes, e.encodeRow row = .ok bytes) ↔
      Conforms e.shape.pool e.convertDates e.shape.message row := by
  have hbuild : (∃ fields, e.message row = .ok fields) ↔ _ := Row.build_isOk hp row hm
  rw [Conforms, ← Row.completeFrom_empty, ← hbuild]
  simp [encodeRow, map_eq_ok]

/-- **Rows are accepted exactly when they conform.** The message of a table has the columns for its fields.
Every message of the pool has those of a scope of the schema, and what a field refers to is found there. With
the conversion of dates or without, a list of rows is encoded if and only if every row conforms. -/
theorem accepted_iff_conforms {s : Table.Schema} {scope : String} {dialect : Dialect} {shape : Shape}
    (h : Shape.ofTable s scope dialect = .ok shape) :
    MessageOf dialect ⟨scope, s.columns⟩ shape.message ∧ shape.message ∈ shape.pool.messages ∧
      (∀ m ∈ shape.pool.messages,
        (∃ path t, (⟨scope, s.columns⟩ : Table.Scope).at? path = some t ∧ MessageOf dialect t m) ∧
          ∀ f ∈ m.fields, ∀ n, f.kind.message? = some n → (shape.pool.find n).isSome = true) ∧
      ∀ (convertDates : Bool) (rows : List Row),
        (∃ out, encode ⟨shape, convertDates⟩ rows = .ok out) ↔
          ∀ row ∈ rows, Conforms shape.pool convertDates shape.message row := by
  obtain ⟨es, -, hr⟩ := Table.Compile.resolved_of_ofTable h
  obtain ⟨e₀, he₀, hscope, hmessage⟩ := hr.top
  refine ⟨hmessage ▸ hscope ▸ hr.messageOf he₀, ?_, fun m hm => ?_, fun convertDates rows => ?_⟩
  · rw [hr.pool, hmessage]
    exact List.mem_map_of_mem he₀
  · rw [hr.pool] at hm
    obtain ⟨e, he, rfl⟩ := List.mem_map.mp hm
    refine ⟨⟨e.path, e.scope, hr.registered.located_of_mem he, hr.messageOf he⟩, fun f hf n hn => ?_⟩
    obtain ⟨o, -, hfind⟩ := hr.exists_find he hf hn
    rw [hfind]
    rfl
  · have hm : Row.Tabular shape.message := hmessage ▸ hr.tabular he₀
    rw [encode, encodeFrom_isOk]
    exact forall₂_congr fun row _ => encodeRow_isOk hr.tabular_of_find hm row

/-- A required column given as text, and a list of a date and a number of days: a row that conforms only
with the conversion of dates. -/
theorem accepted_iff_conforms_dates :
    let s : Table.Schema :=
      ⟨[{ name := "id", type := 2, mode := 2 }, { name := "on", type := 8, mode := 3 }]⟩
    let d : Calendar.Date := ⟨2024, 2, 29, by decide⟩
    let row : Row := [("id", .string " +7 "), ("on", .list [.date d, .int (-1)])]
    ∃ shape, Shape.ofTable s "root" .proto2 = .ok shape ∧
      Conforms shape.pool true shape.message row ∧ ¬ Conforms shape.pool false shape.message row := by
  intro s d row
  have hfound : ((Shape.ofTable s "root" .proto2).toOption.map fun t =>
      ((encode ⟨t, true⟩ [row]).isOk, (encode ⟨t, false⟩ [row]).isOk)) = some (true, false) := by
    cbv
  obtain ⟨shape, h, hboth⟩ := Option.map_eq_some_iff.mp hfound
  rw [toOption_eq_some] at h
  obtain ⟨hon, hoff⟩ := Prod.mk.inj hboth
  have hconforms := (accepted_iff_conforms h).2.2.2
  refine ⟨shape, h, (hconforms true [row]).mp (isOk_iff.mp hon) row List.mem_cons_self, fun hrow => ?_⟩
  have hok := isOk_iff.mpr ((hconforms false [row]).mpr (List.forall_mem_singleton.mpr hrow))
  exact absurd (hoff.symm.trans hok) (by simp)

end RowStream.Encoder
