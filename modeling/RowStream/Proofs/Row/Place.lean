import RowStream.Row.Encoder

/-!
# Places inside rows

A row with a place left open in it, for the columns of a row inside (`Within`) or for one value of a kind
(`Place`), whatever stands around the place. A relation between computations that is kept by all that is
done before and after (`Stable`) goes through such a row: if it relates what two values become in a field of
the kind, it relates what the two rows become. Equality is one; another is to fail with one fault, unless
both computations have failed with the same one before (`Fails`).

* `Within.build_stable`: rows around columns.
* `Place.build_stable`: rows around a value.
* `encodeFrom_congr`, `encodeFrom_fails`: lists of rows around a row.
-/

namespace RowStream.Row

open Encoder (Fault asMessage build fieldValue items missing? plain single)
open Pool (Field Kind)

/-! ## Relations that go through -/

/-- The relation is kept when the same is done before two computations, and when the same is done after. -/
structure Stable (R : ∀ α : Type, Except Fault α → Except Fault α → Prop) : Prop where
  before : ∀ {α β : Type} (x : Except Fault α) {f g : α → Except Fault β},
    (∀ a, R β (f a) (g a)) → R β (x >>= f) (x >>= g)
  after : ∀ {α β : Type} {x y : Except Fault α} (f : α → Except Fault β),
    R α x y → R β (x >>= f) (y >>= f)

theorem stable_eq : Stable fun α => @Eq (Except Fault α) where
  before _ _ _ h := congrArg _ (funext h)
  after _ h := h ▸ rfl

/-- The second computation fails with the fault, or both fail with the same one. -/
def Fails (fault : Fault) (α : Type) (x y : Except Fault α) : Prop :=
  y = .error fault ∨ ∃ other, x = .error other ∧ y = .error other

theorem stable_fails (fault : Fault) : Stable (Fails fault) where
  before x f g h := by
    cases x with
    | ok a => exact h a
    | error other => exact .inr ⟨other, rfl, rfl⟩
  after f h := by
    rcases h with rfl | ⟨other, rfl, rfl⟩
    · exact .inl rfl
    · exact .inr ⟨other, rfl, rfl⟩

section

variable {R : ∀ α : Type, Except Fault α → Except Fault α → Prop} {α β : Type}

theorem Stable.error (hR : Stable R) (fault : Fault) : R α (.error fault) (.error fault) :=
  hR.before (.error fault : Except Fault Empty) (f := nofun) (g := nofun) nofun

theorem Stable.map (hR : Stable R) {x y : Except Fault α} (f : α → β) (h : R α x y) :
    R β (x.map f) (y.map f) := by
  have hbind := hR.after (fun a => .ok (f a)) h
  cases x <;> cases y <;> exact hbind

end

/-! ## Rows around columns -/

/-- The place of the columns of a row of message `n`, at the path `path`, inside a row of a message at the
path `outer`: the row itself, a row in a column of it, or a row in a list. -/
inductive Within (p : Pool) (n : Pool.Message) (path : String) :
    Pool.Message → String → (List (String × Value) → List (String × Value)) → Prop
  | here : Within p n path n path id
  | struct {m o : Pool.Message} {outer name : String} {f : Field}
      {D : List (String × Value) → List (String × Value)} (before after : List (String × Value))
      (field : m.field? name = some f) (message : f.kind.message?.bind p.find = some o)
      (inner : Within p n path o (Text.qualify outer name) D) :
      Within p n path m outer fun columns => before ++ (name, .struct (D columns)) :: after
  | item {m o : Pool.Message} {outer name : String} {f : Field}
      {D : List (String × Value) → List (String × Value)} (before after : List (String × Value))
      (us vs : List Value)
      (field : m.field? name = some f) (message : f.kind.message?.bind p.find = some o)
      (inner : Within p n path o (Text.qualify outer name) D) :
      Within p n path m outer fun columns =>
        before ++ (name, .list (us ++ .struct (D columns) :: vs)) :: after

section

variable {R : ∀ α : Type, Except Fault α → Except Fault α → Prop} {p : Pool} {convertDates : Bool}
  {m n o : Pool.Message} {k : Kind} {f : Field} {name outer path : String} {v w : Value}

theorem build_append (hR : Stable R) {columns columns' : List (String × Value)}
    (h : ∀ done, R _ (build p convertDates m outer done columns)
      (build p convertDates m outer done columns'))
    (before : List (String × Value)) (done : Message.Fields) :
    R _ (build p convertDates m outer done (before ++ columns))
      (build p convertDates m outer done (before ++ columns')) := by
  induction before generalizing done with
  | nil => exact h done
  | cons c before ih =>
    rw [List.cons_append, List.cons_append, build, build]
    cases m.field? c.1 with
    | none => exact hR.error _
    | some f =>
      refine hR.before _ fun value => ?_
      cases value with
      | none => exact ih done
      | some value => exact ih _

/-- What a column becomes decides what the rest is added to. -/
theorem build_column (hR : Stable R) (hfield : m.field? name = some f)
    (h : R _ (fieldValue p convertDates f (Text.qualify outer name) v)
      (fieldValue p convertDates f (Text.qualify outer name) w))
    (before after : List (String × Value)) (done : Message.Fields) :
    R _ (build p convertDates m outer done (before ++ (name, v) :: after))
      (build p convertDates m outer done (before ++ (name, w) :: after)) := by
  refine build_append hR (fun done => ?_) before done
  rw [build, build, hfield]
  exact hR.after _ h

theorem items_append (hR : Stable R)
    (h : R _ (single p convertDates k path v) (single p convertDates k path w)) (us vs : List Value) :
    R _ (items p convertDates k path (us ++ v :: vs)) (items p convertDates k path (us ++ w :: vs)) := by
  induction us with
  | nil =>
    rw [List.nil_append, List.nil_append, items, items]
    exact hR.after _ h
  | cons u us ih =>
    rw [List.cons_append, List.cons_append, items, items]
    exact hR.before _ fun _ => hR.after _ ih

theorem fieldValue_list (hR : Stable R) {vs ws : List Value}
    (h : R _ (items p convertDates f.kind path vs) (items p convertDates f.kind path ws)) :
    R _ (fieldValue p convertDates f path (.list vs)) (fieldValue p convertDates f path (.list ws)) := by
  rw [fieldValue, fieldValue]
  split
  · exact hR.map _ h
  · exact hR.error _

theorem asMessage_stable (hR : Stable R) (hmessage : k.message?.bind p.find = some o)
    {inner inner' : Pool.Message → Except Fault Message.Fields} (h : R _ (inner o) (inner' o)) :
    R _ (asMessage p k path inner) (asMessage p k path inner') := by
  obtain ⟨a, ha, hfind⟩ := Option.bind_eq_some_iff.mp hmessage
  simp only [asMessage, ha, hfind]
  exact hR.map _ h

/-- **Rows around columns**: what is related after any start is related in the row around. -/
theorem Within.build_stable (hR : Stable R) {D : List (String × Value) → List (String × Value)}
    (hD : Within p n path m outer D) {columns columns' : List (String × Value)}
    (h : ∀ done, R _ (build p convertDates n path done columns)
      (build p convertDates n path done columns')) (done : Message.Fields) :
    R _ (build p convertDates m outer done (D columns))
      (build p convertDates m outer done (D columns')) := by
  induction hD generalizing done with
  | here => exact h done
  | struct before after field message inner ih =>
    refine build_column hR field ?_ before after done
    rw [fieldValue, fieldValue]
    split
    · exact hR.error _
    · exact hR.map _ (asMessage_stable hR message (ih []))
  | item before after us vs field message inner ih =>
    refine build_column hR field (fieldValue_list hR (items_append hR ?_ us vs)) before after done
    rw [single, single]
    exact asMessage_stable hR message (ih [])

/-! ## Rows around a value -/

/-- The place of one value of a kind inside a row, at a path: the value of a column that takes no list, or
one item of a list. -/
inductive Place (p : Pool) (k : Kind) (m : Pool.Message) (outer : String) :
    String → (Value → List (String × Value)) → Prop
  | column {n : Pool.Message} {inner name : String} {f : Field}
      {D : List (String × Value) → List (String × Value)} (before after : List (String × Value))
      (inside : Within p n inner m outer D) (field : n.field? name = some f) (kind : f.kind = k)
      (single : p.isList f = false) :
      Place p k m outer (Text.qualify inner name) fun v => D (before ++ (name, v) :: after)
  | item {n : Pool.Message} {inner name : String} {f : Field}
      {D : List (String × Value) → List (String × Value)} (before after : List (String × Value))
      (us vs : List Value)
      (inside : Within p n inner m outer D) (field : n.field? name = some f) (kind : f.kind = k) :
      Place p k m outer (Text.qualify inner name) fun v =>
        D (before ++ (name, .list (us ++ v :: vs)) :: after)

/-- A list is no item of a list, nor the value of a field that holds none. -/
theorem plain_list (vs : List Value) : plain p convertDates k path (.list vs) =
    .error (.mismatch path k.name "list") := by
  cases k with
  | scalar s => cases convertDates <;> cases s <;> rfl
  | enum name => cases he : p.enum? name <;> simp only [plain, he] <;> rfl
  | message name | group name => rfl

/-- A field that holds no list takes a value as a list takes an item. -/
theorem fieldValue_eq_single (hf : p.isList f = false) (hv : v ≠ .null) :
    fieldValue p convertDates f path v = (single p convertDates f.kind path v).map some := by
  cases v with
  | null => exact absurd rfl hv
  | list vs =>
    rw [fieldValue, single, plain_list, hf]
    · rfl
    · simp
  | _ =>
    simp only [fieldValue, single, hf]
    rfl

/-- **Rows around a value**: what is related in a field of the kind is related in the row around. -/
theorem Place.build_stable (hR : Stable R) {C : Value → List (String × Value)}
    (hC : Place p k m outer path C) (hv : v ≠ .null) (hw : w ≠ .null)
    (h : R _ (single p convertDates k path v) (single p convertDates k path w))
    (done : Message.Fields) :
    R _ (build p convertDates m outer done (C v)) (build p convertDates m outer done (C w)) := by
  cases hC with
  | column before after inside field kind hsingle =>
    refine inside.build_stable hR (build_column hR field ?_ before after) done
    rw [fieldValue_eq_single hsingle hv, fieldValue_eq_single hsingle hw, kind]
    exact hR.map _ h
  | item before after us vs inside field kind =>
    refine inside.build_stable hR (build_column hR field ?_ before after) done
    exact fieldValue_list hR (items_append hR (kind ▸ h) us vs)

end

end RowStream.Row

namespace RowStream.Encoder

variable {e : Encoder} {row row' : Row}

/-- Rows that become the same can stand for one another. -/
theorem encodeFrom_congr (h : e.encodeRow row = e.encodeRow row') (before after : List Row) (n : Nat) :
    e.encodeFrom n (before ++ row :: after) = e.encodeFrom n (before ++ row' :: after) := by
  induction before generalizing n with
  | nil => rw [List.nil_append, List.nil_append, encodeFrom, encodeFrom, h]
  | cons r before ih => rw [List.cons_append, List.cons_append, encodeFrom, encodeFrom, ih]

/-- A row that fails with a fault, or as another row fails, fails with the fault at its number, or the
rows before it fail, or all fail as the others would. -/
theorem encodeFrom_fails {fault : Fault} (h : Row.Fails fault _ (e.encodeRow row) (e.encodeRow row'))
    (before after : List Row) (n : Nat) :
    e.encodeFrom n (before ++ row' :: after) = .error ⟨n + before.length, fault⟩ ∨
      ∃ err, e.encodeFrom n (before ++ row :: after) = .error err ∧
        e.encodeFrom n (before ++ row' :: after) = .error err := by
  induction before generalizing n with
  | nil =>
    rw [List.nil_append, List.nil_append, encodeFrom, encodeFrom]
    rcases h with h | ⟨other, h, h'⟩
    · rw [h]
      exact .inl rfl
    · rw [h, h']
      exact .inr ⟨_, rfl, rfl⟩
  | cons r before ih =>
    rw [List.cons_append, List.cons_append, encodeFrom, encodeFrom]
    cases e.encodeRow r with
    | error other => exact .inr ⟨_, rfl, rfl⟩
    | ok bytes =>
      have hnumber : n + (r :: before).length = n + 1 + before.length := by
        rw [List.length_cons]
        omega
      rcases ih (n + 1) with h | ⟨err, h, h'⟩
      · exact .inl (by rw [h, hnumber]; rfl)
      · exact .inr ⟨err, by rw [h]; rfl, by rw [h']; rfl⟩

end RowStream.Encoder
