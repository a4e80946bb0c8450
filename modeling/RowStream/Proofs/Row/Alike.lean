import RowStream.Proofs.Fallible
import RowStream.Proofs.Row.Field

/-!
# Shapes that rows are encoded alike under

Two messages are alike when their fields correspond one for one: fields of one name and number, written
in one way, whose values are of one scalar type or are messages that are alike in turn (`Simulates`). What
a row becomes does then not depend on which of the two it is encoded under, nor do its bytes.

The second message may be the more lenient one, if it requires fewer fields. Then it takes every row that
the first one takes. If it requires the same fields (`strict`), it also refuses the same rows, for the same
reason and at the same place.

* `build_meets`: a row under two messages that are alike.
* `records_eq`: a message in memory, written under both.
* `encode_meets`: lists of rows.
-/

namespace RowStream.Encoder

open Pool (Field Kind)
open Message (Fields Unbound)

/-! ## The relation -/

/-- The faults are of one sort and at one path. A field that expects a message may call it otherwise. -/
def Fault.Alike : Fault → Fault → Prop
  | .unknownField p, .unknownField q => p = q
  | .missingRequired p, .missingRequired q => p = q
  | .mismatch p _ found, .mismatch q _ found' => p = q ∧ found = found'
  | .outOfRange p range, .outOfRange q range' => p = q ∧ range = range'
  | _, _ => False

/-- The kinds have the same values: those of one scalar type, or messages that correspond. -/
inductive KindAlike (R : String → String → Prop) : Kind → Kind → Prop
  | scalar (s : Descriptor.Scalar) : KindAlike R (.scalar s) (.scalar s)
  | message {a b : String} (related : R a b) : KindAlike R (.message a) (.message b)

/-- The fields take the same values and write them in the same way. -/
structure FieldAlike (strict : Prop) (R : String → String → Prop) (f g : Field) : Prop where
  name : f.name = g.name
  number : f.number = g.number
  packed : f.packed = g.packed
  repeated : f.isRepeated = g.isRepeated
  presence : f.presence = !f.isRepeated
  presence' : g.presence = !g.isRepeated
  kind : KindAlike R f.kind g.kind
  eased : g.label = .required → f.label = .required
  kept : strict → f.label = .required → g.label = .required

/-- The messages have the same fields. -/
structure MessageAlike (strict : Prop) (R : String → String → Prop) (m n : Pool.Message) : Prop where
  fields : List.Forall₂ (FieldAlike strict R) m.fields n.fields
  left : Unbound m
  right : Unbound n

/-- Messages that correspond are there and are alike. -/
def Simulates (strict : Prop) (R : String → String → Prop) (p q : Pool) : Prop :=
  ∀ a b, R a b → ∃ m n, p.find a = some m ∧ q.find b = some n ∧ MessageAlike strict R m n

/-- The second outcome is the first one, or if the first is a fault, one that is alike; where the
second is more lenient, nothing is said of faults. -/
def Meets (strict : Prop) {α : Type} (x y : Except Fault α) : Prop :=
  (∀ a, x = .ok a → y = .ok a) ∧ (strict → ∀ e, x = .error e → ∃ e', y = .error e' ∧ e.Alike e')

variable {strict : Prop} {α β : Type} {R : String → String → Prop} {p q : Pool} {m n : Pool.Message}
  {f g : Field} {k k' : Kind} {x y : Except Fault α}

theorem Fault.Alike.refl (e : Fault) : e.Alike e := by
  cases e <;> simp [Fault.Alike]

namespace Meets

theorem refl (x : Except Fault α) : Meets strict x x :=
  ⟨fun _ h => h, fun _ e h => ⟨e, h, .refl e⟩⟩

theorem error {e e' : Fault} (h : e.Alike e') : Meets (α := α) strict (.error e) (.error e') :=
  ⟨fun _ h => (nomatch h), fun _ _ he => Except.error.inj he ▸ ⟨e', rfl, h⟩⟩

theorem bind {f g : α → Except Fault β} (h : Meets strict x y)
    (hfg : ∀ a, Meets strict (f a) (g a)) : Meets strict (x >>= f) (y >>= g) := by
  cases x with
  | ok a =>
    rw [h.1 a rfl]
    exact hfg a
  | error e =>
    refine ⟨fun _ h => (nomatch h), fun hs e₁ he => ?_⟩
    obtain ⟨e', rfl, halike⟩ := h.2 hs e rfl
    exact ⟨e', rfl, Except.error.inj he ▸ halike⟩

theorem map {f : α → β} (h : Meets strict x y) : Meets strict (x.map f) (y.map f) := by
  cases x with
  | ok a =>
    rw [h.1 a rfl]
    exact .refl _
  | error e =>
    refine ⟨fun _ h => (nomatch h), fun hs e₁ he => ?_⟩
    obtain ⟨e', rfl, halike⟩ := h.2 hs e rfl
    exact ⟨e', rfl, Except.error.inj he ▸ halike⟩

end Meets

/-! ## Fields -/

theorem KindAlike.unmapped (hs : Simulates strict R p q) (h : KindAlike R k k') :
    (∀ m, k.message?.bind p.find = some m → m.isMapEntry = false) ∧
      ∀ n, k'.message?.bind q.find = some n → n.isMapEntry = false := by
  cases h with
  | scalar s => simp [Kind.message?]
  | @message a b hr =>
    obtain ⟨m, n, hm, hn, halike⟩ := hs a b hr
    simp only [Kind.message?, Option.bind_some, hm, hn, Option.some.injEq]
    exact ⟨fun _ h => h ▸ halike.left.unmapped, fun _ h => h ▸ halike.right.unmapped⟩

theorem FieldAlike.isList_left (hs : Simulates strict R p q) (h : FieldAlike strict R f g) :
    p.isList f = f.isRepeated := isList_eq (h.kind.unmapped hs).1

theorem FieldAlike.isList_right (hs : Simulates strict R p q) (h : FieldAlike strict R f g) :
    q.isList g = f.isRepeated := h.repeated ▸ isList_eq (h.kind.unmapped hs).2

/-- A value is put into a message as into one that is alike. -/
theorem FieldAlike.put_eq (hm : MessageAlike strict R m n) (hf : f ∈ m.fields) (hg : g ∈ n.fields)
    (h : FieldAlike strict R f g) (v : Message.Value) (fields : Fields) :
    put p m f v fields = put q n g v fields := by
  rw [Encoder.put_eq hm.left hf h.presence, Encoder.put_eq hm.right hg h.presence', h.number,
    h.repeated]

theorem find_none_of_forall₂ {P : Field → Field → Prop} {c d : Field → Bool} {fs gs : List Field}
    (h : List.Forall₂ P fs gs) (hcd : ∀ f g, P f g → d g = true → c f = true)
    (hnone : fs.find? c = none) : gs.find? d = none := by
  induction h with
  | nil => rfl
  | @cons f g fs gs hfg hrest ih =>
    rw [List.find?_eq_none, List.forall_mem_cons, ← List.find?_eq_none] at hnone
    rw [List.find?_cons_of_neg fun hd => hnone.1 (hcd f g hfg hd)]
    exact ih hnone.2

/-- What the more lenient message misses, the other one misses too. -/
theorem missing_none (hm : MessageAlike strict R m n) {done : Fields} (h : missing? m done = none) :
    missing? n done = none := by
  refine find_none_of_forall₂ hm.fields (fun f g hfg hg => ?_) h
  obtain ⟨hlabel, hunset⟩ := Bool.and_eq_true_iff.mp hg
  rw [hfg.number, hfg.eased (eq_of_beq hlabel), hunset]
  rfl

/-- Where the same fields are required, the same one is missing. -/
theorem missing_some (hm : MessageAlike strict R m n) (hstrict : strict) {done : Fields} {f : Field}
    (h : missing? m done = some f) : ∃ g, missing? n done = some g ∧ f.name = g.name := by
  rcases find_of_forall₂ (c := fun f => f.label == .required && !done.has f.number)
    (d := fun g => g.label == .required && !done.has g.number) hm.fields fun f g hfg => by
      have hlabel : (f.label == .required) = (g.label == .required) :=
        Bool.eq_iff_iff.mpr ⟨fun h => beq_iff_eq.mpr (hfg.kept hstrict (eq_of_beq h)),
          fun h => beq_iff_eq.mpr (hfg.eased (eq_of_beq h))⟩
      rw [hlabel, hfg.number] with
    ⟨hf, -⟩ | ⟨f', g, hf, hg, -, -, hfg⟩
  · exact absurd (hf.symm.trans h) (by simp)
  · obtain rfl : f' = f := Option.some.inj (hf.symm.trans h)
    exact ⟨g, hg, hfg.name⟩

/-! ## Rows -/

theorem plain_meets {convertDates : Bool} {path : String} (h : KindAlike R k k') (v : Row.Value) :
    Meets strict (plain p convertDates k path v) (plain q convertDates k' path v) := by
  cases h with
  | scalar s => exact .refl _
  | message hr => exact .error ⟨rfl, rfl⟩

theorem asMessage_meets {path : String} (hs : Simulates strict R p q) (h : KindAlike R k k')
    {inner inner' : Pool.Message → Except Fault Fields}
    (hinner : ∀ m n, MessageAlike strict R m n → Meets strict (inner m) (inner' n)) :
    Meets strict (asMessage p k path inner) (asMessage q k' path inner') := by
  cases h with
  | scalar s => exact .refl _
  | @message a b hr =>
    obtain ⟨m, n, hm, hn, halike⟩ := hs a b hr
    simp only [asMessage, Kind.message?, hm, hn]
    exact (hinner m n halike).map

variable {convertDates : Bool}

mutual

/-- One value in a field of a kind. -/
theorem single_meets (hs : Simulates strict R p q) : ∀ (v : Row.Value) {k k' : Kind}
    (path : String), KindAlike R k k' →
      Meets strict (single p convertDates k path v) (single q convertDates k' path v)
  | .struct columns, _, _, path, h => by
    simp only [single]
    exact asMessage_meets hs h fun _ _ hm => build_meets hs columns path [] hm
  | .null, _, _, _, h | .bool _, _, _, _, h | .int _, _, _, _, h | .float _, _, _, _, h
  | .string _, _, _, _, h | .bytes _, _, _, _, h | .date _, _, _, _, h | .datetime _, _, _, _, h
  | .timestamp _, _, _, _, h | .list _, _, _, _, h => by
    simp only [single]
    exact plain_meets h _

/-- The items of a list. -/
theorem items_meets (hs : Simulates strict R p q) : ∀ (vs : List Row.Value) {k k' : Kind}
    (path : String), KindAlike R k k' →
      Meets strict (items p convertDates k path vs) (items q convertDates k' path vs)
  | [], _, _, _, _ => .refl _
  | v :: vs, _, _, path, h => by
    simp only [items]
    exact (single_meets hs v path h).bind fun _ => (items_meets hs vs path h).bind fun _ => .refl _

/-- A value in a field. -/
theorem fieldValue_meets (hs : Simulates strict R p q) : ∀ (v : Row.Value) {f g : Field}
    (path : String), FieldAlike strict R f g →
      Meets strict (fieldValue p convertDates f path v) (fieldValue q convertDates g path v)
  | .null, _, _, _, _ => .refl _
  | .list vs, _, _, path, h => by
    simp only [fieldValue, h.isList_left hs, h.isList_right hs]
    split
    · exact (items_meets hs vs path h.kind).map
    · exact .error ⟨rfl, rfl⟩
  | .struct columns, _, _, path, h => by
    simp only [fieldValue, h.isList_left hs, h.isList_right hs]
    split
    · exact .refl _
    · exact (asMessage_meets hs h.kind fun _ _ hm => build_meets hs columns path [] hm).map
  | .bool _, _, _, _, h | .int _, _, _, _, h | .float _, _, _, _, h | .string _, _, _, _, h
  | .bytes _, _, _, _, h | .date _, _, _, _, h | .datetime _, _, _, _, h
  | .timestamp _, _, _, _, h => by
    simp only [fieldValue, h.isList_left hs, h.isList_right hs]
    split
    · exact .refl _
    · exact (plain_meets h.kind _).map

/-- **A row under two messages that are alike.** -/
theorem build_meets (hs : Simulates strict R p q) : ∀ (columns : List (String × Row.Value))
    {m n : Pool.Message} (outer : String) (done : Fields), MessageAlike strict R m n →
      Meets strict (build p convertDates m outer done columns)
        (build q convertDates n outer done columns)
  | [], m, n, outer, done, hm => by
    simp only [build]
    cases hmiss : missing? m done with
    | none =>
      rw [missing_none hm hmiss]
      exact .refl _
    | some f =>
      refine ⟨fun _ h => (nomatch h), fun hstrict e he => ?_⟩
      obtain ⟨g, hg, hname⟩ := missing_some hm hstrict hmiss
      rw [hg, ← Except.error.inj he]
      exact ⟨_, rfl, congrArg _ hname⟩
  | (name, v) :: columns, m, n, outer, done, hm => by
    simp only [build]
    rcases find_of_forall₂ (c := fun f => f.name == name) (d := fun f => f.name == name) hm.fields
      fun f g h => by rw [h.name] with ⟨hf, hg⟩ | ⟨f, g, hf, hg, hfm, hgm, h⟩
    · simp only [Pool.Message.field?, hf, hg]
      exact .refl _
    · simp only [Pool.Message.field?, hf, hg]
      refine (fieldValue_meets hs v _ h).bind fun value => ?_
      cases value with
      | none => exact build_meets hs columns outer done hm
      | some value =>
        have hput : put p m f value done = put q n g value done :=
          h.put_eq hm hfm hgm value done
        simp only [hput]
        exact build_meets hs columns outer _ hm

end

/-! ## Messages in memory -/

theorem fieldWithNumber_alike (hm : MessageAlike strict R m n) (number : Nat) :
    (m.fieldWithNumber? number = none ∧ n.fieldWithNumber? number = none) ∨
      ∃ f g, m.fieldWithNumber? number = some f ∧ n.fieldWithNumber? number = some g ∧
        FieldAlike strict R f g := by
  rcases find_of_forall₂ (c := fun f => f.number == number) (d := fun f => f.number == number)
    hm.fields fun f g h => by rw [h.number] with hnone | ⟨f, g, hf, hg, -, -, h⟩
  · exact .inl hnone
  · exact .inr ⟨f, g, hf, hg, h⟩

theorem scalarPayload_eq (h : KindAlike R k k') (v : Message.Value) :
    Message.scalarPayload k v = Message.scalarPayload k' v := by
  cases h with
  | scalar s => rfl
  | message hr => rfl

theorem packedBytes_eq (h : KindAlike R k k') : Message.packedBytes k = Message.packedBytes k' := by
  cases h with
  | scalar s => rfl
  | message hr => rfl

/-- A nested message is written alike if its records are the same. -/
theorem message_payload_eq (hs : Simulates strict R p q) (h : KindAlike R k k') {fields : Fields}
    (hrecords : ∀ m n, MessageAlike strict R m n →
      Message.records p m fields = Message.records q n fields) :
    Message.payload p k (.message fields) = Message.payload q k' (.message fields) := by
  cases h with
  | scalar s => simp only [Message.payload]
  | @message a b hr =>
    obtain ⟨m, n, hm, hn, halike⟩ := hs a b hr
    simp only [Message.payload, hm, hn, hrecords m n halike]

mutual

theorem payload_eq (hs : Simulates strict R p q) : ∀ (v : Message.Value) {k k' : Kind},
    KindAlike R k k' → Message.payload p k v = Message.payload q k' v
  | .message fields, _, _, h => message_payload_eq hs h fun _ _ => records_eq hs fields
  | .bool _, _, _, h | .int32 _, _, _, h | .int64 _, _, _, h | .uint32 _, _, _, h
  | .uint64 _, _, _, h | .float _, _, _, h | .double _, _, _, h | .string _, _, _, h
  | .bytes _, _, _, h | .enum _, _, _, h | .list _, _, _, h => by
    simp only [Message.payload]
    exact scalarPayload_eq h _

theorem itemRecords_eq (hs : Simulates strict R p q) : ∀ (vs : List Message.Value) {f g : Field},
    FieldAlike strict R f g → Message.itemRecords p f vs = Message.itemRecords q g vs
  | [], _, _, _ => by simp only [Message.itemRecords]
  | v :: vs, _, _, h => by
    simp only [Message.itemRecords, h.number, payload_eq hs v h.kind, itemRecords_eq hs vs h]

theorem fieldRecords_eq (hs : Simulates strict R p q) : ∀ (v : Message.Value) {f g : Field},
    FieldAlike strict R f g → Message.fieldRecords p f v = Message.fieldRecords q g v
  | .list items, _, _, h => by
    simp only [Message.fieldRecords, h.number, h.packed, packedBytes_eq h.kind,
      itemRecords_eq hs items h]
  | .message fields, _, _, h => by
    simp only [Message.fieldRecords, h.number,
      message_payload_eq hs h.kind fun _ _ => records_eq hs fields]
  | .bool _, _, _, h | .int32 _, _, _, h | .int64 _, _, _, h | .uint32 _, _, _, h
  | .uint64 _, _, _, h | .float _, _, _, h | .double _, _, _, h | .string _, _, _, h
  | .bytes _, _, _, h | .enum _, _, _, h => by
    simp only [Message.fieldRecords, h.number, Message.payload, scalarPayload_eq h.kind]

/-- **A message in memory has the same records** under two messages that are alike. -/
theorem records_eq (hs : Simulates strict R p q) : ∀ (fields : List (Nat × Message.Value))
    {m n : Pool.Message}, MessageAlike strict R m n →
      Message.records p m fields = Message.records q n fields
  | [], _, _, _ => by simp only [Message.records]
  | (number, v) :: fields, m, n, hm => by
    simp only [Message.records, records_eq hs fields hm]
    rcases fieldWithNumber_alike hm number with ⟨hf, hg⟩ | ⟨f, g, hf, hg, h⟩
    · rw [hf, hg]
    · rw [hf, hg]
      exact congrArg (· ++ _) (fieldRecords_eq hs v h)

end

/-! ## Lists of rows -/

variable {e e' : Encoder}

/-- The encoders convert dates alike, and their messages are alike. -/
structure Corresponds (strict : Prop) (R : String → String → Prop) (e e' : Encoder) : Prop where
  dates : e.convertDates = e'.convertDates
  pools : Simulates strict R e.shape.pool e'.shape.pool
  message : MessageAlike strict R e.shape.message e'.shape.message

theorem encodeRow_meets (h : Corresponds strict R e e') (row : Row) :
    Meets strict (e.encodeRow row) (e'.encodeRow row) := by
  have hbytes : Message.encode e.shape = Message.encode e'.shape := by
    funext fields
    rw [Message.encode, Message.encode, records_eq h.pools fields h.message]
  unfold encodeRow message
  rw [hbytes, h.dates]
  exact (build_meets h.pools row "" [] h.message).map

theorem encodeFrom_meets (h : Corresponds strict R e e') (rows : List Row) (k : Nat) :
    (∀ bytes, e.encodeFrom k rows = .ok bytes → e'.encodeFrom k rows = .ok bytes) ∧
      (strict → ∀ err, e.encodeFrom k rows = .error err → ∃ err',
        e'.encodeFrom k rows = .error err' ∧ err.row = err'.row ∧ err.fault.Alike err'.fault) := by
  induction rows generalizing k with
  | nil => exact ⟨fun _ h => h, fun _ _ h => (nomatch h)⟩
  | cons row rows ih =>
    have hrow := encodeRow_meets h row
    simp only [encodeFrom]
    cases he : e.encodeRow row with
    | error fault =>
      refine ⟨fun _ h => (nomatch h), fun hstrict err herr => ?_⟩
      obtain ⟨fault', hfault, halike⟩ := hrow.2 hstrict fault he
      rw [hfault, ← Except.error.inj herr]
      exact ⟨_, rfl, rfl, halike⟩
    | ok bytes =>
      rw [hrow.1 bytes he]
      cases hrest : e.encodeFrom (k + 1) rows with
      | ok rest =>
        rw [(ih (k + 1)).1 rest hrest]
        exact ⟨fun _ h => h, fun _ _ h => (nomatch h)⟩
      | error err =>
        refine ⟨fun _ h => (nomatch h), fun hstrict err₁ herr => ?_⟩
        obtain ⟨err', herr', halike⟩ := (ih (k + 1)).2 hstrict err hrest
        rw [herr', ← Except.error.inj herr]
        exact ⟨err', rfl, halike⟩

/-- **Lists of rows under two messages that are alike.** -/
theorem encode_meets (h : Corresponds strict R e e') (rows : List Row) :
    (∀ bytes, e.encode rows = .ok bytes → e'.encode rows = .ok bytes) ∧
      (strict → ∀ err, e.encode rows = .error err → ∃ err',
        e'.encode rows = .error err' ∧ err.row = err'.row ∧ err.fault.Alike err'.fault) :=
  encodeFrom_meets h rows 0

end RowStream.Encoder
