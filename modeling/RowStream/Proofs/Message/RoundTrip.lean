import Mathlib.Data.List.Nodup
import RowStream.Proofs.Message.Fields
import RowStream.Proofs.Message.Scalar

/-!
# Messages survive as bytes

A message in memory fits a message of a pool when its values are in order of number, each under the number
of a field and of the field's kind, of every choice one field at most is set, and no list is empty that
nothing would be written for (`MessageFits`). How deep messages may lie inside is counted, because the
reader counts too; it takes no record in the deepest group.

Records go in at the end: the fields are read in order of number, so each puts its value behind those that
are there already. A list grows item by item, or comes from one packed run. A nested message is read on
its own, one level further down, and a group with the records around it.

* `foldlM_fieldRecords`: the records of one field.
* `decodeWithin_encode`: a message that fits is read back from its bytes.
-/

namespace RowStream.Message

open Pool (Field Kind)
open Wire (Payload Record)

/-! ## Fitting messages -/

/-- The value is of the kind, where `inner` says what the messages are. -/
inductive ItemFits (depth : Nat) (inner : String → Fields → Prop) : Kind → Value → Prop
  | plain {k : Kind} {v : Value} (typed : Typed k v) : ItemFits depth inner k v
  | message {name : String} {fields : Fields} (fits : inner name fields) :
      ItemFits depth inner (.message name) (.message fields)
  | group {name : String} {fields : Fields} (room : 1 < depth) (fits : inner name fields) :
      ItemFits depth inner (.group name) (.message fields)

/-- The value is what the field can hold when it is set. -/
inductive FieldFits (depth : Nat) (inner : String → Fields → Prop) (f : Field) : Value → Prop
  | single {v : Value} (single : f.isRepeated = false) (item : ItemFits depth inner f.kind v) :
      FieldFits depth inner f v
  | list {vs : List Value} (repeated : f.isRepeated = true) (written : vs ≠ [] ∨ f.packed = true)
      (items : ∀ v ∈ vs, ItemFits depth inner f.kind v) : FieldFits depth inner f (.list vs)

/-- Of every choice one field at most is set. -/
def Chosen (m : Pool.Message) (fields : Fields) : Prop :=
  ∀ f ∈ m.fields, ∀ x ∈ fields, x.1 = f.number →
    ∀ k ∈ m.siblings f, k = f.number ∨ ∀ y ∈ fields, y.1 ≠ k

/-- The values are those of fields, in order of number. -/
structure MessageFits (depth : Nat) (inner : String → Fields → Prop) (m : Pool.Message)
    (fields : Fields) : Prop where
  ordered : fields.Ordered
  each : ∀ x ∈ fields, ∃ f ∈ m.fields, f.number = x.1 ∧ FieldFits depth inner f x.2
  chosen : Chosen m fields

/-- The values are those of the message with the name; messages lie inside below `depth` levels. -/
def Fits (p : Pool) : Nat → String → Fields → Prop
  | 0 => fun _ _ => False
  | depth + 1 => fun name fields => ∃ m, p.find name = some m ∧ MessageFits depth (Fits p depth) m fields

/-- The fields of the message can be told apart on the wire, and what is packed can be. -/
structure Regular (m : Pool.Message) : Prop where
  distinct : (m.fields.map (·.number)).Nodup
  positive : ∀ f ∈ m.fields, 1 ≤ f.number
  bounded : ∀ f ∈ m.fields, f.number < twoTo 29
  packed : ∀ f ∈ m.fields, f.packed = true → f.isRepeated = true ∧ f.kind.isPackable = true

/-- The message that bytes write, where messages lie inside to a given depth. -/
def decodeWithin (depth : Nat) (s : Shape) (bytes : List UInt8) : Option Fields := do
  let rs ← Wire.decodeRecords depth bytes
  rs.foldlM (absorb s.pool depth s.message) []

variable {p : Pool} {m : Pool.Message} {f : Field} {inner : String → Fields → Prop} {k : Kind}
  {v : Value} {vs : List Value} {fields done : Fields} {depth : Nat}

theorem Regular.fieldWithNumber?_eq (h : Regular m) (hf : f ∈ m.fields) :
    m.fieldWithNumber? f.number = some f := by
  obtain ⟨g, hg⟩ : ∃ g, m.fieldWithNumber? f.number = some g :=
    Option.isSome_iff_exists.mp (List.find?_isSome.mpr ⟨f, hf, beq_self_eq_true _⟩)
  have hnumber : g.number = f.number := by simpa using List.find?_some hg
  rw [hg, List.inj_on_of_nodup_map h.distinct (List.mem_of_find?_eq_some hg) hf hnumber]

/-- Where no two fields stand in one choice, of every choice one at most is set. -/
theorem Unbound.chosen (h : Unbound m) (fields : Fields) : Chosen m fields :=
  fun f hf _ _ _ k hk => .inl (h.alone f hf k hk)

/-! ## What is written -/

theorem itemRecords_eq_map (p : Pool) (f : Field) (vs : List Value) :
    itemRecords p f vs = vs.map fun v => (f.number, payload p f.kind v) := by
  induction vs with
  | nil => rw [itemRecords, List.map_nil]
  | cons v vs ih => rw [itemRecords, ih, List.map_cons]

theorem payload_plain (h : Typed k v) : payload p k v = scalarPayload k v := by
  cases h <;> simp only [payload]

theorem payload_message {name : String} (h : p.find name = some m) :
    payload p (.message name) (.message fields) = .bytes (Wire.encodeRecords (records p m fields)) := by
  rw [payload]
  simp only [h]

theorem payload_group {name : String} (h : p.find name = some m) :
    payload p (.group name) (.message fields) = .group (records p m fields) := by
  rw [payload]
  simp only [h]

/-- A value that is no list is one record. -/
theorem fieldRecords_item (h : ItemFits depth inner k v) :
    fieldRecords p f v = [(f.number, payload p f.kind v)] := by
  cases h with
  | plain typed => cases typed <;> simp only [fieldRecords]
  | message fits => simp only [fieldRecords]
  | group room fits => simp only [fieldRecords]

/-- A repeated field is one packed run, or one record for each item. -/
theorem fieldRecords_list (p : Pool) (f : Field) (vs : List Value) : fieldRecords p f (.list vs) =
    if f.packed then [(f.number, .bytes (vs.flatMap (packedBytes f.kind)))]
    else vs.map fun v => (f.number, payload p f.kind v) := by
  rw [fieldRecords, itemRecords_eq_map]

theorem records_cons (hm : Regular m) (hf : f ∈ m.fields) :
    records p m ((f.number, v) :: fields) = fieldRecords p f v ++ records p m fields := by
  rw [records, hm.fieldWithNumber?_eq hf]

/-! ## What is read -/

/-- The bytes of a payload can be counted. -/
def Countable : Payload → Prop
  | .bytes b => b.length < twoTo 64
  | .group rs => (Wire.encodeRecords rs).length < twoTo 64
  | _ => True

/-- The records of the message can be written, and are read back, if their bytes can be counted. -/
def Reads (p : Pool) (depth : Nat) (m : Pool.Message) (fields : Fields) : Prop :=
  (Wire.encodeRecords (records p m fields)).length < twoTo 64 →
    (∀ r ∈ records p m fields, Wire.Writable depth r) ∧
      (records p m fields).foldlM (absorb p depth m) [] = some fields

/-- The messages inside are there, and are read back one level further down. -/
def Below (p : Pool) (depth : Nat) (inner : String → Fields → Prop) : Prop :=
  ∀ name fields, inner name fields →
    ∃ below m, depth = below + 1 ∧ p.find name = some m ∧ Reads p below m fields

/-- **One value is read back**: into the field, or at the end of its list. -/
theorem absorb_item (hm : Regular m) (hf : f ∈ m.fields) (hinner : Below p depth inner)
    (h : ItemFits depth inner f.kind v) (hcount : Countable (payload p f.kind v))
    (hchoice : ∀ k ∈ m.siblings f, k = f.number ∨ ∀ x ∈ done, x.1 ≠ k)
    (hfree : f.isRepeated = false → done.get? f.number = none) :
    absorb p depth m done (f.number, payload p f.kind v) =
      some (done.set f.number (if f.isRepeated then .list (listAt done f ++ [v]) else v)) := by
  rw [← put_of_free hchoice]
  have hnone (hr : f.isRepeated = false) : messageAt done f = [] := by rw [messageAt, hfree hr]
  unfold absorb
  simp only [hm.fieldWithNumber?_eq hf]
  generalize f.kind = kind at h hcount ⊢
  cases h with
  | plain typed =>
    rw [payload_plain typed]
    simp only [message?_of_typed typed, itemsOf, ofPayload_scalarPayload typed, Option.map_some]
    split <;> rfl
  | @message name inside fits =>
    obtain ⟨below, n, rfl, hn, hreads⟩ := hinner name inside fits
    rw [payload_message hn] at hcount ⊢
    obtain ⟨hwritable, hfold⟩ := hreads hcount
    have hrs : Wire.decodeRecords below (Wire.encodeRecords (records p n inside)) =
        some (records p n inside) :=
      Wire.decodeRecords_encodeRecords hwritable fun _ _ h => absurd h Bool.false_ne_true
    simp only [Kind.message?, hn, innerRecords, hrs]
    cases hr : f.isRepeated with
    | true => simp [hfold]
    | false => simp [hnone hr, hfold]
  | @group name inside room fits =>
    obtain ⟨below, n, rfl, hn, hreads⟩ := hinner name inside fits
    rw [payload_group hn] at hcount ⊢
    obtain ⟨-, hfold⟩ := hreads hcount
    simp only [Kind.message?, hn, innerRecords]
    cases hr : f.isRepeated with
    | true => simp [hfold]
    | false => simp [hnone hr, hfold]

theorem typed_of_packable (hk : k.isPackable = true) (h : ItemFits depth inner k v) : Typed k v := by
  cases h with
  | plain typed => exact typed
  | message fits => exact absurd hk (by simp [Kind.isPackable])
  | group room fits => exact absurd hk (by simp [Kind.isPackable])

/-- A run of bytes is no value of what can be packed. -/
theorem ofPayload_bytes (hk : k.isPackable = true) (b : List UInt8) : ofPayload k (.bytes b) = none := by
  cases k with
  | scalar s => cases s <;> first | rfl | exact absurd hk (by decide)
  | enum name => rfl
  | message name => exact absurd hk (by simp [Kind.isPackable])
  | group name => exact absurd hk (by simp [Kind.isPackable])

/-- A packed run is read back. -/
theorem absorb_run (hm : Regular m) (hf : f ∈ m.fields) (hpacked : f.packed = true)
    (hchoice : ∀ k ∈ m.siblings f, k = f.number ∨ ∀ x ∈ done, x.1 ≠ k)
    (h : ∀ v ∈ vs, ItemFits depth inner f.kind v) :
    absorb p depth m done (f.number, .bytes (vs.flatMap (packedBytes f.kind))) =
      some (done.set f.number (.list (listAt done f ++ vs))) := by
  obtain ⟨hr, hk⟩ := hm.packed f hf hpacked
  have htyped : ∀ v ∈ vs, Typed f.kind v := fun v hv => typed_of_packable hk (h v hv)
  have hmessage : f.kind.message? = none := by
    generalize f.kind = kind at hk
    cases kind with
    | scalar s => rfl
    | enum name => rfl
    | message name => exact absurd hk (by simp [Kind.isPackable])
    | group name => exact absurd hk (by simp [Kind.isPackable])
  rw [← put_of_free hchoice]
  unfold absorb
  simp only [hm.fieldWithNumber?_eq hf, hmessage, hr, if_true, itemsOf, ofPayload_bytes hk, hk,
    readPacked_flatMap hk htyped (length_le_flatMap hk htyped), Option.map_some]

/-! ## Fields, one after the other -/

theorem listAt_of_lt (h : ∀ x ∈ done, x.1 < f.number) : listAt done f = [] := by
  rw [listAt, Fields.get?_eq_none.mpr fun x hx => Nat.ne_of_lt (h x hx)]

/-- The items of a list go in one after the other. -/
theorem foldlM_items (hm : Regular m) (hf : f ∈ m.fields) (hr : f.isRepeated = true)
    (hinner : Below p depth inner) (h : ∀ v ∈ vs, ItemFits depth inner f.kind v)
    (hcount : ∀ v ∈ vs, Countable (payload p f.kind v)) (hdone : ∀ x ∈ done, x.1 < f.number)
    (hchoice : ∀ k ∈ m.siblings f, k = f.number ∨ ∀ x ∈ done, x.1 ≠ k) (acc : List Value) :
    (vs.map fun v => (f.number, payload p f.kind v)).foldlM (absorb p depth m)
      (done ++ [(f.number, .list acc)]) = some (done ++ [(f.number, .list (acc ++ vs))]) := by
  induction vs generalizing acc with
  | nil => simp
  | cons v vs ih =>
    obtain ⟨hv, hrest⟩ := List.forall_mem_cons.mp h
    obtain ⟨hcv, hcrest⟩ := List.forall_mem_cons.mp hcount
    have hlist : listAt (done ++ [(f.number, .list acc)]) f = acc := by
      rw [listAt, Fields.get?_last hdone]
    have hfree : ∀ k ∈ m.siblings f, k = f.number ∨
        ∀ x ∈ done ++ [(f.number, Value.list acc)], x.1 ≠ k := by
      intro k hk
      rw [or_iff_not_imp_left]
      intro hne
      refine List.forall_mem_append.mpr ⟨(hchoice k hk).resolve_left hne, fun x hx => ?_⟩
      rw [List.mem_singleton.mp hx]
      exact Ne.symm hne
    rw [List.map_cons, List.foldlM_cons,
      absorb_item hm hf hinner hv hcv hfree fun hsingle => absurd (hr.symm.trans hsingle) (by simp),
      hr, if_pos rfl, hlist, Fields.set_set_last hdone, Option.bind_eq_bind, Option.bind_some,
      ih hrest hcrest, List.append_assoc, List.singleton_append]

/-- **The records of a field are read back** behind the fields with lower numbers. -/
theorem foldlM_fieldRecords (hm : Regular m) (hf : f ∈ m.fields) (hinner : Below p depth inner)
    (h : FieldFits depth inner f v) (hcount : ∀ r ∈ fieldRecords p f v, Countable r.2)
    (hdone : ∀ x ∈ done, x.1 < f.number)
    (hchoice : ∀ k ∈ m.siblings f, k = f.number ∨ ∀ x ∈ done, x.1 ≠ k) :
    (fieldRecords p f v).foldlM (absorb p depth m) done = some (done ++ [(f.number, v)]) := by
  have hfree : done.get? f.number = none :=
    Fields.get?_eq_none.mpr fun x hx => Nat.ne_of_lt (hdone x hx)
  cases h with
  | single hsingle item =>
    rw [fieldRecords_item item] at hcount ⊢
    have hcv := hcount _ (List.mem_singleton_self _)
    rw [List.foldlM_cons, absorb_item hm hf hinner item hcv hchoice fun _ => hfree, hsingle,
      if_neg (by decide), Fields.set_last hdone]
    rfl
  | @list vs hr hwritten items =>
    rw [fieldRecords_list] at hcount ⊢
    split at hcount
    · rename_i hpacked
      rw [if_pos hpacked, List.foldlM_cons, absorb_run hm hf hpacked hchoice items,
        listAt_of_lt hdone, Fields.set_last hdone]
      rfl
    · rename_i hplain
      rw [if_neg hplain]
      have hcitems : ∀ v ∈ vs, Countable (payload p f.kind v) := fun v hv =>
        hcount _ (List.mem_map_of_mem hv)
      -- the first item makes the list, the others go to its end
      obtain ⟨v, vs, rfl⟩ := List.exists_cons_of_ne_nil (hwritten.resolve_right hplain)
      obtain ⟨hv, hrest⟩ := List.forall_mem_cons.mp items
      obtain ⟨hcv, hcrest⟩ := List.forall_mem_cons.mp hcitems
      rw [List.map_cons, List.foldlM_cons, absorb_item hm hf hinner hv hcv hchoice fun _ => hfree, hr,
        if_pos rfl, listAt_of_lt hdone, Fields.set_last hdone, Option.bind_eq_bind, Option.bind_some,
        foldlM_items hm hf hr hinner hrest hcrest hdone hchoice]
      rfl

/-- **The records of a message are read back.** -/
theorem foldlM_records (hm : Regular m) (hinner : Below p depth inner)
    (h : ∀ x ∈ fields, ∃ f ∈ m.fields, f.number = x.1 ∧ FieldFits depth inner f x.2)
    (hcount : ∀ r ∈ records p m fields, Countable r.2) (hordered : Fields.Ordered (done ++ fields))
    (hchosen : Chosen m (done ++ fields)) :
    (records p m fields).foldlM (absorb p depth m) done = some (done ++ fields) := by
  induction fields generalizing done with
  | nil => rw [records, List.append_nil]; rfl
  | cons x fields ih =>
    obtain ⟨⟨f, hf, hnumber, hfits⟩, hrest⟩ := List.forall_mem_cons.mp h
    obtain ⟨n, v⟩ := x
    obtain rfl : f.number = n := hnumber
    rw [records_cons hm hf] at hcount ⊢
    have hdone : ∀ x ∈ done, x.1 < f.number := fun x hx =>
      (List.pairwise_append.mp hordered).2.2 x hx _ List.mem_cons_self
    have hchoice : ∀ k ∈ m.siblings f, k = f.number ∨ ∀ x ∈ done, x.1 ≠ k := by
      intro k hk
      have hset : (f.number, v) ∈ done ++ (f.number, v) :: fields := by simp
      refine (hchosen f hf _ hset rfl k hk).imp_right fun hfree x hx => ?_
      exact hfree x (List.mem_append_left _ hx)
    rw [List.foldlM_append, foldlM_fieldRecords hm hf hinner hfits
      (fun r hr => hcount r (List.mem_append_left _ hr)) hdone hchoice, Option.bind_eq_bind,
      Option.bind_some, ih hrest (fun r hr => hcount r (List.mem_append_right _ hr))
      (by simpa using hordered) (by simpa using hchosen), List.append_assoc, List.singleton_append]

/-! ## Whole messages -/

/-- What a value is written as can be written, if its bytes can be counted. -/
theorem writable_payload (hinner : Below p depth inner) (h : ItemFits depth inner k v)
    (hcount : Countable (payload p k v)) : (payload p k v).Writable depth := by
  cases h with
  | plain typed =>
    rw [payload_plain typed] at hcount ⊢
    refine (plain_scalarPayload typed fun b hb => ?_).writable depth
    rwa [hb] at hcount
  | @message name inside fits =>
    obtain ⟨below, n, rfl, hn, -⟩ := hinner name inside fits
    rw [payload_message hn] at hcount ⊢
    exact hcount
  | @group name inside room fits =>
    obtain ⟨below, n, rfl, hn, hreads⟩ := hinner name inside fits
    rw [payload_group hn] at hcount ⊢
    exact ⟨Nat.succ_pos _, fun _ => room, Wire.allWritable_iff.mpr (hreads hcount).1⟩

/-- The records of a field can be written when their bytes can be counted. -/
theorem writable_fieldRecords (hm : Regular m) (hf : f ∈ m.fields) (hinner : Below p depth inner)
    (h : FieldFits depth inner f v) (hcount : ∀ r ∈ fieldRecords p f v, Countable r.2) :
    ∀ r ∈ fieldRecords p f v, Wire.Writable depth r := by
  intro r hr
  have hcounted := hcount r hr
  have hitem {v : Value} (h : ItemFits depth inner f.kind v)
      (heq : r = (f.number, payload p f.kind v)) : Wire.Writable depth r := by
    rw [heq] at hcounted ⊢
    exact ⟨hm.positive f hf, hm.bounded f hf, writable_payload hinner h hcounted⟩
  cases h with
  | single _ item =>
    rw [fieldRecords_item item] at hr
    exact hitem item (List.mem_singleton.mp hr)
  | list _ _ items =>
    rw [fieldRecords_list] at hr
    split at hr
    · rw [List.mem_singleton.mp hr] at hcounted ⊢
      exact ⟨hm.positive f hf, hm.bounded f hf, hcounted⟩
    · obtain ⟨v, hv, rfl⟩ := List.mem_map.mp hr
      exact hitem (items v hv) rfl

theorem writable_records (hm : Regular m) (hinner : Below p depth inner)
    (h : ∀ x ∈ fields, ∃ f ∈ m.fields, f.number = x.1 ∧ FieldFits depth inner f x.2)
    (hcount : ∀ r ∈ records p m fields, Countable r.2) :
    ∀ r ∈ records p m fields, Wire.Writable depth r := by
  induction fields with
  | nil =>
    intro r hr
    rw [records] at hr
    exact absurd hr List.not_mem_nil
  | cons x fields ih =>
    obtain ⟨⟨f, hf, hnumber, hfits⟩, hrest⟩ := List.forall_mem_cons.mp h
    obtain ⟨n, v⟩ := x
    obtain rfl : f.number = n := hnumber
    rw [records_cons hm hf, List.forall_mem_append] at hcount ⊢
    exact ⟨writable_fieldRecords hm hf hinner hfits hcount.1, ih hrest hcount.2⟩

/-- What lies in records can be counted if they can. -/
theorem countable_of_mem {rs : List Record} (h : (Wire.encodeRecords rs).length < twoTo 64) :
    ∀ r ∈ rs, Countable r.2 := by
  rintro ⟨number, p⟩ hr
  cases p with
  | bytes b => exact Nat.lt_of_le_of_lt (Wire.length_le_of_mem hr) h
  | group inner => exact Nat.lt_of_le_of_lt (Wire.group_length_le_of_mem hr) h
  | _ => trivial

/-- A message is read back when those inside are. -/
theorem reads_of_below (hm : Regular m) (hinner : Below p depth inner)
    (h : MessageFits depth inner m fields) : Reads p depth m fields := by
  intro hlength
  have hcount := countable_of_mem hlength
  have hordered : Fields.Ordered ([] ++ fields) := h.ordered
  exact ⟨writable_records hm hinner h.each hcount,
    foldlM_records hm hinner h.each hcount hordered h.chosen⟩

/-- Messages that fit are read back one level further down. -/
theorem below_fits (hp : ∀ n m, p.find n = some m → Regular m) (depth : Nat) :
    Below p depth (Fits p depth) := by
  induction depth with
  | zero => exact fun _ _ h => h.elim
  | succ depth ih =>
    rintro name fields ⟨m, hm, hfits⟩
    exact ⟨depth, m, rfl, hm, reads_of_below (hp name m hm) ih hfits⟩

/-- **A message that fits is read back from its bytes.** -/
theorem decodeWithin_encode {s : Shape} (hp : ∀ n m, s.pool.find n = some m → Regular m)
    (hm : Regular s.message) (h : MessageFits depth (Fits s.pool depth) s.message fields)
    (hlength : (encode s fields).length < twoTo 64) :
    decodeWithin depth s (encode s fields) = some fields := by
  obtain ⟨hwritable, hfold⟩ := reads_of_below hm (below_fits hp depth) h hlength
  rw [decodeWithin, encode,
    Wire.decodeRecords_encodeRecords hwritable fun _ _ h => absurd h Bool.false_ne_true]
  exact hfold

end RowStream.Message
