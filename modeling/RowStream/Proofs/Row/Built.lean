import RowStream.Proofs.Fallible
import RowStream.Proofs.Pool.Regular
import RowStream.Proofs.Row.Value

/-!
# Rows come back under any descriptor

The messages that the encoder builds fit, whatever the descriptor declares: fields of all types, enums,
groups, choices, and lists that are packed or not. A field that is put in unsets the others of its choice,
and a column that comes twice replaces what it gave before. So the bytes of a row are read back as the
message that was built, one level deeper than the row nests, since a group takes one more.

Two sorts of values are lost. A row in the field of a map becomes the only entry of a list, and an empty
list in a field with presence leaves no trace unless it is packed. What a row gives to fields is lossless
when there is neither.

* `Value.lossless`, `columnsLossless`: rows that have no such value.
* `columnsLossless_of_listing`: messages all of whose rows are like that.
* `build_fits`: the messages that are built fit.
* `encode_readsBack`: rows, and the messages that their bytes give.
-/

namespace RowStream

namespace Message

open Pool (Field)

variable {depth : Nat} {inner : String → Fields → Prop} {m : Pool.Message} {f : Field}
  {fields : Fields} {v : Value}

/-! ## Messages that change -/

theorem mem_siblings {k : Nat} : k ∈ m.siblings f ↔
    ∃ i, f.oneof = some i ∧ ∃ g ∈ m.fields, g.oneof = some i ∧ g.number = k := by
  unfold Pool.Message.siblings
  cases f.oneof with
  | none => simp
  | some i => simp [and_assoc]

theorem mem_foldl_erase {ks : List Nat} {x : Nat × Value} :
    x ∈ ks.foldl Fields.erase fields ↔ x ∈ fields ∧ ∀ k ∈ ks, x.1 ≠ k := by
  induction ks generalizing fields with
  | nil => simp
  | cons k ks ih => rw [List.foldl_cons, ih, Fields.mem_erase, List.forall_mem_cons, and_assoc]

/-- A message fits with fewer of its values. -/
theorem MessageFits.sublist (h : MessageFits depth inner m fields) {rest : Fields}
    (hs : rest.Sublist fields) : MessageFits depth inner m rest where
  ordered := h.ordered.sublist hs
  each := fun x hx => h.each x (hs.subset hx)
  chosen := fun f hf x hx hn k hk => (h.chosen f hf x (hs.subset hx) hn k hk).imp_right
    fun hfree y hy => hfree y (hs.subset hy)

theorem MessageFits.erase (h : MessageFits depth inner m fields) (n : Nat) :
    MessageFits depth inner m (fields.erase n) :=
  h.sublist List.filter_sublist

/-- **A message fits after a value is put into a field** that fits it. -/
theorem MessageFits.put (h : MessageFits depth inner m fields) (hm : Regular m) (hf : f ∈ m.fields)
    (hv : FieldFits depth inner f v) : MessageFits depth inner m (put m f v fields) := by
  have hsame {g : Field} (hg : g ∈ m.fields) (hn : g.number = f.number) : g = f :=
    List.inj_on_of_nodup_map hm.distinct hg hf hn
  have hsub : ((m.siblings f).foldl Fields.erase fields).Sublist fields := by
    generalize m.siblings f = ks
    induction ks generalizing fields with
    | nil => exact List.Sublist.refl _
    | cons k ks ih => exact (ih (h.erase k)).trans List.filter_sublist
  have hrest := h.sublist hsub
  unfold Message.put
  constructor
  case ordered => exact hrest.ordered.set _ _
  case each =>
    intro x hx
    rcases Fields.mem_set.mp hx with rfl | ⟨hx, -⟩
    · exact ⟨f, hf, rfl, hv⟩
    · exact hrest.each x hx
  case chosen =>
    intro g hg x hx hxg k hk
    rw [or_iff_not_imp_left]
    intro hne y hy
    rcases Fields.mem_set.mp hx with rfl | ⟨hx, -⟩ <;> rcases Fields.mem_set.mp hy with rfl | ⟨hy, -⟩
    · exact fun heq => hne (heq.symm.trans hxg)
    · obtain rfl := hsame hg hxg.symm
      exact (mem_foldl_erase.mp hy).2 k hk
    · -- the field would stand in the choice of another that is set
      rintro rfl
      obtain ⟨i, hi, o, ho, hoi, hnumber⟩ := mem_siblings.mp hk
      obtain rfl := hsame ho hnumber
      exact (mem_foldl_erase.mp hx).2 g.number (mem_siblings.mpr ⟨i, hoi, g, hg, hi, rfl⟩) hxg
    · exact (hrest.chosen g hg x hx hxg k hk).resolve_left hne y hy

/-- A message without values fits. -/
theorem messageFits_nil : MessageFits depth inner m [] where
  ordered := List.Pairwise.nil
  each := fun _ hx => absurd hx List.not_mem_nil
  chosen := fun _ _ _ hx => absurd hx List.not_mem_nil

end Message

namespace Row

open Encoder (asMessage build fieldValue items single)
open Message (FieldFits Fields Fits ItemFits MessageFits Regular)
open Pool (Field Kind)

/-! ## Values that are not lost -/

mutual

/-- Nothing that the value gives to a field of the kind is lost. -/
def Value.lossless (p : Pool) (k : Kind) : Value → Bool
  | .struct columns => (k.message?.bind p.find).all fun m => columnsLossless p m columns
  | _ => true

/-- Nothing that an item of a list gives to the field is lost. -/
def itemsLossless (p : Pool) (k : Kind) : List Value → Bool
  | [] => true
  | v :: vs => v.lossless p k && itemsLossless p k vs

/-- The value leaves a trace in the field, and is no row in the field of a map. -/
def Value.fitsField (p : Pool) (f : Field) : Value → Bool
  | .struct columns =>
    !p.isMap f && (f.kind.message?.bind p.find).all fun m => columnsLossless p m columns
  | .list vs => (!vs.isEmpty || f.packed || !(f.isRepeated && f.presence)) && itemsLossless p f.kind vs
  | _ => true

/-- Nothing that the columns give to the fields of the message is lost. -/
def columnsLossless (p : Pool) (m : Pool.Message) : List (String × Value) → Bool
  | [] => true
  | (name, v) :: columns =>
    ((m.field? name).all fun f => v.fitsField p f) && columnsLossless p m columns

end

/-- Repeated fields are no maps, and an empty list in them is as good as none. -/
def Listing (p : Pool) (m : Pool.Message) : Prop :=
  ∀ f ∈ m.fields, f.isRepeated = true → p.isMap f = false ∧ (f.packed = true ∨ f.presence = false)

variable {p : Pool} {convertDates : Bool} {m : Pool.Message} {f : Field} {depth : Nat}

theorem isMap_eq_false (hr : f.isRepeated = false) : p.isMap f = false := by
  rw [Pool.isMap, hr, Bool.false_and]

theorem Listing.isMap (h : Listing p m) (hf : f ∈ m.fields) : p.isMap f = false := by
  cases hr : f.isRepeated with
  | true => exact (h f hf hr).1
  | false => exact isMap_eq_false hr

mutual

theorem Value.lossless_of_listing (hp : ∀ n m, p.find n = some m → Listing p m) :
    ∀ (v : Value) (k : Kind), v.lossless p k = true
  | .struct columns, k => by
    rw [Value.lossless, Option.all_eq_true]
    intro m hm
    obtain ⟨n, -, hfind⟩ := Option.bind_eq_some_iff.mp hm
    exact columnsLossless_of_listing hp columns (hp n m hfind)
  | .null, _ | .bool _, _ | .int _, _ | .float _, _ | .string _, _ | .bytes _, _ | .date _, _
  | .datetime _, _ | .timestamp _, _ | .list _, _ => by simp only [Value.lossless]

theorem itemsLossless_of_listing (hp : ∀ n m, p.find n = some m → Listing p m) :
    ∀ (vs : List Value) (k : Kind), itemsLossless p k vs = true
  | [], _ => by rw [itemsLossless]
  | v :: vs, k => by
    rw [itemsLossless, v.lossless_of_listing hp k, itemsLossless_of_listing hp vs k, Bool.and_self]

theorem Value.fitsField_of_listing (hp : ∀ n m, p.find n = some m → Listing p m) :
    ∀ (v : Value) {m : Pool.Message} {f : Field}, Listing p m → f ∈ m.fields →
      v.fitsField p f = true
  | .struct columns, m, f, hm, hf => by
    rw [Value.fitsField, hm.isMap hf, Bool.not_false, Bool.true_and, Option.all_eq_true]
    intro o ho
    obtain ⟨n, -, hfind⟩ := Option.bind_eq_some_iff.mp ho
    exact columnsLossless_of_listing hp columns (hp n o hfind)
  | .list vs, m, f, hm, hf => by
    rw [Value.fitsField, itemsLossless_of_listing hp vs f.kind, Bool.and_true, Bool.or_assoc]
    cases hr : f.isRepeated with
    | false => simp
    | true => rcases (hm f hf hr).2 with h | h <;> simp [h]
  | .null, _, _, _, _ | .bool _, _, _, _, _ | .int _, _, _, _, _ | .float _, _, _, _, _
  | .string _, _, _, _, _ | .bytes _, _, _, _, _ | .date _, _, _, _, _ | .datetime _, _, _, _, _
  | .timestamp _, _, _, _, _ => by simp only [Value.fitsField]

/-- **Nothing of a row is lost** where repeated fields are no maps and empty lists are as good as none. -/
theorem columnsLossless_of_listing (hp : ∀ n m, p.find n = some m → Listing p m) :
    ∀ (columns : List (String × Value)) {m : Pool.Message}, Listing p m →
      columnsLossless p m columns = true
  | [], _, _ => by rw [columnsLossless]
  | (name, v) :: columns, m, hm => by
    rw [columnsLossless, columnsLossless_of_listing hp columns hm, Bool.and_true, Option.all_eq_true]
    exact fun f hf => v.fitsField_of_listing hp hm (List.mem_of_find?_eq_some hf)

end

/-! ## What the encoder builds -/

/-- What a row becomes in a field fits, one level up, if the message that is built for it does. -/
theorem itemFits_of_asMessage {k : Kind} {path : String} {w : Message.Value}
    {inner : Pool.Message → Except Encoder.Fault Fields} (h : asMessage p k path inner = .ok w)
    (hroom : 0 < depth) (hinner : ∀ n m fields, p.find n = some m →
      k.message?.bind p.find = some m → inner m = .ok fields →
        MessageFits depth (Fits p depth) m fields) :
    ItemFits (depth + 1) (Fits p (depth + 1)) k w := by
  obtain ⟨n, m, fields, hk, hfind, hbuild, rfl⟩ := asMessage_eq_ok h
  have hfits : Fits p (depth + 1) n fields :=
    ⟨m, hfind, hinner n m fields hfind (by rw [hk, Option.bind_some, hfind]) hbuild⟩
  cases k with
  | scalar s => exact nomatch hk
  | enum name => exact nomatch hk
  | message name =>
    obtain rfl : name = n := Option.some.inj hk
    exact .message hfits
  | group name =>
    obtain rfl : name = n := Option.some.inj hk
    exact .group (Nat.succ_lt_succ hroom) hfits

/-- The value can be put into the field: it fits, or is an empty list that leaves the field unset. -/
def Storable (p : Pool) (depth : Nat) (f : Field) (w : Message.Value) : Prop :=
  FieldFits depth (Fits p depth) f w ∨
    w = .list [] ∧ f.isRepeated = true ∧ f.presence = false

/-- A message fits after the encoder puts a value into a field. -/
theorem messageFits_put {done : Fields} {w : Message.Value}
    (h : MessageFits depth (Fits p depth) m done) (hm : Regular m) (hf : f ∈ m.fields)
    (hw : Storable p depth f w) :
    MessageFits depth (Fits p depth) m (Encoder.put p m f w done) := by
  unfold Encoder.put
  split
  · exact h.erase _
  · rename_i hkept
    rcases hw with hw | ⟨rfl, hr, hp⟩
    · exact h.put hm hf hw
    · -- such a list is the default of its field
      exact absurd (by simp [hp, Pool.default, hr, Message.Value.sameScalar]) hkept

theorem isRepeated_of_not_isList (hmap : p.isMap f = false) (h : ¬ p.isList f = true) :
    f.isRepeated = false := by
  simpa [Pool.isList, hmap] using h

mutual

/-- One value in a field of a kind. -/
theorem single_fits (hp : ∀ n m, p.find n = some m → Regular m) : ∀ (v : Value) {k : Kind}
    {path : String} {w : Message.Value} {depth : Nat}, v.nesting < depth → v.lossless p k = true →
      single p convertDates k path v = .ok w → ItemFits depth (Fits p depth) k w
  | .struct columns, k, path, w, depth, hdepth, hloss, h => by
    simp only [single] at h
    rw [Value.nesting] at hdepth
    rw [Value.lossless, Option.all_eq_true] at hloss
    obtain ⟨depth, rfl⟩ : ∃ d, depth = d + 1 := ⟨depth - 1, by omega⟩
    refine itemFits_of_asMessage h (by omega) fun n m fields hfind hm hbuild => ?_
    exact build_fits hp columns (hp n m hfind) (Nat.lt_of_succ_lt_succ hdepth) (hloss m hm)
      Message.messageFits_nil hbuild
  | .null, _, _, _, _, _, _, h | .bool _, _, _, _, _, _, _, h | .int _, _, _, _, _, _, _, h
  | .float _, _, _, _, _, _, _, h | .string _, _, _, _, _, _, _, h | .bytes _, _, _, _, _, _, _, h
  | .date _, _, _, _, _, _, _, h | .datetime _, _, _, _, _, _, _, h
  | .timestamp _, _, _, _, _, _, _, h | .list _, _, _, _, _, _, _, h => by
    simp only [single] at h
    exact .plain (typed_of_plain h)

/-- The items of a list. -/
theorem items_fit (hp : ∀ n m, p.find n = some m → Regular m) : ∀ (vs : List Value) {k : Kind}
    {path : String} {ws : List Message.Value} {depth : Nat}, itemsNesting vs < depth →
      itemsLossless p k vs = true → items p convertDates k path vs = .ok ws →
        (vs.isEmpty = ws.isEmpty) ∧ ∀ w ∈ ws, ItemFits depth (Fits p depth) k w
  | [], _, _, _, _, _, _, h => by
    simp only [items, Except.ok.injEq] at h
    subst h
    exact ⟨rfl, fun w hw => absurd hw List.not_mem_nil⟩
  | v :: vs, _, _, _, _, hdepth, hloss, h => by
    rw [itemsNesting, Nat.max_lt] at hdepth
    rw [itemsLossless, Bool.and_eq_true] at hloss
    simp only [items, bind_eq_ok, pure_eq_ok] at h
    obtain ⟨w, hw, ws, hws, rfl⟩ := h
    exact ⟨rfl, List.forall_mem_cons.mpr ⟨single_fits hp v hdepth.1 hloss.1 hw,
      (items_fit hp vs hdepth.2 hloss.2 hws).2⟩⟩

/-- A value in a field. -/
theorem fieldValue_fits (hp : ∀ n m, p.find n = some m → Regular m) : ∀ (v : Value) {f : Field}
    {path : String} {w : Message.Value} {depth : Nat}, v.nesting < depth → v.fitsField p f = true →
      fieldValue p convertDates f path v = .ok (some w) → Storable p depth f w
  | .null, _, _, _, _, _, _, h => by simp [fieldValue] at h
  | .list vs, f, path, w, depth, hdepth, hloss, h => by
    simp only [fieldValue] at h
    split at h
    · rename_i hlist
      have hr : f.isRepeated = true := (Bool.and_eq_true_iff.mp hlist).1
      obtain ⟨ws, hws, heq⟩ := map_eq_ok.mp h
      obtain rfl := Option.some.inj heq
      rw [Value.fitsField, Bool.and_eq_true] at hloss
      rw [Value.nesting] at hdepth
      obtain ⟨hempty, hitems⟩ := items_fit hp vs hdepth hloss.2 hws
      simp only [Bool.or_eq_true, hr, Bool.true_and, Bool.not_eq_true'] at hloss
      rcases hloss.1 with (hne | hpacked) | hpresence
      · exact .inl (.list hr (.inl (List.isEmpty_eq_false_iff.mp (hempty ▸ hne))) hitems)
      · exact .inl (.list hr (.inr hpacked) hitems)
      · cases ws with
        | nil => exact .inr ⟨rfl, hr, hpresence⟩
        | cons w ws => exact .inl (.list hr (.inl (List.cons_ne_nil _ _)) hitems)
    · exact absurd h (by simp)
  | .struct columns, f, path, w, depth, hdepth, hloss, h => by
    simp only [fieldValue] at h
    split at h
    · exact absurd h (by simp)
    · rename_i hlist
      obtain ⟨u, hu, heq⟩ := map_eq_ok.mp h
      obtain rfl := Option.some.inj heq
      rw [Value.nesting] at hdepth
      rw [Value.fitsField, Bool.and_eq_true, Bool.not_eq_true', Option.all_eq_true] at hloss
      obtain ⟨depth, rfl⟩ : ∃ d, depth = d + 1 := ⟨depth - 1, by omega⟩
      refine .inl (.single (isRepeated_of_not_isList hloss.1 hlist)
        (itemFits_of_asMessage hu (by omega) fun n m fields hfind hm hbuild => ?_))
      exact build_fits hp columns (hp n m hfind) (Nat.lt_of_succ_lt_succ hdepth) (hloss.2 m hm)
        Message.messageFits_nil hbuild
  | .bool _, f, path, w, depth, _, _, h | .int _, f, path, w, depth, _, _, h
  | .float _, f, path, w, depth, _, _, h | .string _, f, path, w, depth, _, _, h
  | .bytes _, f, path, w, depth, _, _, h | .date _, f, path, w, depth, _, _, h
  | .datetime _, f, path, w, depth, _, _, h | .timestamp _, f, path, w, depth, _, _, h => by
    simp only [fieldValue] at h
    split at h
    · exact absurd h (by simp)
    · rename_i hlist
      obtain ⟨u, hu, heq⟩ := map_eq_ok.mp h
      obtain rfl := Option.some.inj heq
      have htyped := typed_of_plain hu
      have hmap : p.isMap f = false := by
        rw [Pool.isMap, Message.message?_of_typed htyped, Bool.and_false]
      exact .inl (.single (isRepeated_of_not_isList hmap hlist) (.plain htyped))

/-- **The columns of a row**, one after the other. -/
theorem build_fits (hp : ∀ n m, p.find n = some m → Regular m) :
    ∀ (columns : List (String × Value)) {m : Pool.Message} {outer : String} {done fields : Fields}
      {depth : Nat}, Regular m → columnsNesting columns < depth → columnsLossless p m columns = true →
        MessageFits depth (Fits p depth) m done → build p convertDates m outer done columns = .ok fields →
          MessageFits depth (Fits p depth) m fields
  | [], m, outer, done, fields, depth, hm, _, _, hdone, h => by
    simp only [build] at h
    split at h
    · exact absurd h (by simp)
    · exact Except.ok.inj h ▸ hdone
  | (name, v) :: columns, m, outer, done, fields, depth, hm, hdepth, hloss, hdone, h => by
    rw [columnsNesting, Nat.max_lt] at hdepth
    simp only [build] at h
    cases hfield : m.field? name with
    | none => simp [hfield, throw, throwThe, MonadExceptOf.throw] at h
    | some f =>
      simp only [hfield, bind_eq_ok] at h
      rw [columnsLossless, hfield, Option.all_some, Bool.and_eq_true] at hloss
      obtain ⟨o, ho, h⟩ := h
      have hf : f ∈ m.fields := List.mem_of_find?_eq_some hfield
      cases o with
      | none => exact build_fits hp columns hm hdepth.2 hloss.2 hdone h
      | some w =>
        have hw := fieldValue_fits hp v hdepth.1 hloss.1 ho
        exact build_fits hp columns hm hdepth.2 hloss.2 (messageFits_put hdone hm hf hw) h

end

end Row

namespace Encoder

open Message (decodeWithin)
open Row (columnsLossless columnsNesting)

/-- Nothing of the row is lost. -/
def Keeps (e : Encoder) (row : Row) : Prop :=
  columnsLossless e.shape.pool e.shape.message row = true

/-- The bytes are those of the message that is built for the row, and give it back if nothing of the row
is lost, to a reader that goes one level deeper than the row nests. -/
def ReadsBack (e : Encoder) (row : Row) (bytes : List UInt8) : Prop :=
  ∃ fields, e.message row = .ok fields ∧ bytes = Message.encode e.shape fields ∧
    (e.Keeps row → bytes.length < twoTo 64 →
      ∀ depth, columnsNesting row < depth → decodeWithin depth e.shape bytes = some fields)

variable {e : Encoder} {d : Descriptor.Message}

/-- **One row is read back** under the descriptor that it is encoded by. -/
theorem readsBack (h : Shape.ofDescriptor d = .ok e.shape) {row : Row} {bytes : List UInt8}
    (hrow : e.encodeRow row = .ok bytes) : e.ReadsBack row bytes := by
  obtain ⟨fields, hbuild, rfl⟩ := map_eq_ok.mp hrow
  obtain ⟨hp, hm⟩ := Shape.regular_of_ofFiles h
  refine ⟨fields, hbuild, rfl, fun hloss hlength depth hdepth => ?_⟩
  exact Message.decodeWithin_encode hp hm
    (Row.build_fits hp row hm hdepth hloss Message.messageFits_nil hbuild) hlength

/-- Rows become one byte string each, in order, and are read back. -/
theorem encode_readsBack (h : Shape.ofDescriptor d = .ok e.shape) {rows : List Row}
    {out : List (List UInt8)} (hencode : e.encode rows = .ok out) :
    List.Forall₂ e.ReadsBack rows out :=
  (encodeFrom_eq_ok hencode).imp fun _ _ hrow => readsBack h hrow

end Encoder

end RowStream
