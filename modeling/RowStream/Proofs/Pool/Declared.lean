import Mathlib.Data.List.Forall2
import RowStream.Proofs.Pool.Plain

/-!
# Fields and what declares them

The fields of a message resolve one by one, in the order in which they are declared, and are then put in
the order of their numbers. So each field of a pool is what one declaration resolves to, and what every
such field has in common holds of all of them (`ResolvedIn`).

A field says what its declaration says: its name, its number, its label and its type, with the full name
of a message or an enum, and the oneof it belongs to (`Declares`).

* `fields_resolve`, `resolved_of_message`: the fields of a message and of those inside.
* `declares_of_field`: a field beside its declaration.
-/

namespace RowStream

namespace Descriptor

@[simp] theorem FieldType.ofNumber_number (t : FieldType) : FieldType.ofNumber t.number = t := by
  cases t with
  | scalar s => cases s <;> rfl
  | _ => rfl

end Descriptor

namespace Pool

open Descriptor (FieldType)

/-! ## Fields of a pool -/

/-- The fields of the message are those that its declaration resolves to, one each, in some order. -/
def ResolvedIn (s : Scope) (m : Message) : Prop :=
  ∃ message gs, m.fields.Perm gs ∧ Distinct gs ∧
    List.Forall₂ (fun f g => ∃ path, s.field message m.descriptor.oneofs.length path f = .ok g)
      m.descriptor.fields gs

variable {s : Scope} {outer message : String} {oneofs : Nat} {path : List Nat}

/-- **Fields resolve one by one** after others, and keep apart from them. -/
theorem fields_resolve {index : Nat} {fs : List Descriptor.Field} {done out : List Field}
    (h : s.fields message oneofs path index done fs = .ok out) (hdone : Distinct done) :
    ∃ gs, out = done ++ gs ∧ Distinct out ∧
      List.Forall₂ (fun f g => ∃ path, s.field message oneofs path f = .ok g) fs gs := by
  induction fs generalizing index done with
  | nil =>
    obtain rfl := Except.ok.inj h
    exact ⟨[], by simp, hdone, .nil⟩
  | cons f fs ih =>
    simp only [Scope.fields, bind_eq_ok, addField_eq_ok] at h
    obtain ⟨g, hg, _, ⟨hnew, rfl⟩, hrest⟩ := h
    have hsnoc : Distinct (done ++ [g]) :=
      List.pairwise_append.mpr ⟨hdone, List.pairwise_singleton _ _,
        fun x hx y hy => List.mem_singleton.mp hy ▸ hnew x hx⟩
    obtain ⟨gs, rfl, hout, hall⟩ := ih hrest hsnoc
    exact ⟨g :: gs, by simp, hout, .cons ⟨_, hg⟩ hall⟩

mutual

/-- **A message resolves field by field**, and so do those inside. -/
theorem resolved_of_message : ∀ (d : Descriptor.Message) {outer : String} {path : List Nat}
    {out : List Message}, s.message outer path d = .ok out → ∀ m ∈ out, ResolvedIn s m
  | ⟨name, fields, nested, enums, options, oneofs, reserve⟩, outer, path, out, h => by
    rw [Scope.message.eq_def] at h
    simp only [bind_eq_ok, pure_eq_ok] at h
    obtain ⟨resolved, hfields, inner, hinner, -, -, rfl⟩ := h
    obtain ⟨_, rfl, hdistinct, hall⟩ := fields_resolve hfields List.Pairwise.nil
    exact List.forall_mem_cons.mpr ⟨⟨_, resolved, List.mergeSort_perm _ _, hdistinct, hall⟩,
      resolved_of_messages nested hinner⟩

theorem resolved_of_messages : ∀ (ds : List Descriptor.Message) {outer : String} {path : List Nat}
    {index : Nat} {out : List Message}, s.messages outer path index ds = .ok out →
      ∀ m ∈ out, ResolvedIn s m
  | [], _, _, _, _, h => by
    rw [messages_nil.mp h]
    exact fun m hm => absurd hm List.not_mem_nil
  | d :: ds, _, _, _, _, h => by
    obtain ⟨first, rest, hfirst, hrest, rfl⟩ := messages_cons.mp h
    exact List.forall_mem_append.mpr ⟨resolved_of_message d hfirst, resolved_of_messages ds hrest⟩

end

variable {m : Message}

/-- What holds of all that declarations resolve to holds of the fields of a message. -/
theorem ResolvedIn.forall_mem (h : ResolvedIn s m) {P : Field → Prop}
    (hP : ∀ message path f g, s.field message m.descriptor.oneofs.length path f = .ok g → P g) :
    ∀ f ∈ m.fields, P f := by
  obtain ⟨message, gs, hperm, -, hall⟩ := h
  intro f hf
  obtain ⟨i, hi, rfl⟩ := List.mem_iff_getElem.mp (hperm.mem_iff.mp hf)
  obtain ⟨path, hpath⟩ := hall.get (hall.length_eq ▸ hi) hi
  exact hP message path _ _ hpath

theorem ResolvedIn.distinct (h : ResolvedIn s m) : (m.fields.map (·.number)).Nodup := by
  obtain ⟨message, gs, hperm, hdistinct, -⟩ := h
  exact (hperm.map _).nodup_iff.mpr (List.pairwise_map.mpr (hdistinct.imp fun hfg => hfg.1))

/-! ## Fields beside their declarations -/

/-- The type that a field of the kind has. -/
def Kind.type : Kind → FieldType
  | .scalar s => .scalar s
  | .message _ => .message
  | .group _ => .group
  | .enum _ => .enum

/-- The field says what its declaration says, in a message with so many oneofs. -/
structure Declares (oneofs : Nat) (f : Descriptor.Field) (g : Field) : Prop where
  name : f.nameText = g.name
  number : (f.number.getD 0).toInt = g.number
  label : f.labelValue = g.label
  descriptor : g.descriptor = complete g.kind f
  type : g.descriptor.typeValue = g.kind.type
  oneof : g.oneof = f.oneofIndex.map (·.toInt.toNat)
  bounded : ∀ i, g.oneof = some i → i < oneofs ∧ i < twoTo 31

variable {f : Descriptor.Field} {g : Field}

theorem typeValue_complete {names : Names} {imported : List String} {scope : String} {k : Kind}
    (h : resolveKind names imported scope path f = .ok k) : (complete k f).typeValue = k.type := by
  unfold resolveKind at h
  split at h
  · split at h
    · rename_i s htype
      obtain rfl := Except.ok.inj h
      exact htype
    · simp at h
  · -- the number of the type is filled in
    simp only [bind_eq_ok, pure_eq_ok] at h
    obtain ⟨d, -, rfl⟩ := h
    unfold kindOf
    split_ifs <;> simp [complete, Descriptor.Field.typeValue, Kind.type]

/-- **A field says what its declaration says.** -/
theorem declares_of_field (h : s.field message oneofs path f = .ok g) : Declares oneofs f g := by
  rw [Scope.field, refuse_eq_ok] at h
  simp only [Bool.not_eq_true, Bool.not_eq_false', bind_eq_ok, pure_eq_ok, resolveOneof_eq_ok] at h
  obtain ⟨hnumber, kind, hkind, value, -, _, ⟨hbounded, rfl⟩, rfl⟩ := h
  have hlow : (1 : Int) ≤ (f.number.getD 0).toInt :=
    Int32.le_iff_toInt_le.mp (of_decide_eq_true hnumber).1
  refine ⟨rfl, ?_, rfl, rfl, typeValue_complete hkind, rfl, fun i hi => ?_⟩
  · exact (Int.toNat_of_nonneg (by omega)).symm
  · obtain ⟨x, hx, rfl⟩ := Option.map_eq_some_iff.mp hi
    have hcount := hbounded x hx
    have hmax : x.toInt < twoTo 31 := x.toInt_lt
    exact ⟨by omega, by omega⟩

/-- Every field of a message says what one of the declarations says, and each of these has one. -/
theorem ResolvedIn.declares (h : ResolvedIn s m) : ∃ gs, m.fields.Perm gs ∧
    List.Forall₂ (Declares m.descriptor.oneofs.length) m.descriptor.fields gs := by
  obtain ⟨message, gs, hperm, -, hall⟩ := h
  exact ⟨gs, hperm, hall.imp fun f g ⟨_, hg⟩ => declares_of_field hg⟩

end Pool

end RowStream
