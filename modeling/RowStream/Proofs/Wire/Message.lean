import RowStream.Proofs.Text.Utf8
import RowStream.Proofs.Wire.Record
import RowStream.Wire.Message

/-!
# Messages survive as records

Reading starts from the empty message, whose members all hold what is not written. So the records of a
value are taken member by member, in the order in which they are written, and each puts its member in
place (`Takes`). A member that holds its default has no record, and there the value so far has it
already.

Messages nest only so deep where they are read, and a nested message that is too deep is refused. So what
is taken always says when it fits.

What a message type has to give for this is which member each record sets. The rest is the same for all
of them (`Faithful`): its records are read back from their bytes, alone or as a nested message, as long
as there is room for the levels that nest in the value, and a count of 64 bits for its bytes.

* `Takes.int64` and the others: the members of a message.
* `Takes.step`, `Takes.close`, `Takes.append`, `Takes.finish`: members one after the other.
* `Takes.absorbAll`: records that are taken are read back from their bytes.
* `builds_of_inner`: a message with messages of its own type in it.
* `Faithful.decode_encode`: a value is read back from its bytes.
* `Faithful.decode_encode_of_deep`: a value with more levels than are read is not.
-/

namespace RowStream.Wire

variable {α β : Type}

/-! ## Payloads -/

/-- The low bits of a widened integer are the integer. -/
theorem toInt32_toInt64 (n : Int32) : n.toInt64.toUInt64.toUInt32.toInt32 = n := by
  apply Int32.toBitVec.inj
  change (n.toBitVec.signExtend 64).setWidth 32 = n.toBitVec
  ext i hi
  have hwide : i < 64 := Nat.lt_trans hi (by decide)
  rw [BitVec.getElem_setWidth, BitVec.getLsbD_eq_getElem hwide, BitVec.getElem_signExtend, dif_pos hi]

/-- The payload is no group. If a count can hold its bytes, it reads as the value where this fits, and
else not at all. -/
structure Says (read : Payload → Option β) (p : Payload) (x : β) (fits : Prop) : Prop where
  flat : ∀ rs, p ≠ .group rs
  value : p.Plain → fits → read p = some x
  refused : p.Plain → ¬ fits → read p = none

theorem Says.of_eq {read : Payload → Option β} {p : Payload} {x : β} (hflat : ∀ rs, p ≠ .group rs)
    (h : read p = some x) : Says read p x True :=
  ⟨hflat, fun _ _ => h, fun _ hfits => absurd trivial hfits⟩

theorem says_int64 (n : Int64) : Says Payload.int64? (.varint n.toUInt64) n True :=
  .of_eq nofun (congrArg some (Int64.toInt64_toUInt64 n))

theorem says_nat64 (n : UInt64) : Says Payload.nat64? (.varint n) n True := .of_eq nofun rfl

theorem says_int32 (n : Int32) : Says Payload.int32? (int32Payload n) n True :=
  .of_eq nofun (congrArg some (toInt32_toInt64 n))

theorem says_bool (b : Bool) : Says Payload.bool? (boolPayload b) b True :=
  .of_eq nofun (by cases b <;> rfl)

theorem says_double (x : Double) : Says Payload.double? (.fixed64 x.bits) x True := .of_eq nofun rfl

theorem says_bytes (b : List UInt8) : Says Payload.bytes? (.bytes b) b True := .of_eq nofun rfl

theorem says_text (s : String) : Says Payload.text? (textPayload s) s True :=
  .of_eq nofun (Utf8.decode_encode s)

/-! ## Records one after the other -/

/-- The number of a field. -/
def IsNumber (k : Nat) : Prop := 1 ≤ k ∧ k < twoTo 29

instance (k : Nat) : Decidable (IsNumber k) := inferInstanceAs (Decidable (_ ∧ _))

/-- A message type takes the records into the value `a`, which becomes `b` if what they say fits. If it
does not, one of them is refused. -/
structure Takes (absorb : α → Record → Option α) (a : α) (rs : List Record) (b : α) (fits : Prop) :
    Prop where
  numbered : ∀ r ∈ rs, IsNumber r.1
  flat : ∀ r ∈ rs, ∀ inner, r.2 ≠ .group inner
  taken : (∀ r ∈ rs, r.2.Plain) → fits → rs.foldlM absorb a = some b
  refused : (∀ r ∈ rs, r.2.Plain) → ¬ fits → rs.foldlM absorb a = none

namespace Takes

variable {absorb : α → Record → Option α} {a b c : α} {rs ss : List Record} {k : Nat}
  {read : Payload → Option β} {payload : β → Payload} {fits fits' : Prop}

theorem nil : Takes absorb a [] a True :=
  ⟨nofun, nofun, fun _ _ => rfl, fun _ hfits => absurd trivial hfits⟩

theorem append (h : Takes absorb a rs b fits) (h' : Takes absorb b ss c fits') :
    Takes absorb a (rs ++ ss) c (fits ∧ fits') := by
  constructor
  case numbered => exact List.forall_mem_append.mpr ⟨h.numbered, h'.numbered⟩
  case flat => exact List.forall_mem_append.mpr ⟨h.flat, h'.flat⟩
  case taken =>
    rintro hplain ⟨hfits, hfits'⟩
    obtain ⟨hfirst, hrest⟩ := List.forall_mem_append.mp hplain
    rw [List.foldlM_append, h.taken hfirst hfits]
    exact h'.taken hrest hfits'
  case refused =>
    intro hplain hnot
    obtain ⟨hfirst, hrest⟩ := List.forall_mem_append.mp hplain
    rw [List.foldlM_append]
    by_cases hfits : fits
    · rw [h.taken hfirst hfits]
      exact h'.refused hrest fun hfits' => hnot ⟨hfits, hfits'⟩
    · rw [h.refused hfirst hfits]
      rfl

/-- What is built, and when it fits, said in other words. -/
theorem of_eq (h : Takes absorb a rs b fits) (heq : b = c) (hfits : fits ↔ fits') :
    Takes absorb a rs c fits' := heq ▸ propext hfits ▸ h

/-- A member that always fits, and then the others. -/
theorem step (h : Takes absorb a rs b True) (rest : Takes absorb b ss c fits) :
    Takes absorb a (rs ++ ss) c fits :=
  .of_eq (h.append rest) rfl (by rw [true_and])

/-- The last member with levels in it, and then the others. -/
theorem close (h : Takes absorb a rs b fits) (rest : Takes absorb b ss c True) :
    Takes absorb a (rs ++ ss) c fits :=
  .of_eq (h.append rest) rfl (by rw [and_true])

/-- No levels always fit. -/
theorem of_zero {depth : Nat} (h : Takes absorb a rs b True) : Takes absorb a rs b (0 ≤ depth) :=
  .of_eq h rfl (by simp)

/-- The last member, with which the value is complete. -/
theorem finish (h : Takes absorb a rs b fits) (heq : b = c := by rfl) : Takes absorb a rs c fits := heq ▸ h

/-- One record is taken as its payload says. -/
theorem single (set : β → α) {p : Payload} {x : β} (h : Says read p x fits) (hk : IsNumber k)
    (hset : ∀ p, absorb a (k, p) = (read p).map set) : Takes absorb a [(k, p)] (set x) fits := by
  constructor
  case numbered => exact fun r hr => List.mem_singleton.mp hr ▸ hk
  case flat => exact fun r hr => List.mem_singleton.mp hr ▸ h.flat
  case taken =>
    intro hplain hfits
    have hread := h.value (hplain _ (List.mem_singleton_self _)) hfits
    simp [hset, hread]
  case refused =>
    intro hplain hnot
    have hread := h.refused (hplain _ (List.mem_singleton_self _)) hnot
    simp [hset, hread]

/-- A member that is not written where it holds its default. -/
theorem unlessDefault [DecidableEq β] {d x : β} {p : Payload} (set : α → β → α)
    (h : Says read p x True) (hk : IsNumber k) (hset : ∀ p, absorb a (k, p) = (read p).map (set a))
    (hdefault : set a d = a) : Takes absorb a (if x = d then [] else [(k, p)]) (set a x) True := by
  split
  · rename_i heq
    rw [heq, hdefault]
    exact nil
  · exact single (set a) h hk hset

-- What is left for a member of a type: its number is one, a record with it sets the member, and the
-- default leaves the value as it is. All three are computed with the functions of the type.

theorem int64 (set : α → Int64 → α) {n : Int64} (hk : IsNumber k := by decide)
    (hset : ∀ p, absorb a (k, p) = p.int64?.map (set a) := by intro _; rfl)
    (hdefault : set a 0 = a := by rfl) : Takes absorb a (int64 k n) (set a n) True :=
  unlessDefault set (says_int64 n) hk hset hdefault

theorem int32 (set : α → Int32 → α) {n : Int32} (hk : IsNumber k := by decide)
    (hset : ∀ p, absorb a (k, p) = p.int32?.map (set a) := by intro _; rfl)
    (hdefault : set a 0 = a := by rfl) : Takes absorb a (int32 k n) (set a n) True :=
  unlessDefault set (says_int32 n) hk hset hdefault

theorem text (set : α → String → α) {s : String} (hk : IsNumber k := by decide)
    (hset : ∀ p, absorb a (k, p) = p.text?.map (set a) := by intro _; rfl)
    (hdefault : set a "" = a := by rfl) : Takes absorb a (text k s) (set a s) True :=
  unlessDefault set (says_text s) hk hset hdefault

theorem bytes (set : α → List UInt8 → α) {b : List UInt8} (hk : IsNumber k := by decide)
    (hset : ∀ p, absorb a (k, p) = p.bytes?.map (set a) := by intro _; rfl)
    (hdefault : set a [] = a := by rfl) : Takes absorb a (bytes k b) (set a b) True :=
  unlessDefault set (says_bytes b) hk hset hdefault

/-- A member that is always written. -/
theorem required (set : α → β → α) {p : Payload} {x : β} (h : Says read p x True)
    (hk : IsNumber k := by decide)
    (hset : ∀ p, absorb a (k, p) = (read p).map (set a) := by intro _; rfl) :
    Takes absorb a [(k, p)] (set a x) True :=
  single (set a) h hk hset

/-- A member that is written whenever it is set. -/
theorem optional_of {fits : β → Prop} (set : α → Option β → α) {o : Option β}
    (h : ∀ x ∈ o, Says read (payload x) x (fits x)) (hk : IsNumber k)
    (hset : ∀ p, absorb a (k, p) = (read p).map fun x => set a (some x)) (hunset : set a none = a) :
    Takes absorb a (Wire.optional k payload o) (set a o) (∀ x ∈ o, fits x) := by
  cases o with
  | none => exact .of_eq nil hunset.symm (by simp)
  | some x => exact .of_eq (single (fun x => set a (some x)) (h x rfl) hk hset) rfl (by simp)

theorem optional (set : α → Option β → α) {o : Option β} (h : ∀ x, Says read (payload x) x True)
    (hk : IsNumber k := by decide)
    (hset : ∀ p, absorb a (k, p) = (read p).map fun x => set a (some x) := by intro _; rfl)
    (hunset : set a none = a := by rfl) :
    Takes absorb a (Wire.optional k payload o) (set a o) True :=
  .of_eq (optional_of set (fun x _ => h x) hk hset hunset) rfl (by simp)

/-- A member that is written once for each of its values. -/
theorem repeated_of {fits : β → Prop} (set : α → List β → α) {xs : List β}
    (h : ∀ x ∈ xs, Says read (payload x) x (fits x)) (hk : IsNumber k)
    (hset : ∀ ys p, absorb (set a ys) (k, p) = (read p).map fun y => set a (ys ++ [y]))
    (hempty : set a [] = a) :
    Takes absorb a (Wire.repeated k payload xs) (set a xs) (∀ x ∈ xs, fits x) := by
  have hfrom (ys : List β) : Takes absorb (set a ys) (Wire.repeated k payload xs) (set a (ys ++ xs))
      (∀ x ∈ xs, fits x) := by
    induction xs generalizing ys with
    | nil => exact .of_eq nil (by rw [List.append_nil]) (by simp)
    | cons x xs ih =>
      obtain ⟨hx, hxs⟩ := List.forall_mem_cons.mp h
      have hfirst := single (fun y => set a (ys ++ [y])) hx hk (hset ys)
      exact .of_eq (hfirst.append (ih hxs (ys ++ [x]))) (by rw [List.append_assoc]; rfl)
        List.forall_mem_cons.symm
  have hall := hfrom []
  rwa [hempty] at hall

theorem repeated (set : α → List β → α) {xs : List β} (h : ∀ x, Says read (payload x) x True)
    (hk : IsNumber k := by decide)
    (hset : ∀ ys p, absorb (set a ys) (k, p) = (read p).map fun y => set a (ys ++ [y]) := by
      intro _ _; rfl)
    (hempty : set a [] = a := by rfl) :
    Takes absorb a (Wire.repeated k payload xs) (set a xs) True :=
  .of_eq (repeated_of set (fun x _ => h x) hk hset hempty) rfl (by simp)

end Takes

/-! ## Numbers of records -/

theorem number_of_mem_unless {r : Record} {k : Nat} {p : Payload} {c : Prop} [Decidable c]
    (h : r ∈ if c then [] else [(k, p)]) : r.1 = k := by
  split at h
  · exact absurd h List.not_mem_nil
  · rw [List.mem_singleton.mp h]

theorem number_of_mem_optional {r : Record} {k : Nat} {payload : β → Payload} {o : Option β}
    (h : r ∈ optional k payload o) : r.1 = k := by
  cases o with
  | none => exact absurd h List.not_mem_nil
  | some x => rw [List.mem_singleton.mp h]

/-! ## Messages in messages -/

/-- How many levels there are below a member that holds messages: one for the messages themselves, and
those below them. -/
def below (levels : α → Nat) : List α → Nat
  | [] => 0
  | a :: as => max (levels a + 1) (below levels as)

theorem below_le {levels : α → Nat} {as : List α} {n : Nat} :
    below levels as ≤ n ↔ ∀ a ∈ as, levels a < n := by
  induction as with
  | nil => simp [below]
  | cons a as ih => rw [below, Nat.max_le, ih, List.forall_mem_cons, Nat.succ_le_iff]

theorem below_perm {levels : α → Nat} {as bs : List α} (h : as.Perm bs) :
    below levels as = below levels bs :=
  Nat.le_antisymm
    (below_le.mpr fun a ha => below_le.mp (Nat.le_refl _) a (h.mem_iff.mp ha))
    (below_le.mpr fun a ha => below_le.mp (Nat.le_refl _) a (h.mem_iff.mpr ha))

section

variable [Message α] {depth : Nat} {a b : α} {rs : List Record} {fits : Prop}

/-- The records are read from their bytes, and then taken. -/
theorem Takes.absorbAll_eq (h : Takes (Message.absorb depth) a rs b fits)
    (hcounted : ∀ r ∈ rs, Message.counted α r.1 = true → r.2.shape = 2)
    (hsize : (encodeRecords rs).length < twoTo 64) : (∀ r ∈ rs, r.2.Plain) ∧
      absorbAll (Message.absorb depth) depth a (encodeRecords rs) (Message.counted α) =
        rs.foldlM (Message.absorb depth) a := by
  have hplain : ∀ r ∈ rs, r.2.Plain := by
    rintro ⟨k, p⟩ hr
    cases p with
    | bytes _ => exact Nat.lt_of_le_of_lt (length_le_of_mem hr) hsize
    | group inner => exact absurd rfl (h.flat _ hr inner)
    | _ => trivial
  have hwritable : ∀ r ∈ rs, Writable depth r := fun r hr =>
    ⟨(h.numbered r hr).1, (h.numbered r hr).2, (hplain r hr).writable depth⟩
  refine ⟨hplain, ?_⟩
  unfold absorbAll
  rw [decodeRecords_encodeRecords hwritable hcounted]

/-- **Records that are taken are read back from their bytes**, if what they say fits, as long as a count
holds these. -/
theorem Takes.absorbAll (h : Takes (Message.absorb depth) a rs b fits)
    (hcounted : ∀ r ∈ rs, Message.counted α r.1 = true → r.2.shape = 2)
    (hsize : (encodeRecords rs).length < twoTo 64) (hfits : fits) :
    Wire.absorbAll (Message.absorb depth) depth a (encodeRecords rs) (Message.counted α) = some b := by
  obtain ⟨hplain, heq⟩ := h.absorbAll_eq hcounted hsize
  rw [heq, h.taken hplain hfits]

theorem Takes.absorbAll_eq_none (h : Takes (Message.absorb depth) a rs b fits)
    (hcounted : ∀ r ∈ rs, Message.counted α r.1 = true → r.2.shape = 2)
    (hsize : (encodeRecords rs).length < twoTo 64) (hnot : ¬ fits) :
    Wire.absorbAll (Message.absorb depth) depth a (encodeRecords rs) (Message.counted α) = none := by
  obtain ⟨hplain, heq⟩ := h.absorbAll_eq hcounted hsize
  rw [heq, h.refused hplain hnot]

/-- The records of a value are taken into the empty message, where there is room for its levels. -/
def Builds (levels : α → Nat) (depth : Nat) (a : α) : Prop :=
  Takes (Message.absorb depth) Message.empty (Message.records a) a (levels a ≤ depth)

theorem says_message {levels : α → Nat} (h : Builds levels depth a)
    (huncounted : ∀ k, Message.counted α k = false) :
    Says (nested (depth + 1) Message.empty) (messagePayload a) a (levels a < depth + 1) := by
  have hcounted : ∀ r ∈ Message.records a, Message.counted α r.1 = true → r.2.shape = 2 :=
    fun _ _ hyes => absurd hyes (by simp [huncounted])
  constructor
  case flat => exact nofun
  case value => exact fun hsize hlt => h.absorbAll hcounted hsize (Nat.lt_succ_iff.mp hlt)
  case refused =>
    exact fun hsize hnot => h.absorbAll_eq_none hcounted hsize fun hle =>
      hnot (Nat.lt_succ_iff.mpr hle)

/-- Below the last level there is no room for a message. -/
theorem says_zero {levels : α → Nat} (a : α) :
    Says (nested 0 Message.empty) (messagePayload a) a (levels a < 0) :=
  ⟨nofun, fun _ hlt => absurd hlt (Nat.not_lt_zero _), fun _ _ => rfl⟩

/-- **A message with messages of its own type in it** is built from its records, if it is so once these
are read back. -/
theorem builds_of_inner {levels : α → Nat} {inner : α → List α}
    (huncounted : ∀ k, Message.counted α k = false)
    (h : ∀ {depth a}, (∀ b ∈ inner a,
      Says (nested depth Message.empty) (messagePayload b) b (levels b < depth)) →
      Builds levels depth a) (depth : Nat) (a : α) : Builds levels depth a := by
  induction depth generalizing a with
  | zero => exact h fun b _ => says_zero b
  | succ depth ih => exact h fun b _ => says_message (ih b) huncounted

/-- A message type whose values are read back from their records exactly where there is room for their
levels. -/
class Faithful (α : Type) [Message α] where
  /-- How deep messages nest in a value. -/
  levels : α → Nat := fun _ => 0
  builds : ∀ depth a, Builds levels depth a
  uncounted : ∀ k, Message.counted α k = false := by intro _; rfl

namespace Faithful

variable [Faithful α]

/-- **A nested message is read back.** -/
theorem says_nested (depth : Nat) (a : α) :
    Says (nested depth Message.empty) (messagePayload a) a (levels a < depth) := by
  cases depth with
  | zero => exact says_zero a
  | succ depth => exact says_message (builds depth a) uncounted

/-- **A value is read back from its bytes.** -/
theorem decode_encode (h : levels a ≤ maxDepth) (hsize : (encode a).length < twoTo 64) :
    decode (encode a) = some a :=
  (builds maxDepth a).absorbAll (fun _ _ hyes => absurd hyes (by simp [uncounted])) hsize h

/-- A value with more levels than are read is refused. -/
theorem decode_encode_of_deep (h : maxDepth < levels a) (hsize : (encode a).length < twoTo 64) :
    (decode (encode a) : Option α) = none :=
  (builds maxDepth a).absorbAll_eq_none (fun _ _ hyes => absurd hyes (by simp [uncounted])) hsize
    (Nat.not_le.mpr h)

end Faithful

end

namespace Takes

open Faithful

variable [Message β] [Faithful β] {absorb : α → Record → Option α} {a : α} {k depth : Nat}

theorem message (set : α → Option β → α) {o : Option β} (hk : IsNumber k := by decide)
    (hset : ∀ p, absorb a (k, p) = (nested depth Message.empty p).map fun x => set a (some x) := by
      intro _; rfl)
    (hunset : set a none = a := by rfl) :
    Takes absorb a (Wire.optional k messagePayload o) (set a o)
      (below levels o.toList ≤ depth) := by
  refine .of_eq (optional_of set (fun x _ => says_nested depth x) hk hset hunset) rfl ?_
  simp only [below_le, Option.mem_toList, Option.mem_def]

theorem messages (set : α → List β → α) {xs : List β} (hk : IsNumber k := by decide)
    (hset : ∀ ys p, absorb (set a ys) (k, p) =
      (nested depth Message.empty p).map fun y => set a (ys ++ [y]) := by intro _ _; rfl)
    (hempty : set a [] = a := by rfl) :
    Takes absorb a (Wire.repeated k messagePayload xs) (set a xs) (below levels xs ≤ depth) :=
  .of_eq (repeated_of set (fun x _ => says_nested depth x) hk hset hempty) rfl below_le.symm

end Takes

end RowStream.Wire
