import RowStream.Wire.Record

/-!
# Records survive as bytes

A number in groups of seven bits, a number in a fixed count of bytes and a counted run of bytes are read
back whatever follows them, so records are read back one after the other.

What can be written so is bounded by the key and by the count of a run: field numbers of 29 bits, and
runs of bytes that 64 bits can count. Groups nest only so deep, and the deepest hold nothing (`Writable`).

* `decodeVarint_encodeVarint`, `ofLittleEndian_littleEndian`: numbers.
* `decodePlain_body`: payloads that are no groups.
* `readRecords_encodeRecords`: sequences of records, up to their end or that of their group.
-/

namespace RowStream.Wire

/-! ## Numbers -/

theorem encodeVarint_of_lt {n : Nat} (h : n < 128) : encodeVarint n = [UInt8.ofNat n] := by
  rw [encodeVarint, if_pos h]

theorem encodeVarint_of_ge {n : Nat} (h : ¬ n < 128) :
    encodeVarint n = UInt8.ofNat (n % 128 + 128) :: encodeVarint (n / 128) := by
  rw [encodeVarint, if_neg h]

theorem encodeVarint_ne_nil (n : Nat) : encodeVarint n ≠ [] := by
  by_cases h : n < 128
  · simp [encodeVarint_of_lt h]
  · simp [encodeVarint_of_ge h]

theorem readVarint_of_lt {k n : Nat} (h : n < 128) (rest : List UInt8) :
    readVarint (k + 1) (encodeVarint n ++ rest) = some (n, rest) := by
  have hnat : (UInt8.ofNat n).toNat = n := by
    simp only [UInt8.toNat_ofNat']
    omega
  have hlt : UInt8.ofNat n < 128 := by
    simpa only [UInt8.lt_iff_toNat_lt, hnat, UInt8.reduceToNat] using h
  rw [encodeVarint_of_lt h, List.singleton_append, readVarint, if_pos hlt, hnat]

/-- A number is read back in as many bytes as it has groups of seven bits. -/
theorem readVarint_encodeVarint {k n : Nat} (h : n < Nat.pow 128 (k + 1)) (rest : List UInt8) :
    readVarint (k + 1) (encodeVarint n ++ rest) = some (n, rest) := by
  induction k generalizing n with
  | zero => exact readVarint_of_lt (by simpa using h) rest
  | succ k ih =>
    by_cases hn : n < 128
    · exact readVarint_of_lt hn rest
    · have hnat : (UInt8.ofNat (n % 128 + 128)).toNat = n % 128 + 128 := by
        simp only [UInt8.toNat_ofNat']
        omega
      have hge : ¬ UInt8.ofNat (n % 128 + 128) < 128 := by
        simp only [UInt8.lt_iff_toNat_lt, hnat, UInt8.reduceToNat]
        omega
      have hdiv : n / 128 < Nat.pow 128 (k + 1) := (Nat.div_lt_iff_lt_mul (by decide)).mpr h
      rw [encodeVarint_of_ge hn, List.cons_append, readVarint, if_neg hge, ih hdiv, hnat,
        Nat.add_sub_cancel]
      exact congrArg (fun m => some (m, rest)) (Nat.mod_add_div n 128)

/-- **A number of 64 bits is read back.** -/
theorem decodeVarint_encodeVarint {n : Nat} (h : n < twoTo 64) (rest : List UInt8) :
    decodeVarint (encodeVarint n ++ rest) = some (n, rest) := by
  have hbound : n < Nat.pow 128 (9 + 1) := Nat.lt_trans h (by decide)
  rw [decodeVarint, readVarint_encodeVarint hbound]
  exact if_pos h

@[simp] theorem length_littleEndian (k n : Nat) : (littleEndian k n).length = k := by
  induction k generalizing n with
  | zero => rfl
  | succ k ih => rw [littleEndian, List.length_cons, ih]

/-- **A number is read back from its lowest bytes**, as far as they go. -/
theorem ofLittleEndian_littleEndian (k n : Nat) :
    ofLittleEndian (littleEndian k n) = n % Nat.pow 256 k := by
  induction k generalizing n with
  | zero => simp [littleEndian, ofLittleEndian, Nat.mod_one]
  | succ k ih =>
    have hlow : (UInt8.ofNat (n % 256)).toNat = n % 256 := by
      simp only [UInt8.toNat_ofNat']
      omega
    have hpow : Nat.pow 256 (k + 1) = 256 * Nat.pow 256 k := Nat.mul_comm _ _
    rw [littleEndian, ofLittleEndian, ih, hlow, hpow, Nat.mod_mul]

theorem splitBytes_append {k : Nat} {b : List UInt8} (h : b.length = k) (rest : List UInt8) :
    splitBytes k (b ++ rest) = some (b, rest) := by
  subst h
  rw [splitBytes, if_pos (by simp), List.take_left, List.drop_left]

/-- The key of a record is read back when its number has at most 29 bits. -/
theorem decodeKey_encodeKey {number shape : Nat} (hpos : 1 ≤ number) (hmax : number < twoTo 29)
    (hshape : shape < 8) (rest : List UInt8) :
    decodeKey (encodeKey number shape ++ rest) = some (number, shape, rest) := by
  have hmax' : number < 536870912 := hmax
  have hkey : number * 8 + shape < twoTo 64 := Nat.lt_trans (by omega) (by decide : 4294967296 < twoTo 64)
  have hbounds : number * 8 + shape < twoTo 32 ∧ 8 ≤ number * 8 + shape :=
    ⟨show number * 8 + shape < 4294967296 by omega, by omega⟩
  have hdiv : (number * 8 + shape) / 8 = number := by omega
  have hmod : (number * 8 + shape) % 8 = shape := by omega
  rw [encodeKey, decodeKey, decodeVarint_encodeVarint hkey]
  simp only [hbounds, and_self, if_true, hdiv, hmod]

/-! ## Records -/

/-- The shape of a payload, as its key says it. -/
def Payload.shape : Payload → Nat
  | .varint _ => 0
  | .fixed64 _ => 1
  | .bytes _ => 2
  | .group _ => 3
  | .fixed32 _ => 5

/-- The bytes of a payload after its key. -/
def Payload.body : Payload → List UInt8
  | .varint n => encodeVarint n.toNat
  | .fixed64 n => littleEndian 8 n.toNat
  | .bytes b => encodeVarint b.length ++ b
  | .group _ => []
  | .fixed32 n => littleEndian 4 n.toNat

/-- The payload is no group, and a count of 64 bits holds its bytes. -/
def Payload.Plain : Payload → Prop
  | .bytes b => b.length < twoTo 64
  | .group _ => False
  | _ => True

mutual

/-- The payload can be written where groups may lie `depth` deep; the deepest of them is empty. -/
def Payload.Writable : Nat → Payload → Prop
  | _, .bytes b => b.length < twoTo 64
  | depth, .group rs => 0 < depth ∧ (rs ≠ [] → 1 < depth) ∧ AllWritable (depth - 1) rs
  | _, _ => True

/-- The records can be written: field numbers have 29 bits. -/
def AllWritable : Nat → List (Nat × Payload) → Prop
  | _, [] => True
  | depth, (number, p) :: rs =>
    (1 ≤ number ∧ number < twoTo 29 ∧ p.Writable depth) ∧ AllWritable depth rs

end

/-- What can be written as a record. -/
structure Writable (depth : Nat) (r : Record) : Prop where
  positive : 1 ≤ r.1
  bounded : r.1 < twoTo 29
  payload : r.2.Writable depth

theorem allWritable_iff {depth : Nat} {rs : List Record} :
    AllWritable depth rs ↔ ∀ r ∈ rs, Writable depth r := by
  induction rs with
  | nil => simp [AllWritable]
  | cons r rs ih =>
    rw [AllWritable, ih, List.forall_mem_cons]
    refine and_congr_left' ⟨fun ⟨hpos, hmax, hp⟩ => ⟨hpos, hmax, hp⟩, fun h => ?_⟩
    exact ⟨h.positive, h.bounded, h.payload⟩

theorem Payload.Plain.writable {p : Payload} (h : p.Plain) (depth : Nat) : p.Writable depth := by
  cases p with
  | group _ => exact h.elim
  | bytes b => exact h
  | _ => trivial

theorem Payload.Writable.plain_or {p : Payload} {depth : Nat} (h : p.Writable depth) : p.Plain ∨
    ∃ rs, p = .group rs ∧ 0 < depth ∧ (rs ≠ [] → 1 < depth) ∧ ∀ r ∈ rs, Wire.Writable (depth - 1) r := by
  cases p with
  | group rs =>
    obtain ⟨hdepth, hroom, hall⟩ := h
    exact .inr ⟨rs, rfl, hdepth, hroom, allWritable_iff.mp hall⟩
  | bytes b => exact .inl h
  | _ => exact .inl trivial

theorem Payload.Plain.shape_ne {p : Payload} (h : p.Plain) : p.shape < 8 ∧ p.shape ≠ 3 ∧
    p.shape ≠ 4 := by
  cases p with
  | group _ => exact h.elim
  | _ => simp [shape]

theorem encodeRecord_eq {number : Nat} {p : Payload} (h : p.Plain) :
    encodeRecord number p = encodeKey number p.shape ++ p.body := by
  cases p with
  | group _ => exact h.elim
  | _ => rw [encodeRecord]; rfl

/-- **A payload is read back**, and what follows it stays. -/
theorem decodePlain_body {p : Payload} (h : p.Plain) (rest : List UInt8) :
    decodePlain p.shape (p.body ++ rest) = some (p, rest) := by
  cases p with
  | varint n =>
    have hn : n.toNat < twoTo 64 := n.toNat_lt
    simp only [Payload.shape, Payload.body, decodePlain, decodeVarint_encodeVarint hn,
      Option.map_some, UInt64.ofNat_toNat]
  | fixed64 n =>
    have hn : n.toNat % Nat.pow 256 8 = n.toNat := Nat.mod_eq_of_lt n.toNat_lt
    simp only [Payload.shape, Payload.body, decodePlain, splitBytes_append (length_littleEndian 8 _),
      Option.map_some, ofLittleEndian_littleEndian, hn, UInt64.ofNat_toNat]
  | bytes b =>
    simp only [Payload.shape, Payload.body, decodePlain, List.append_assoc,
      decodeVarint_encodeVarint h, splitBytes_append rfl, Option.map_some]
  | group _ => exact h.elim
  | fixed32 n =>
    have hn : n.toNat % Nat.pow 256 4 = n.toNat := Nat.mod_eq_of_lt n.toNat_lt
    simp only [Payload.shape, Payload.body, decodePlain, splitBytes_append (length_littleEndian 4 _),
      Option.map_some, ofLittleEndian_littleEndian, hn, UInt32.ofNat_toNat]

/-! ## Sequences of records -/

/-- A run of bytes is not longer than the records around it. -/
theorem length_le_of_mem {number : Nat} {b : List UInt8} {rs : List Record}
    (h : (number, .bytes b) ∈ rs) : b.length ≤ (encodeRecords rs).length := by
  induction rs with
  | nil => exact absurd h List.not_mem_nil
  | cons r rs ih =>
    rw [encodeRecords, List.length_append]
    rcases List.mem_cons.mp h with rfl | h
    · rw [encodeRecord]
      simp only [List.length_append]
      omega
    · exact Nat.le_trans (ih h) (Nat.le_add_left _ _)

/-- Nor is a group. -/
theorem group_length_le_of_mem {number : Nat} {inner rs : List Record}
    (h : (number, .group inner) ∈ rs) : (encodeRecords inner).length ≤ (encodeRecords rs).length := by
  induction rs with
  | nil => exact absurd h List.not_mem_nil
  | cons r rs ih =>
    rw [encodeRecords, List.length_append]
    rcases List.mem_cons.mp h with rfl | h
    · rw [encodeRecord]
      simp only [List.length_append]
      omega
    · exact Nat.le_trans (ih h) (Nat.le_add_left _ _)

section

variable {counted : Nat → Bool} {depth number : Nat} {close : Option Nat} {p : Payload}
  {rs : List Record}

/-- No counted number but those of runs of bytes stands outside of groups. -/
def Uncounted (counted : Nat → Bool) (close : Option Nat) (rs : List Record) : Prop :=
  close = none → ∀ r ∈ rs, counted r.1 = true → r.2.shape = 2

theorem shapeOf_eq (h : close = none → counted number = true → p.shape = 2) :
    shapeOf counted close number p.shape = p.shape := by
  unfold shapeOf
  split
  · rename_i hcond
    simp only [Option.isNone_iff_eq_none, Bool.and_eq_true] at hcond
    exact (h hcond.1.1 hcond.1.2).symm
  · rfl

/-- A key and a plain payload are read, and then what follows. -/
theorem readRecords_plain {count : Nat} (hpos : 1 ≤ number) (hmax : number < twoTo 29)
    (hp : p.Plain) (hroom : close.isSome → depth ≠ 0)
    (hcounted : close = none → counted number = true → p.shape = 2) (tail : List UInt8) :
    readRecords counted (count + 1) depth close (encodeRecord number p ++ tail) =
      (readRecords counted count depth close tail).map fun (rs, b) => ((number, p) :: rs, b) := by
  obtain ⟨hlt, hgroup, hend⟩ := hp.shape_ne
  have hkey := decodeKey_encodeKey hpos hmax hlt (p.body ++ tail)
  rw [encodeRecord_eq hp, List.append_assoc]
  -- the key is not empty, so there is a first byte to start with
  cases hbytes : encodeKey number p.shape ++ (p.body ++ tail) with
  | nil => exact absurd (List.append_eq_nil_iff.mp hbytes).1 (encodeVarint_ne_nil _)
  | cons b bytes =>
    rw [hbytes] at hkey
    have hopen : ¬ (close.isSome = true ∧ depth = 0) := fun h => hroom h.1 h.2
    rw [readRecords, hkey]
    simp only [shapeOf_eq hcounted, hend, hgroup, hopen, if_false, decodePlain_body hp]

/-- A group is read to its end mark, and then what follows. -/
theorem readRecords_group {count : Nat} {inner : List Record} (hpos : 1 ≤ number)
    (hmax : number < twoTo 29) (hcounted : close = none → counted number ≠ true)
    (hinner : readRecords counted count depth (some number)
      (encodeRecords inner ++ (encodeKey number 4 ++ tail)) = some (inner, tail)) :
    readRecords counted (count + 1) (depth + 1) close (encodeRecord number (.group inner) ++ tail) =
      (readRecords counted count (depth + 1) close tail).map fun (rs, b) =>
        ((number, .group inner) :: rs, b) := by
  have hkey := decodeKey_encodeKey hpos hmax (by decide : 3 < 8)
    (encodeRecords inner ++ (encodeKey number 4 ++ tail))
  have hshape : shapeOf counted close number (Payload.group inner).shape = 3 :=
    shapeOf_eq fun hnone hyes => absurd hyes (hcounted hnone)
  rw [encodeRecord, List.append_assoc, List.append_assoc]
  cases hbytes : encodeKey number 3 ++ (encodeRecords inner ++ (encodeKey number 4 ++ tail)) with
  | nil => exact absurd (List.append_eq_nil_iff.mp hbytes).1 (encodeVarint_ne_nil _)
  | cons b bytes =>
    rw [hbytes] at hkey
    rw [Payload.shape] at hshape
    rw [readRecords, hkey]
    simp only [hshape, hinner, if_false, if_true, Option.map_some, Nat.reduceEqDiff, and_false]

/-- The end mark of a group ends it. -/
theorem readRecords_end {count : Nat} (hpos : 1 ≤ number) (hmax : number < twoTo 29)
    (tail : List UInt8) : readRecords counted (count + 1) depth (some number)
      (encodeKey number 4 ++ tail) = some ([], tail) := by
  have hkey := decodeKey_encodeKey hpos hmax (by decide : 4 < 8) tail
  have hshape : shapeOf counted (some number) number 4 = 4 := by simp [shapeOf]
  cases hbytes : encodeKey number 4 ++ tail with
  | nil => exact absurd (List.append_eq_nil_iff.mp hbytes).1 (encodeVarint_ne_nil _)
  | cons b bytes =>
    rw [hbytes] at hkey
    rw [readRecords, hkey]
    simp only [hshape, if_true]

theorem encodeRecord_length (number : Nat) (p : Payload) : 0 < (encodeRecord number p).length := by
  have hkey (shape : Nat) : 0 < (encodeKey number shape).length :=
    List.length_pos_iff.mpr (encodeVarint_ne_nil _)
  cases p <;> rw [encodeRecord, List.length_append] <;> exact Nat.add_pos_left (hkey _) _

/-- **Records are read back**, up to what ends them, which takes the count `need`. Each record is written
in a byte at least, so there is count enough for what lies inside and for what follows. -/
theorem readRecords_encodeRecords : ∀ (rs : List Record) (need : Nat) {depth count : Nat}
    {close : Option Nat} {tail rest : List UInt8}, (∀ r ∈ rs, Writable depth r) →
      (close.isSome → rs ≠ [] → depth ≠ 0) → Uncounted counted close rs →
      (∀ count, need ≤ count → readRecords counted count depth close tail = some ([], rest)) →
      (encodeRecords rs).length + need ≤ count →
        readRecords counted count depth close (encodeRecords rs ++ tail) = some (rs, rest)
  | [], _, _, _, _, _, _, _, _, _, hend, hcount => by
    rw [encodeRecords, List.nil_append]
    exact hend _ (Nat.le_trans (Nat.le_add_left _ _) hcount)
  | (number, p) :: rs, need, depth, count, close, tail, rest, hw, hroom, hcounted, hend, hcount => by
    obtain ⟨hr, hrest⟩ := List.forall_mem_cons.mp hw
    have hdepth : close.isSome → depth ≠ 0 := fun hclose => hroom hclose (List.cons_ne_nil _ _)
    have hnumber : close = none → counted number = true → p.shape = 2 :=
      fun hnone => hcounted hnone _ List.mem_cons_self
    have hpos := encodeRecord_length number p
    rw [encodeRecords, List.length_append] at hcount
    obtain ⟨count, rfl⟩ : ∃ k, count = k + 1 := ⟨count - 1, by omega⟩
    have hfollow : readRecords counted count depth close (encodeRecords rs ++ tail) =
        some (rs, rest) :=
      readRecords_encodeRecords rs need hrest (fun hclose _ => hdepth hclose)
        (fun hnone r hmem => hcounted hnone r (List.mem_cons_of_mem _ hmem)) hend (by omega)
    rw [encodeRecords, List.append_assoc]
    rcases hr.payload.plain_or with hp | ⟨inner, rfl, hlt, hinroom, hinner⟩
    · rw [readRecords_plain hr.positive hr.bounded hp hdepth hnumber, hfollow, Option.map_some]
    · obtain ⟨depth, rfl⟩ : ∃ k, depth = k + 1 := ⟨depth - 1, by omega⟩
      rw [Nat.add_sub_cancel] at hinner
      rw [encodeRecord, List.length_append, List.length_append] at hcount
      have hkeys (shape : Nat) : 0 < (encodeKey number shape).length :=
        List.length_pos_iff.mpr (encodeVarint_ne_nil _)
      have hmark : ∀ count, 1 ≤ count → readRecords counted count depth (some number)
          (encodeKey number 4 ++ (encodeRecords rs ++ tail)) = some ([], encodeRecords rs ++ tail) := by
        intro count hone
        obtain ⟨count, rfl⟩ : ∃ k, count = k + 1 := ⟨count - 1, by omega⟩
        exact readRecords_end hr.positive hr.bounded _
      have hspare : (encodeRecords inner).length + 1 ≤ count := by
        have hfirst := hkeys 3
        have hlast := hkeys 4
        omega
      have hinside : readRecords counted count depth (some number) (encodeRecords inner ++
          (encodeKey number 4 ++ (encodeRecords rs ++ tail))) = some (inner, encodeRecords rs ++ tail) :=
        readRecords_encodeRecords inner 1 hinner (fun _ hne => by have := hinroom hne; omega)
          (fun hnone => nomatch hnone) hmark hspare
      rw [readRecords_group hr.positive hr.bounded
        (fun hnone hyes => absurd (hnumber hnone hyes) (by simp [Payload.shape])) hinside, hfollow,
        Option.map_some]
termination_by rs => sizeOf rs

/-- **A message's records are read back** from all of its bytes. -/
theorem decodeRecords_encodeRecords (h : ∀ r ∈ rs, Writable depth r)
    (hcounted : ∀ r ∈ rs, counted r.1 = true → r.2.shape = 2) :
    decodeRecords depth (encodeRecords rs) counted = some rs := by
  have hend : ∀ count, 0 ≤ count → readRecords counted count depth none [] = some ([], []) :=
    fun count _ => by cases count <;> rw [readRecords]
  have hread := readRecords_encodeRecords rs 0 h (fun hclose => absurd hclose (by simp))
    (fun _ => hcounted) hend (Nat.le_refl _)
  rw [List.append_nil, Nat.add_zero] at hread
  rw [decodeRecords, hread, Option.map_some]

end

end RowStream.Wire
