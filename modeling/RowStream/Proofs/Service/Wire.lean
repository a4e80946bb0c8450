import RowStream.Proofs.Descriptor.Wire
import RowStream.Proofs.Keyed
import RowStream.Proofs.Table.Wire
import RowStream.Service.WriteStream

/-!
# The messages of the service survive as bytes

Every message that the service exchanges is read back from its bytes: requests and responses, the rows
and the descriptor in them, schemas, statuses and errors. Numbers come back whatever they are, known or
not, and members that are messages come back whenever they are there, also where they are empty.

Two members are not read as they are written. The verdicts of a response are merged into one member, and
there is nothing before the one that is written. The map of a request is put together from its entries,
so the order in which they are written does not matter.

What is required of a value is that messages nest in it at most 100 deep, which is how deep they are
read (`levels`), and that its bytes can be counted. A value in which they nest deeper is refused.

* `AppendRequest.decode_encode`: a request, with the entries of its map in order.
* `AppendRequest.decode_encode_of_deep`: a request that nests too deep.
* `messages_survive`: all types of messages.
-/

namespace RowStream.Service

open Wire Faithful Takes

/-! ## Statuses and errors -/

instance : Faithful StorageError where
  builds depth e := by
    change Takes (StorageError.absorb depth) {} e.records e _
    simp only [StorageError.records, List.append_assoc]
    refine of_zero ?_
    refine step (.int32 fun e n => { e with code := n }) ?_
    refine step (.text fun e s => { e with entity := s }) ?_
    exact finish (.text fun e s => { e with message := s })

instance : Faithful Detail where
  builds depth d := by
    change Takes (Detail.absorb depth) {} d.records d _
    rw [Detail.records]
    refine of_zero ?_
    refine step (.text fun d s => { d with typeUrl := s }) ?_
    exact finish (.bytes fun d b => { d with value := b })

instance : Faithful Status where
  levels s := below levels s.details
  builds depth s := by
    change Takes (Status.absorb depth) {} s.records s _
    simp only [Status.records, List.append_assoc]
    refine step (.int32 fun s n => { s with code := n }) ?_
    refine step (.text fun s t => { s with message := t }) ?_
    exact finish (.messages fun s ds => { s with details := ds })

instance : Faithful RowError where
  builds depth e := by
    change Takes (RowError.absorb depth) {} e.records e _
    simp only [RowError.records, List.append_assoc]
    refine of_zero ?_
    refine step (.int64 fun e n => { e with index := n }) ?_
    refine step (.int32 fun e n => { e with code := n }) ?_
    exact finish (.text fun e s => { e with message := s })

/-! ## Appending rows -/

instance : Faithful Wrapped where
  builds _ _ := .of_eq (.int64 fun w n => { w with value := n }) rfl (by simp)

instance : Faithful WriterSchema where
  levels s := below levels s.descriptor.toList
  builds _ _ := .of_eq (.message fun s d => { s with descriptor := d }) rfl (by simp)

instance : Faithful RowBytes where
  builds _ _ := .of_eq (.repeated (fun r bs => { r with rows := bs }) says_bytes) rfl (by simp)

instance : Faithful RowData where
  levels d := max (below levels d.schema.toList) (below levels d.rows.toList)
  builds depth d := by
    change Takes (RowData.absorb depth) {} d.records d _
    simp only [RowData.records, Nat.max_le]
    refine append (.message fun d s => { d with schema := s }) ?_
    exact finish (.message fun d r => { d with rows := r })

instance : Faithful Entry where
  builds depth e := by
    change Takes (Entry.absorb depth) {} e.records e _
    rw [Entry.records]
    refine of_zero ?_
    refine step (.text fun e s => { e with key := s }) ?_
    exact finish (.int32 fun e n => { e with value := n })

instance : Faithful Acknowledgement where
  levels a := below levels a.offset.toList
  builds _ _ := .of_eq (.message fun a n => { a with offset := n }) rfl (by simp)

namespace AppendRequest

/-- The entries of the map, as they are written. -/
def entries (r : AppendRequest) : List Entry := r.missingValues.map fun (column, n) => ⟨column, n⟩

/-- How many levels nest in a request. -/
def levels (r : AppendRequest) : Nat :=
  max (below Faithful.levels r.offset.toList) (max (below Faithful.levels r.data.toList)
    (below Faithful.levels r.entries))

variable {depth : Nat} {r : AppendRequest}

/-- The map is put together from its entries. -/
theorem takes_entries {es : List Entry} :
    Takes (absorb depth) r (repeated 7 messagePayload es)
      { r with missingValues := es.foldl (fun m e => Keyed.put e.key e.value m) r.missingValues }
      (below Faithful.levels es ≤ depth) := by
  induction es generalizing r with
  | nil => exact .of_eq .nil rfl (by simp [below])
  | cons e es ih =>
    have hfirst : Takes (absorb depth) r [(7, messagePayload e)] _ (Faithful.levels e < depth) :=
      .single (fun e => { r with missingValues := Keyed.put e.key e.value r.missingValues })
        (Faithful.says_nested depth e) (by decide) fun _ => rfl
    rw [below, Nat.max_le, Nat.succ_le_iff]
    exact append hfirst ih

/-- **A request is built from its records**, with the entries of its map in order. -/
theorem takes : Takes (absorb depth) {} r.records
    { r with missingValues := Keyed.ofList r.missingValues } (r.levels ≤ depth) := by
  simp only [records, List.append_assoc, levels, Nat.max_le]
  refine step (.text fun r s => { r with stream := s }) ?_
  refine append (.message fun r n => { r with offset := n }) ?_
  refine append (.message fun r d => { r with data := d }) ?_
  refine step (.text fun r s => { r with traceId := s }) ?_
  refine close takes_entries ?_
  refine finish (.int32 fun r n => { r with defaultMissingValue := n }) ?_
  rw [List.foldl_map]
  rfl

/-- The entries of the map are written as runs of bytes, and nothing else has their number. -/
theorem shape_of_counted : ∀ x ∈ r.records,
    Message.counted AppendRequest x.1 = true → x.2.shape = 2 := by
  intro x hx hcounted
  have hseven : x.1 = 7 := eq_of_beq hcounted
  simp only [records, List.mem_append] at hx
  rcases hx with ((((hx | hx) | hx) | hx) | hx) | hx
  · exact absurd ((number_of_mem_unless hx).symm.trans hseven) (by decide)
  · exact absurd ((number_of_mem_optional hx).symm.trans hseven) (by decide)
  · exact absurd ((number_of_mem_optional hx).symm.trans hseven) (by decide)
  · exact absurd ((number_of_mem_unless hx).symm.trans hseven) (by decide)
  · obtain ⟨e, -, rfl⟩ := List.mem_map.mp hx
    rfl
  · exact absurd ((number_of_mem_unless hx).symm.trans hseven) (by decide)

/-- The order of the entries does not matter for the levels. -/
theorem levels_of_perm {es : Keyed Int32} (h : es.Perm r.missingValues) :
    { r with missingValues := es : AppendRequest }.levels = r.levels := by
  simp only [levels, entries, below_perm (h.map _)]

/-- **A request is read back**, with the entries of its map in order. -/
theorem decode_encode (h : r.levels ≤ maxDepth) (hsize : (encode r).length < twoTo 64) :
    decode (encode r) = some { r with missingValues := Keyed.ofList r.missingValues } :=
  takes.absorbAll shape_of_counted hsize h

/-- A request with more levels than are read is refused. -/
theorem decode_encode_of_deep (h : maxDepth < r.levels) (hsize : (encode r).length < twoTo 64) :
    (decode (encode r) : Option AppendRequest) = none :=
  takes.absorbAll_eq_none shape_of_counted hsize (Nat.not_le.mpr h)

end AppendRequest

/-- How many levels nest in a verdict, with the message that it is. -/
def Verdict.levels : Verdict → Nat
  | .acknowledged a => Faithful.levels a + 1
  | .refused s => Faithful.levels s + 1

/-- A verdict is merged into nothing. -/
theorem takes_verdict {depth : Nat} {o : Option Verdict} :
    Takes (AppendResponse.absorb depth) {} (o.toList.map Verdict.record) { verdict := o }
      (o.elim 0 Verdict.levels ≤ depth) := by
  match o with
  | none => exact .of_eq .nil rfl (by simp)
  | some (.acknowledged a) =>
    exact .of_eq (.single (fun a => { verdict := some (.acknowledged a) })
      (Faithful.says_nested depth a) (by decide) fun _ => rfl) rfl Nat.succ_le_iff.symm
  | some (.refused s) =>
    exact .of_eq (.single (fun s => { verdict := some (.refused s) })
      (Faithful.says_nested depth s) (by decide) fun _ => rfl) rfl Nat.succ_le_iff.symm

instance : Faithful AppendResponse where
  levels r := max (r.verdict.elim 0 Verdict.levels) (max (below levels r.updatedSchema.toList)
    (below levels r.rowErrors))
  builds depth r := by
    change Takes (AppendResponse.absorb depth) {} r.records r _
    simp only [AppendResponse.records, List.append_assoc, Nat.max_le]
    refine append takes_verdict ?_
    refine append (.message fun r s => { r with updatedSchema := s }) ?_
    refine close (.messages fun r es => { r with rowErrors := es }) ?_
    exact finish (.text fun r s => { r with stream := s })

/-! ## Streams -/

instance : Faithful Timestamp where
  builds depth t := by
    change Takes (Timestamp.absorb depth) {} t.records t _
    rw [Timestamp.records]
    refine of_zero ?_
    refine step (.int64 fun t n => { t with seconds := n }) ?_
    exact finish (.int32 fun t n => { t with nanos := n })

instance : Faithful WriteStream where
  levels s := max (below levels s.createTime.toList) (max (below levels s.commitTime.toList)
    (below levels s.tableSchema.toList))
  builds depth s := by
    change Takes (WriteStream.absorb depth) {} s.records s _
    simp only [WriteStream.records, List.append_assoc, Nat.max_le]
    refine step (.text fun s t => { s with name := t }) ?_
    refine step (.int32 fun s n => { s with type := n }) ?_
    refine append (.message fun s t => { s with createTime := t }) ?_
    refine append (.message fun s t => { s with commitTime := t }) ?_
    refine close (.message fun s t => { s with tableSchema := t }) ?_
    exact finish (.text fun s t => { s with location := t })

instance : Faithful CreateRequest where
  levels r := below levels r.stream.toList
  builds depth r := by
    change Takes (CreateRequest.absorb depth) {} r.records r _
    rw [CreateRequest.records]
    refine step (.text fun r s => { r with parent := s }) ?_
    exact finish (.message fun r s => { r with stream := s })

instance : Faithful GetRequest where
  builds depth r := by
    change Takes (GetRequest.absorb depth) {} r.records r _
    rw [GetRequest.records]
    refine of_zero ?_
    refine step (.text fun r s => { r with name := s }) ?_
    exact finish (.int32 fun r n => { r with view := n })

instance : Faithful FinalizeRequest where
  builds _ _ := .of_eq (.text fun r s => { r with name := s }) rfl (by simp)

instance : Faithful FinalizeResponse where
  builds _ _ := .of_eq (.int64 fun r n => { r with rowCount := n }) rfl (by simp)

instance : Faithful FlushRequest where
  levels r := below levels r.offset.toList
  builds depth r := by
    change Takes (FlushRequest.absorb depth) {} r.records r _
    rw [FlushRequest.records]
    refine step (.text fun r s => { r with stream := s }) ?_
    exact finish (.message fun r n => { r with offset := n })

instance : Faithful FlushResponse where
  builds _ _ := .of_eq (.int64 fun r n => { r with offset := n }) rfl (by simp)

instance : Faithful CommitRequest where
  builds depth r := by
    change Takes (CommitRequest.absorb depth) {} r.records r _
    rw [CommitRequest.records]
    refine of_zero ?_
    refine step (.text fun r s => { r with parent := s }) ?_
    exact finish (.repeated (fun r ss => { r with streams := ss }) says_text)

instance : Faithful CommitResponse where
  levels r := max (below levels r.commitTime.toList) (below levels r.errors)
  builds depth r := by
    change Takes (CommitResponse.absorb depth) {} r.records r _
    simp only [CommitResponse.records, Nat.max_le]
    refine append (.message fun r t => { r with commitTime := t }) ?_
    exact finish (.messages fun r es => { r with errors := es })

/-! ## All messages -/

/-- Every value with no more levels than are read is read back from its bytes, as long as a count holds
these. -/
def Survives (α : Type) [Message α] [Faithful α] : Prop :=
  ∀ a : α, levels a ≤ maxDepth → (encode a).length < twoTo 64 → decode (encode a) = some a

/-- **The messages of the service survive as bytes**: a request to append rows, in whatever order the
entries of its map are written, and all other messages. -/
theorem messages_survive :
    (∀ (r : AppendRequest) (es : Keyed Int32), Keyed.Ordered r.missingValues →
      es.Perm r.missingValues → r.levels ≤ maxDepth →
      (encode { r with missingValues := es }).length < twoTo 64 →
      decode (encode { r with missingValues := es }) = some r) ∧
    Survives RowData ∧ Survives WriterSchema ∧ Survives RowBytes ∧
    Survives AppendResponse ∧ Survives Acknowledgement ∧ Survives RowError ∧
    Survives WriteStream ∧ Survives CreateRequest ∧ Survives GetRequest ∧
    Survives FinalizeRequest ∧ Survives FinalizeResponse ∧
    Survives FlushRequest ∧ Survives FlushResponse ∧
    Survives CommitRequest ∧ Survives CommitResponse ∧
    Survives Table.Schema ∧ Survives Table.Column ∧
    Survives Wrapped ∧ Survives Status ∧ Survives StorageError := by
  have hsurvives {α : Type} [Message α] [Faithful α] : Survives α := fun _ => Faithful.decode_encode
  refine ⟨fun r es hordered hperm hlevels hsize => ?_, ?_⟩
  · rw [AppendRequest.decode_encode (AppendRequest.levels_of_perm hperm ▸ hlevels) hsize]
    simp only [hordered.ofList_eq hperm]
  · repeat' apply And.intro
    all_goals exact hsurvives

/-- Numbers at their bounds and unknown ones, members that are there and empty, a row without bytes, and
a map with an empty key and a number that is zero. -/
theorem messages_survive_defaults :
    let r : AppendRequest :=
      { offset := some { value := Int64.minValue }
        data := some { schema := some { descriptor := some {} }, rows := some { rows := [[]] } }
        missingValues := [("", 7), ("a", 0)]
        defaultMissingValue := -1 }
    decode (encode { r with missingValues := [("a", 0), ("", 7)] }) = some r := by
  intro r
  have hordered : Keyed.Ordered r.missingValues := List.pairwise_pair.mpr (by decide)
  exact messages_survive.1 r _ hordered (.swap _ _ _) (by decide) (by decide +kernel)

end RowStream.Service
