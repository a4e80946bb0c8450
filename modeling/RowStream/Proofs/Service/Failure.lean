import RowStream.Proofs.Service.Wire
import RowStream.Proofs.Text.Search
import RowStream.Service.Failure

/-!
# One failure, told in two ways

The service refuses a request with a status inside a response, and it ends a call with a code, a text and
the bytes of a status. Where these say the same status, the failure is the same, and so is all that
follows from it: whether the call is worth making again, and whether the table has changed.

A status without bytes has no details, so that a call without bytes loses nothing.

* `findStorageError_eq_some`: of the errors of the storage service among details the first that can be
  read counts.
* `takenFrom_iff`: what a failure takes from the end of a call.
* `ofCall_encode`: the failure of a call that ends with a status.
-/

namespace RowStream.Service.Failure

open Wire

/-! ## What a failure says -/

/-- A code of the storage service is that of its number, and numbers of none are read as unspecified. -/
theorem codeValue_eq_iff {d : StorageError} {c : StorageCode} (hc : c ≠ .unspecified) :
    d.codeValue = c ↔ d.code = c.number := by
  unfold StorageError.codeValue
  constructor
  · intro h
    cases hfound : StorageCode.ofNumber? d.code with
    | none => exact absurd (by simpa [hfound] using h.symm) hc
    | some c' =>
      obtain rfl : c' = c := by simpa [hfound] using h
      rw [StorageCode.ofNumber?] at hfound
      have hnumber := List.find?_some hfound
      exact (beq_iff_eq.mp hnumber).symm
  · intro h
    have hfound : StorageCode.ofNumber? c.number = some c := by cases c <;> rfl
    rw [h, hfound, Option.getD_some]

/-- The table lacks fields of the schema: the error of the storage service says so, by its number or in its
text, or, where there is no such error, the text of the failure. -/
def SaysExtraFields (f : Failure) : Prop :=
  match f.storageError with
  | some d => d.code = 7 ∨ extraFieldsText.toList <:+: d.message.toList
  | none => extraFieldsText.toList <:+: f.message.toList

theorem isSchemaMismatch_iff {f : Failure} :
    f.isSchemaMismatch = true ↔ f.code = .invalidArgument ∧ f.SaysExtraFields := by
  unfold isSchemaMismatch SaysExtraFields
  rw [Bool.and_eq_true, beq_iff_eq]
  cases f.storageError with
  | some d =>
    have hnumber := codeValue_eq_iff (d := d) (c := .schemaMismatchExtraFields) (by decide)
    rw [Bool.or_eq_true, beq_iff_eq, Text.contains_iff, hnumber]
    rfl
  | none => rw [Text.contains_iff]

/-- The codes of the failures after which a call is worth making again. -/
def transientCodes : List Code :=
  [.unavailable, .resourceExhausted, .aborted, .cancelled, .deadlineExceeded]

theorem isTransient_iff {f : Failure} : f.isTransient = true ↔ f.code ∈ transientCodes := by
  unfold isTransient
  cases f.code <;> decide

/-! ## The error among details -/

/-- What a detail says of an error: nothing, unless it is under an address of the errors of the storage
service and can be read. -/
def errorOf (d : Detail) : Option StorageError :=
  if Text.endsWith d.typeUrl storageErrorType then decode d.value else none

theorem findStorageError_eq (ds : List Detail) : findStorageError ds = ds.findSome? errorOf := by
  induction ds with
  | nil => rfl
  | cons d ds ih =>
    unfold findStorageError at ih ⊢
    by_cases htype : Text.endsWith d.typeUrl storageErrorType
    · rw [List.filter_cons, if_pos htype, List.findSome?_cons, List.findSome?_cons, ih, errorOf,
        if_pos htype]
    · rw [List.filter_cons, if_neg htype, List.findSome?_cons, ih, errorOf, if_neg htype]

/-- The error is that of a detail, and those before it say of none. -/
def First (ds : List Detail) (e : StorageError) : Prop :=
  ∃ before d after, ds = before ++ d :: after ∧ errorOf d = some e ∧ ∀ o ∈ before, errorOf o = none

/-- **The first error that can be read counts.** -/
theorem findStorageError_eq_some {ds : List Detail} {e : StorageError} :
    findStorageError ds = some e ↔ First ds e := by
  rw [findStorageError_eq]
  exact List.findSome?_eq_some_iff

/-! ## What a failure takes from a call -/

/-- The failure says what the end of a call says: its code, its text, and the first error of the storage
service that can be read among the details of its status. -/
structure TakenFrom (f : Failure) (e : CallError) : Prop where
  code : f.code = e.code
  message : f.message = e.message
  storageError : ∀ d, f.storageError = some d ↔
    e.details ≠ [] ∧ ∃ s : Status, decode e.details = some s ∧ First s.details d
  rowErrors : f.rowErrors = []

/-- **The failure of a call is what its end says**, and nothing else is. -/
theorem takenFrom_iff {f : Failure} {e : CallError} : f.TakenFrom e ↔ f = ofCall e := by
  have hcall : (ofCall e).TakenFrom e := by
    refine ⟨rfl, rfl, fun d => ?_, rfl⟩
    by_cases hempty : e.details = []
    · simp [ofCall, hempty]
    · cases hread : (decode e.details : Option Status) with
      | none => simp [ofCall, hempty, hread]
      | some s => simp [ofCall, hempty, hread, findStorageError_eq_some]
  refine ⟨fun h => ?_, fun h => h ▸ hcall⟩
  have herror : f.storageError = (ofCall e).storageError :=
    Option.ext fun d => (h.storageError d).trans (hcall.storageError d).symm
  obtain ⟨code, message, storageError, rowErrors⟩ := f
  obtain ⟨rfl, rfl, -, rfl⟩ := h
  obtain rfl := herror
  rfl

/-! ## Statuses and calls -/

/-- **A refusal and the end of a call that say one status are one failure.** Both find the first error of
the storage service that can be read among its details. -/
theorem ofCall_encode (s : Status) (hsize : (encode s).length < twoTo 64) :
    let call : CallError := ⟨Code.ofNumber s.code, s.message, encode s⟩
    ofStatus s [] = ofCall call ∧
      (∀ e, (ofCall call).storageError = some e ↔ First s.details e) ∧
      (ofStatus s []).isTransient = (ofCall call).isTransient ∧
      (ofStatus s []).isSchemaMismatch = (ofCall call).isSchemaMismatch := by
  intro call
  have hlevels : Faithful.levels s ≤ maxDepth :=
    below_le.mpr fun d _ => (by decide : 0 < maxDepth)
  have hread : decode (encode s) = some s := Faithful.decode_encode hlevels hsize
  have hfound : (ofCall call).storageError = findStorageError s.details := by
    by_cases hempty : encode s = []
    · -- nothing is read from no bytes, so the status has no details
      have hnothing : s = {} := by
        rw [hempty] at hread
        exact (Option.some.inj hread).symm
      rw [ofCall, if_pos hempty, hnothing]
      rfl
    · simp only [ofCall, call, if_neg hempty, hread]
  have hsame : ofStatus s [] = ofCall call := by
    rw [ofStatus, ← hfound]
    rfl
  exact ⟨hsame, fun e => hfound ▸ findStorageError_eq_some, hsame ▸ rfl, hsame ▸ rfl⟩

/-- Two details say of no error: one is of another type, and one cannot be read. The one after them is
that of a table with fewer columns. -/
theorem ofCall_encode_details :
    let s : Status :=
      { code := 3
        details := [⟨"type.googleapis.com/google.rpc.DebugInfo", [8, 1]⟩, ⟨storageErrorUrl, [8]⟩,
          StorageError.detail { code := 7 }] }
    let call : CallError := ⟨.invalidArgument, "", encode s⟩
    ofStatus s [] = ofCall call ∧ (ofCall call).storageError = some { code := 7 } ∧
      (ofCall call).isSchemaMismatch = true := by
  intro s call
  obtain ⟨hsame, -⟩ := ofCall_encode s (by decide +kernel)
  have hfound : (ofStatus s []).storageError = some { code := 7 } := by decide +kernel
  have hmismatch : (ofStatus s []).isSchemaMismatch = true := by decide +kernel
  exact ⟨hsame, hsame ▸ hfound, hsame ▸ hmismatch⟩

end RowStream.Service.Failure
