import RowStream.Service.Append
import RowStream.Text.Search

/-!
# Failures

A failure is what is known of a call or a request that failed: its code and text, the error of the
storage service among its details, and the rows that were refused. Of several such errors the first
that can be read counts.

* `ofStatus`, `ofCall`: the failure of a refused request and of a failed call.
* `isTransient`, `isSchemaMismatch`: what a failure means.
* `text`: what is said of it.

Out of scope: other details than errors of the storage service; they are not read.
-/

namespace RowStream.Service

/-- A failed call or request. -/
structure Failure where
  code : Code
  message : String
  storageError : Option StorageError := none
  rowErrors : List RowError := []
deriving Repr, DecidableEq, Inhabited

namespace Failure

/-- The end of the address of an error of the storage service. -/
def storageErrorType : String := "google.cloud.bigquery.storage.v1.StorageError"

/-- The text of the service for a schema with fields that the table lacks. -/
def extraFieldsText : String := "Schema mismatch due to extra fields in user schema"

/-- The first error of the storage service among details. -/
def findStorageError (details : List Detail) : Option StorageError :=
  (details.filter fun d => Text.endsWith d.typeUrl storageErrorType).findSome? fun d =>
    Wire.decode d.value

/-- The failure that a status inside a response is. -/
def ofStatus (s : Status) (rowErrors : List RowError) : Failure where
  code := Code.ofNumber s.code
  message := s.message
  storageError := findStorageError s.details
  rowErrors := rowErrors

/-- The failure that a failed call is. -/
def ofCall (e : CallError) : Failure where
  code := e.code
  message := e.message
  storageError :=
    if e.details = [] then none
    else
      match (Wire.decode e.details : Option Status) with
      | some s => findStorageError s.details
      | none => none

/-- The call is worth making again. -/
def isTransient (f : Failure) : Bool := f.code.isTransient

/-- The writer's schema has fields that the table lacks. -/
def isSchemaMismatch (f : Failure) : Bool :=
  f.code == .invalidArgument &&
    match f.storageError with
    | some e =>
      e.codeValue == .schemaMismatchExtraFields || Text.contains e.message extraFieldsText
    | none => Text.contains f.message extraFieldsText

/-- What is said of the error of the storage service. -/
def storageText : Option StorageError → String
  | none => ""
  | some e =>
    " (" ++ e.codeValue.name ++ (if e.entity = "" then "" else " on " ++ e.entity) ++ ")"

/-- What is said of the failure: code, message, the error of the storage service, and how many rows
were refused. -/
def text (f : Failure) : String :=
  f.code.name ++ ": " ++ f.message ++ storageText f.storageError ++
    (if f.rowErrors.isEmpty then "" else " [" ++ toString f.rowErrors.length ++ " row errors]")

end Failure

end RowStream.Service
