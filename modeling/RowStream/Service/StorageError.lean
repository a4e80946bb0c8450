import RowStream.Wire.Message

/-!
# Errors of the storage service

What the service itself says about a failed call: a code, the entity concerned and a text. Codes
are numbers, and a number outside the known ones is kept and named like the unspecified code.

* `StorageCode`: the known codes.
* `StorageError.codeValue`: the known code of an error.
-/

namespace RowStream.Service

open Wire

/-- The codes of the storage service. -/
inductive StorageCode where
  | unspecified
  | tableNotFound
  | streamAlreadyCommitted
  | streamNotFound
  | invalidStreamType
  | invalidStreamState
  | streamFinalized
  | schemaMismatchExtraFields
  | offsetAlreadyExists
  | offsetOutOfRange
deriving Repr, DecidableEq, Inhabited

namespace StorageCode

/-- All codes, in the order of their numbers. -/
def all : List StorageCode :=
  [.unspecified, .tableNotFound, .streamAlreadyCommitted, .streamNotFound, .invalidStreamType,
    .invalidStreamState, .streamFinalized, .schemaMismatchExtraFields, .offsetAlreadyExists,
    .offsetOutOfRange]

/-- The number of the code in an error. -/
def number : StorageCode → Int32
  | .unspecified => 0
  | .tableNotFound => 1
  | .streamAlreadyCommitted => 2
  | .streamNotFound => 3
  | .invalidStreamType => 4
  | .invalidStreamState => 5
  | .streamFinalized => 6
  | .schemaMismatchExtraFields => 7
  | .offsetAlreadyExists => 8
  | .offsetOutOfRange => 9

/-- The code with the number, if any. -/
def ofNumber? (n : Int32) : Option StorageCode :=
  all.find? fun c => c.number == n

/-- The name of the code, as texts tell it. -/
def name : StorageCode → String
  | .unspecified => "Unspecified"
  | .tableNotFound => "TableNotFound"
  | .streamAlreadyCommitted => "StreamAlreadyCommitted"
  | .streamNotFound => "StreamNotFound"
  | .invalidStreamType => "InvalidStreamType"
  | .invalidStreamState => "InvalidStreamState"
  | .streamFinalized => "StreamFinalized"
  | .schemaMismatchExtraFields => "SchemaMismatchExtraFields"
  | .offsetAlreadyExists => "OffsetAlreadyExists"
  | .offsetOutOfRange => "OffsetOutOfRange"

end StorageCode

/-- An error of the storage service. -/
structure StorageError where
  code : Int32 := 0
  entity : String := ""
  message : String := ""
deriving Repr, DecidableEq, Inhabited

namespace StorageError

/-- The known code that the error has. -/
def codeValue (e : StorageError) : StorageCode :=
  (StorageCode.ofNumber? e.code).getD .unspecified

/-- The members that differ from their defaults. -/
def records (e : StorageError) : List Record :=
  int32 1 e.code ++ text 2 e.entity ++ text 3 e.message

/-- Takes one record into the error. -/
def absorb (depth : Nat) (e : StorageError) : Record → Option StorageError
  | (1, p) => p.int32?.map fun n => { e with code := n }
  | (2, p) => p.text?.map fun s => { e with entity := s }
  | (3, p) => p.text?.map fun s => { e with message := s }
  | _ => unknown depth e

instance : Wire.Message StorageError where
  empty := {}
  records := records
  absorb := absorb

end StorageError

end RowStream.Service
