import RowStream.Service.Code
import RowStream.Service.StorageError

/-!
# Statuses

A status says how something ended: a code, a text, and details of any type, each under the address
of its type. A call that fails outright gives its code and text apart, and its status as bytes.

* `Status`, `Detail`: a status and its details.
* `CallError`: a call that failed outright.
* `CallError.ofStorage`: one that carries an error of the storage service.

Out of scope: the headers of a failed call.
-/

namespace RowStream.Service

open Wire

/-- A message of any type, under the address of the type. -/
structure Detail where
  typeUrl : String := ""
  value : List UInt8 := []
deriving Repr, DecidableEq, Inhabited

namespace Detail

/-- Address and bytes, each left out when empty. -/
def records (d : Detail) : List Record :=
  text 1 d.typeUrl ++ bytes 2 d.value

/-- Takes one record into the detail. -/
def absorb (depth : Nat) (d : Detail) : Record → Option Detail
  | (1, p) => p.text?.map fun s => { d with typeUrl := s }
  | (2, p) => p.bytes?.map fun b => { d with value := b }
  | _ => unknown depth d

instance : Wire.Message Detail where
  empty := {}
  records := records
  absorb := absorb

end Detail

/-- How something ended. -/
structure Status where
  code : Int32 := 0
  message : String := ""
  details : List Detail := []
deriving Repr, DecidableEq, Inhabited

namespace Status

/-- Code and message, left out at their defaults, and the details one by one. -/
def records (s : Status) : List Record :=
  int32 1 s.code ++ text 2 s.message ++ repeated 3 messagePayload s.details

/-- Takes one record into the status; a further detail is appended. -/
def absorb (depth : Nat) (s : Status) : Record → Option Status
  | (1, p) => p.int32?.map fun n => { s with code := n }
  | (2, p) => p.text?.map fun t => { s with message := t }
  | (3, p) => (nested depth ({} : Detail) p).map fun d => { s with details := s.details ++ [d] }
  | _ => unknown depth s

instance : Wire.Message Status where
  empty := {}
  records := records
  absorb := absorb

end Status

/-- A call that failed: its code and text, and the bytes of a status, or no bytes. -/
structure CallError where
  code : Code
  message : String
  details : List UInt8 := []
deriving Repr, DecidableEq, Inhabited

/-- The address under which an error of the storage service is packed. -/
def storageErrorUrl : String :=
  "type.googleapis.com/google.cloud.bigquery.storage.v1.StorageError"

/-- A detail that carries an error of the storage service. -/
def StorageError.detail (e : StorageError) : Detail := ⟨storageErrorUrl, encode e⟩

/-- A failed call with a code of the storage service, as the service reports it. -/
def CallError.ofStorage (code : Code) (message : String) (storage : StorageCode) : CallError :=
  let status : Status :=
    { code := code.number
      message := message
      details := [StorageError.detail { code := storage.number, message := message }] }
  ⟨code, message, encode status⟩

end RowStream.Service
