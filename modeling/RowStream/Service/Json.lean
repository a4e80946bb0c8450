import RowStream.Descriptor.Json
import RowStream.Service.Failure
import RowStream.Table.Json
import RowStream.Text.Hex

/-!
# Messages of the service as JSON

Errors, requests and responses as JSON objects with all their members. Bytes are hexadecimal text;
an error of the storage service tells also the name of its code, and a failure what it means.

* one `toJson` for each message of the service.

Out of scope: reading the messages back from JSON.
-/

namespace RowStream.Service

open Json (orNull)

/-- Bytes as a text of hexadecimal digits. -/
def hexJson (bytes : List UInt8) : Json := .string (Hex.encode bytes)

/-- An error of the storage service; its code is told by number and by name. -/
def StorageError.toJson (e : StorageError) : Json :=
  .object [("code", Json.ofInt e.code.toInt), ("code_name", .string e.codeValue.name),
    ("entity", .string e.entity), ("error_message", .string e.message)]

/-- The error of a row. -/
def RowError.toJson (e : RowError) : Json :=
  .object [("index", Json.ofInt e.index.toInt), ("code", Json.ofInt e.code.toInt),
    ("message", .string e.message)]

/-- A detail, unread. -/
def Detail.toJson (d : Detail) : Json :=
  .object [("type_url", .string d.typeUrl), ("value", hexJson d.value)]

/-- A status with its details unread. -/
def Status.toJson (s : Status) : Json :=
  .object [("code", Json.ofInt s.code.toInt), ("message", .string s.message),
    ("details", .array (s.details.map Detail.toJson))]

/-- A failure with its text, and whether it passes or comes from the schema. -/
def Failure.toJson (f : Failure) : Json :=
  .object [("code", .string f.code.name), ("message", .string f.message),
    ("storage_error", orNull StorageError.toJson f.storageError),
    ("row_errors", .array (f.rowErrors.map RowError.toJson)), ("display", .string f.text),
    ("transient", .bool f.isTransient), ("schema_mismatch", .bool f.isSchemaMismatch)]

/-- An integer that may be absent is the integer, or null. -/
def Wrapped.toJson (w : Option Wrapped) : Json :=
  orNull (fun w => Json.ofInt w.value.toInt) w

/-- A schema without a descriptor is `false`. -/
def WriterSchema.toJson (s : WriterSchema) : Json :=
  match s.descriptor with
  | some d => d.toJson
  | none => .bool false

/-- The rows, each as digits. -/
def RowBytes.toJson (r : RowBytes) : Json := .array (r.rows.map hexJson)

/-- The schema and the rows of a request. -/
def RowData.toJson (d : RowData) : Json :=
  .object [("writer_schema", orNull WriterSchema.toJson d.schema),
    ("rows", orNull RowBytes.toJson d.rows)]

/-- A request with all its members. -/
def AppendRequest.toJson (r : AppendRequest) : Json :=
  .object [("write_stream", .string r.stream), ("offset", Wrapped.toJson r.offset),
    ("trace_id", .string r.traceId), ("proto_rows", orNull RowData.toJson r.data),
    ("missing_value_interpretations",
      .object (r.missingValues.map fun (column, n) => (column, Json.ofInt n.toInt))),
    ("default_missing_value_interpretation", Json.ofInt r.defaultMissingValue.toInt)]

/-- An acknowledgement with its offset. -/
def Acknowledgement.toJson (a : Acknowledgement) : Json :=
  .object [("offset", Wrapped.toJson a.offset)]

/-- The acknowledgement in the response, if it is one. -/
def AppendResponse.acknowledged? (r : AppendResponse) : Option Acknowledgement :=
  match r.verdict with
  | some (.acknowledged a) => some a
  | _ => none

/-- A response with all its members; the acknowledged offset is told once more by itself. -/
def AppendResponse.toJson (r : AppendResponse) : Json :=
  .object [("append_result", orNull Acknowledgement.toJson r.acknowledged?),
    ("error", orNull Status.toJson r.error),
    ("acknowledged_offset", orNull (fun n : Int64 => Json.ofInt n.toInt) r.acknowledgedOffset),
    ("updated_schema", orNull Table.Schema.toJson r.updatedSchema),
    ("row_errors", .array (r.rowErrors.map RowError.toJson)), ("write_stream", .string r.stream)]

end RowStream.Service
