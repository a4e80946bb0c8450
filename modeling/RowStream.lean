import RowStream.Calendar
import RowStream.Command.Arguments
import RowStream.Command.Directory
import RowStream.Command.Run
import RowStream.Config.Basic
import RowStream.Config.Document
import RowStream.Config.Environment
import RowStream.Descriptor.Basic
import RowStream.Descriptor.Json
import RowStream.Descriptor.Layout
import RowStream.Descriptor.Options
import RowStream.Descriptor.Options.Wire
import RowStream.Descriptor.Wire
import RowStream.Json.Basic
import RowStream.Json.Error
import RowStream.Json.Number
import RowStream.Json.Outline
import RowStream.Json.Parser
import RowStream.Json.Printer
import RowStream.Json.Skim
import RowStream.Keyed
import RowStream.Main
import RowStream.Message.Basic
import RowStream.Message.Wire
import RowStream.Number.Binary
import RowStream.Number.Decimal
import RowStream.Number.Integer
import RowStream.Number.Padded
import RowStream.Number.Power
import RowStream.Number.Shortest
import RowStream.Pool.Basic
import RowStream.Pool.Fault
import RowStream.Pool.Names
import RowStream.Pool.Resolve
import RowStream.Proofs.Calendar.DayNumber
import RowStream.Proofs.Calendar.Instant
import RowStream.Proofs.Calendar.Text
import RowStream.Proofs.Command.Encode
import RowStream.Proofs.Command.Lines
import RowStream.Proofs.Descriptor.Wire
import RowStream.Proofs.Fallible
import RowStream.Proofs.Json.Whole
import RowStream.Proofs.Keyed
import RowStream.Proofs.Message.Fields
import RowStream.Proofs.Message.RoundTrip
import RowStream.Proofs.Message.Scalar
import RowStream.Proofs.Number.Decimal
import RowStream.Proofs.Number.Integer
import RowStream.Proofs.Number.Nearest
import RowStream.Proofs.Number.Shortest
import RowStream.Proofs.Pool.Declared
import RowStream.Proofs.Pool.Defined
import RowStream.Proofs.Pool.Linked
import RowStream.Proofs.Pool.Names
import RowStream.Proofs.Pool.Plain
import RowStream.Proofs.Pool.Regular
import RowStream.Proofs.Row.Alike
import RowStream.Proofs.Row.Built
import RowStream.Proofs.Row.Coerced
import RowStream.Proofs.Row.Conforming
import RowStream.Proofs.Row.Conversion
import RowStream.Proofs.Row.Date
import RowStream.Proofs.Row.Descriptors
import RowStream.Proofs.Row.Distinct
import RowStream.Proofs.Row.Field
import RowStream.Proofs.Row.Fitting
import RowStream.Proofs.Row.Integer
import RowStream.Proofs.Row.Listing
import RowStream.Proofs.Row.Meaning
import RowStream.Proofs.Row.Place
import RowStream.Proofs.Row.RoundTrip
import RowStream.Proofs.Row.Spelling
import RowStream.Proofs.Row.Value
import RowStream.Proofs.RowWriter.Closed
import RowStream.Proofs.RowWriter.Failed
import RowStream.Proofs.RowWriter.ReadBack
import RowStream.Proofs.RowWriter.Reported
import RowStream.Proofs.RowWriter.Run
import RowStream.Proofs.RowWriter.Shared
import RowStream.Proofs.RowWriter.TableSchema
import RowStream.Proofs.Service.Failure
import RowStream.Proofs.Service.Memory
import RowStream.Proofs.Service.Wire
import RowStream.Proofs.Shape.Apart
import RowStream.Proofs.Shape.Collected
import RowStream.Proofs.Shape.Contained
import RowStream.Proofs.Shape.Dialects
import RowStream.Proofs.Shape.Inlined
import RowStream.Proofs.Shape.Names
import RowStream.Proofs.Shape.Recursion
import RowStream.Proofs.Shape.Standalone
import RowStream.Proofs.Simulation.Handles
import RowStream.Proofs.Simulation.Runs
import RowStream.Proofs.Simulation.Tracked
import RowStream.Proofs.Stream.Acknowledgement
import RowStream.Proofs.Stream.Blocks
import RowStream.Proofs.Stream.Carrier
import RowStream.Proofs.Stream.Closed
import RowStream.Proofs.Stream.Coherent
import RowStream.Proofs.Stream.Failure
import RowStream.Proofs.Stream.Handover
import RowStream.Proofs.Stream.Holders
import RowStream.Proofs.Stream.Isolation
import RowStream.Proofs.Stream.Operation
import RowStream.Proofs.Stream.Outcome
import RowStream.Proofs.Stream.Refusal
import RowStream.Proofs.Stream.Reports
import RowStream.Proofs.Stream.Resolution
import RowStream.Proofs.Stream.Run
import RowStream.Proofs.Stream.Transmission
import RowStream.Proofs.Stream.Writes
import RowStream.Proofs.Table.Compiled
import RowStream.Proofs.Table.Dialects
import RowStream.Proofs.Table.Draft
import RowStream.Proofs.Table.Field
import RowStream.Proofs.Table.Layout
import RowStream.Proofs.Table.Presence
import RowStream.Proofs.Table.Reference
import RowStream.Proofs.Table.Refused
import RowStream.Proofs.Table.Registered
import RowStream.Proofs.Table.Relaxed
import RowStream.Proofs.Table.Resolved
import RowStream.Proofs.Table.Rewritten
import RowStream.Proofs.Table.WellFormed
import RowStream.Proofs.Table.Wire
import RowStream.Proofs.Table.Written
import RowStream.Proofs.Text.Base64
import RowStream.Proofs.Text.Blank
import RowStream.Proofs.Text.Search
import RowStream.Proofs.Text.Utf8
import RowStream.Proofs.Wire.Message
import RowStream.Proofs.Wire.Record
import RowStream.Proofs.Writer.Run
import RowStream.Proofs.Writer.Schema
import RowStream.Row.Basic
import RowStream.Row.Coercion
import RowStream.Row.Encoder
import RowStream.Row.Json
import RowStream.Service.Append
import RowStream.Service.Code
import RowStream.Service.Failure
import RowStream.Service.Json
import RowStream.Service.Memory
import RowStream.Service.Status
import RowStream.Service.StorageError
import RowStream.Service.WriteStream
import RowStream.Shape.Basic
import RowStream.Shape.Inline
import RowStream.Shape.Json
import RowStream.Simulation.Step
import RowStream.Simulation.World
import RowStream.Stream.Channel
import RowStream.Stream.Client
import RowStream.Stream.Connection
import RowStream.Stream.Error
import RowStream.Stream.Event
import RowStream.Stream.PendingWrite
import RowStream.Stream.RowWriter
import RowStream.Stream.Writer
import RowStream.Table.Basic
import RowStream.Table.Compile
import RowStream.Table.Document
import RowStream.Table.Error
import RowStream.Table.Json
import RowStream.Table.Wire
import RowStream.Text.Base64
import RowStream.Text.Blank
import RowStream.Text.Escape
import RowStream.Text.Hex
import RowStream.Text.Letter
import RowStream.Text.Printable
import RowStream.Text.Quoted
import RowStream.Text.Search
import RowStream.Text.Utf8
import RowStream.Wire.Message
import RowStream.Wire.Record
import RowStream.Wire.Varint
