import RowStream.Service.Failure
import RowStream.Text.Quoted

/-!
# Errors of writes

Why a write failed, or what went wrong with a connection.

* `WriteError`: the errors, with the failure behind them.
* `message`: what is said of an error.
-/

namespace RowStream.Stream

open Service (Failure)

/-- Why a write failed. -/
inductive WriteError where
  | connectionClosed
  | schemaMismatch (f : Failure)
  | request (f : Failure)
  | transient (f : Failure)
  | connection (f : Failure)
  | aborted
  | call (f : Failure)
  | invalidStreamId (id : String)
  | noRuntime
deriving Repr, DecidableEq, Inhabited

namespace WriteError

/-- The failure behind the error, if any. -/
def failure? : WriteError → Option Failure
  | .schemaMismatch f | .request f | .transient f | .connection f | .call f => some f
  | .connectionClosed | .aborted | .invalidStreamId _ | .noRuntime => none

/-- What is said of the error. -/
def message : WriteError → String
  | .connectionClosed => "connection closed"
  | .schemaMismatch f => "permanent schema mismatch: " ++ f.text
  | .request f => "request failed: " ++ f.text
  | .transient f => "transient channel error: " ++ f.text
  | .connection f => "connection error: " ++ f.text
  | .aborted => "write aborted"
  | .call f => "rpc failed: " ++ f.text
  | .invalidStreamId id => "invalid stream id " ++ Text.Quoted.encode id ++ " for request metadata"
  | .noRuntime => "no tokio runtime available to drive the connection"

/-- The error of the writes left on a replaced channel that failed as a whole. -/
def ofReplaced (f : Failure) : WriteError :=
  if f.isSchemaMismatch then .schemaMismatch f
  else if f.isTransient then .transient f
  else .connection f

end WriteError

/-- What became of a write: its response, or why it failed. -/
abbrev WriteResult := Except WriteError Service.AppendResponse

end RowStream.Stream
