import RowStream.Number.Integer
import RowStream.Service.Append
import RowStream.Text.Blank
import RowStream.Text.Letter
import RowStream.Text.Quoted

/-!
# Configuration

What a connection does with the writes of a channel it has lost, how many events it keeps for a
subscriber, and how it marks its requests; and what a client's writers say about missing values.
Names of settings are read in any letter case and with blanks around them.

* `ConnectionOptions`, `WriterConfig`: the settings with their defaults.
* `InFlightPolicy.parse`, `MissingValue.parse`, `LogFormat.parse`: choices by name.
* `ConnectionOptions.describe`, `WriterConfig.describe`: the settings as they are shown.

Out of scope: setting up the log itself.
-/

namespace RowStream.Config

/-- What becomes of the unacknowledged writes of a lost channel. -/
inductive InFlightPolicy where
  | resend
  | fail
deriving Repr, DecidableEq, Inhabited

/-- How the service fills columns that a row leaves out. -/
inductive MissingValue where
  | null
  | default
deriving Repr, DecidableEq, Inhabited

/-- The formats of the log. -/
inductive LogFormat where
  | json
  | pretty
deriving Repr, DecidableEq, Inhabited

/-- The trace id that requests carry unless another is set. -/
def defaultTraceId : String := "rust:bqwrite/0.1.0"

/-- How many events a connection keeps unless told otherwise. -/
def defaultEventCapacity : Nat := 64

/-- The settings of a connection. -/
structure ConnectionOptions where
  traceId : String := defaultTraceId
  inFlightPolicy : InFlightPolicy := .resend
  eventCapacity : Nat := defaultEventCapacity
deriving Repr, DecidableEq, Inhabited

/-- The settings of a client. -/
structure WriterConfig where
  connection : ConnectionOptions := {}
  defaultMissingValue : Option MissingValue := none
deriving Repr, DecidableEq, Inhabited

/-- The options with another capacity, which is at least one. -/
def ConnectionOptions.withEventCapacity (o : ConnectionOptions) (capacity : Nat) :
    ConnectionOptions :=
  { o with eventCapacity := max capacity 1 }

/-- What a request says of missing values under the setting. -/
def MissingValue.interpretation : MissingValue → Service.MissingValue
  | .null => .null
  | .default => .default

/-! ## Names -/

/-- The name of the policy in a setting. -/
def InFlightPolicy.name : InFlightPolicy → String
  | .resend => "resend"
  | .fail => "fail"

/-- The name of the choice in a setting. -/
def MissingValue.name : MissingValue → String
  | .null => "null"
  | .default => "default"

/-- The name of the format in a setting. -/
def LogFormat.name : LogFormat → String
  | .json => "json"
  | .pretty => "pretty"

/-- The name as it is read: without blanks around it and in lower case. -/
def readName (s : String) : String := Text.lower (Text.trim s)

/-- The value that a name stands for, or what is said of the name. -/
def parseName {α : Type} (expected : String) (values : List (String × α)) (s : String) :
    Except String α :=
  match values.find? fun v => v.1 == readName s with
  | some v => .ok v.2
  | none => .error ("expected " ++ expected ++ ", got " ++ readName s)

/-- The policy of a name, read loosely. -/
def InFlightPolicy.parse : String → Except String InFlightPolicy :=
  parseName "resend or fail" [("resend", .resend), ("fail", .fail)]

/-- The choice of a name, read loosely. -/
def MissingValue.parse : String → Except String MissingValue :=
  parseName "null or default" [("null", .null), ("default", .default)]

/-- The format of a name, read loosely. -/
def LogFormat.parse : String → Except String LogFormat :=
  parseName "pretty or json" [("json", .json), ("pretty", .pretty)]

/-! ## Descriptions -/

/-- The policy as it shows in a description. -/
def InFlightPolicy.describe : InFlightPolicy → String
  | .resend => "Resend"
  | .fail => "Fail"

/-- The choice as it shows in a description. -/
def MissingValue.describe : MissingValue → String
  | .null => "Null"
  | .default => "Default"

/-- An optional value, described. -/
def describeOption {α : Type} (describe : α → String) : Option α → String
  | none => "None"
  | some a => "Some(" ++ describe a ++ ")"

/-- The options in one line, every member with its value. -/
def ConnectionOptions.describe (o : ConnectionOptions) : String :=
  "ConnectionOptions \x7b trace_id: " ++ Text.Quoted.encode o.traceId ++ ", in_flight_policy: " ++
    o.inFlightPolicy.describe ++ ", event_capacity: " ++ toString o.eventCapacity ++ " \x7d"

/-- The settings of a client in one line, those of its connections inside. -/
def WriterConfig.describe (c : WriterConfig) : String :=
  "WriterConfig \x7b connection: " ++ c.connection.describe ++ ", default_missing_value: " ++
    describeOption MissingValue.describe c.defaultMissingValue ++ " \x7d"

end RowStream.Config
