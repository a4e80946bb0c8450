import RowStream.Config.Basic

/-!
# Configuration from the environment

Four variables override the settings. A variable that is unset or blank changes nothing, and blanks
around a value do not count. The variables are read one after the other, and the first that cannot
be read is the error.

* `WriterConfig.ofEnvironment`: the settings with those of the variables in their place.
* `parseCapacity`: the count of events that a variable sets.

Out of scope: the environment itself; a variable is given by a lookup.
-/

namespace RowStream.Config

/-- A variable whose value cannot be read, and why. -/
structure Invalid where
  name : String
  reason : String
deriving Repr, DecidableEq

/-- What is said of a variable that cannot be read. -/
def Invalid.message (e : Invalid) : String := e.name ++ " is invalid: " ++ e.reason

/-- The value of a variable without the blanks around it, unless nothing is left. -/
def setting (lookup : String → Option String) (name : String) : Option String :=
  match lookup name with
  | none => none
  | some v =>
    let v := Text.trim v
    if v = "" then none else some v

/-- The value of a variable, read. -/
def parsed {α : Type} (lookup : String → Option String) (name : String)
    (parse : String → Except String α) : Except Invalid (Option α) :=
  match setting lookup name with
  | none => .ok none
  | some v =>
    match parse v with
    | .ok a => .ok (some a)
    | .error reason => .error ⟨name, reason⟩

/-- A capacity of at least one. -/
def parseCapacity (s : String) : Except String Nat :=
  match Integer.read .nat64 s with
  | .error f => .error f.message
  | .ok n => if n = 0 then .error "must be greater than zero" else .ok n.toNat

/-- The settings that the variables give. -/
def WriterConfig.ofEnvironment (lookup : String → Option String) : Except Invalid WriterConfig := do
  let traceId := (setting lookup "BQWRITE_TRACE_ID").getD defaultTraceId
  let policy ← parsed lookup "BQWRITE_IN_FLIGHT_POLICY" InFlightPolicy.parse
  let capacity ← parsed lookup "BQWRITE_EVENT_CAPACITY" parseCapacity
  let missing ← parsed lookup "BQWRITE_DEFAULT_MISSING_VALUE" MissingValue.parse
  return {
    connection := {
      traceId := traceId
      inFlightPolicy := policy.getD .resend
      eventCapacity := capacity.getD defaultEventCapacity }
    defaultMissingValue := missing }

end RowStream.Config
