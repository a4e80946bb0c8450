import RowStream.Config.Basic
import RowStream.Json.Outline

/-!
# Configuration as JSON

Settings stand in an object or, in their order, in an array; those left out keep their defaults.
An object names each setting at most once and may have members that are no settings, whose values
are passed over; an array has no more items than there are settings. A choice is its name, or an
object with the name as its one member and null as the value.

* `readSettings`: the settings of an object or an array over their defaults.
* `WriterConfig.ofJson`, `WriterConfig.toJson`, `WriterConfig.parse`: the settings of a client.

Out of scope: the texts of the faults; a document is read or it is not.
-/

namespace RowStream.Config

/-- How a setting is read into settings of type `α`, and what is wanted of its text. -/
structure Setting (α : Type) where
  name : String
  read : Json → α → Option α
  outline : Json.Outline := .whole

/-- What is wanted of the text of settings. -/
def outlineOf {α : Type} (settings : List (Setting α)) : Json.Outline :=
  .parts (settings.map fun s => (s.name, s.outline))

/-- Reads the items of an array into the settings, in order. -/
def readItems {α : Type} : List (Setting α) → List Json → α → Option α
  | _, [], a => some a
  | [], _ :: _, _ => none
  | s :: settings, v :: vs, a =>
    match s.read v a with
    | some a => readItems settings vs a
    | none => none

/-- Reads the members of an object into the settings; `seen` are the settings read before. -/
def readMembers {α : Type} (settings : List (Setting α)) (seen : List String) :
    List (String × Json) → α → Option α
  | [], a => some a
  | (k, v) :: ms, a =>
    match settings.find? fun s => s.name == k with
    | none => readMembers settings seen ms a
    | some s =>
      if seen.contains k then none
      else
        match s.read v a with
        | some a => readMembers settings (k :: seen) ms a
        | none => none

/-- Reads settings on top of their defaults. -/
def readSettings {α : Type} (settings : List (Setting α)) (defaults : α) : Json → Option α
  | .object members => readMembers settings [] members defaults
  | .array items => readItems settings items defaults
  | _ => none

/-- The name of a choice. -/
def readChoice : Json → Option String
  | .string s => some s
  | .object [(s, .null)] => some s
  | _ => none

/-- The policy that a choice names, in exactly its letters. -/
def InFlightPolicy.ofJson (j : Json) : Option InFlightPolicy :=
  match readChoice j with
  | some s => if s = "resend" then some .resend else if s = "fail" then some .fail else none
  | none => none

/-- The value of a choice, in exactly its letters. -/
def MissingValue.ofJson (j : Json) : Option MissingValue :=
  match readChoice j with
  | some s => if s = "null" then some .null else if s = "default" then some .default else none
  | none => none

/-- A count of at most 64 bits. -/
def countOfJson : Json → Option Nat
  | .number (.int n) => if Integer.Range.nat64.has n then some n.toNat else none
  | _ => none

/-- The settings of a connection, in the order in which an array gives them. -/
def ConnectionOptions.settings : List (Setting ConnectionOptions) :=
  [{ name := "trace_id", read := fun j o => j.text?.map fun s => { o with traceId := s } },
    { name := "in_flight_policy"
      read := fun j o => (InFlightPolicy.ofJson j).map fun p => { o with inFlightPolicy := p } },
    { name := "event_capacity"
      read := fun j o => (countOfJson j).map fun n => { o with eventCapacity := n } }]

/-- The options of a document; a setting that is left out keeps its default. -/
def ConnectionOptions.ofJson (j : Json) : Option ConnectionOptions :=
  readSettings ConnectionOptions.settings {} j

/-- The settings of a client, in the order in which an array gives them. Those of its connections
are a document of their own. -/
def WriterConfig.settings : List (Setting WriterConfig) :=
  [{ name := "connection"
     read := fun j c => (ConnectionOptions.ofJson j).map fun o => { c with connection := o }
     outline := outlineOf ConnectionOptions.settings },
    { name := "default_missing_value"
      read := fun j c =>
        match j with
        | .null => some { c with defaultMissingValue := none }
        | j => (MissingValue.ofJson j).map fun m => { c with defaultMissingValue := some m } }]

/-- The settings of a document; one that is left out keeps its default. -/
def WriterConfig.ofJson (j : Json) : Option WriterConfig :=
  readSettings WriterConfig.settings {} j

/-! ## Writing settings -/

/-- The options with every setting spelled out. -/
def ConnectionOptions.toJson (o : ConnectionOptions) : Json :=
  .object [("trace_id", .string o.traceId), ("in_flight_policy", .string o.inFlightPolicy.name),
    ("event_capacity", Json.ofInt o.eventCapacity)]

/-- The settings with every member spelled out, null where no choice was made. -/
def WriterConfig.toJson (c : WriterConfig) : Json :=
  .object [("connection", c.connection.toJson),
    ("default_missing_value",
      Json.orNull (fun m : MissingValue => .string m.name) c.defaultMissingValue)]

/-! ## Reading a text -/

/-- The settings that a JSON text gives. -/
def WriterConfig.parse (text : String) : Option WriterConfig :=
  match Json.parseOutlined (outlineOf WriterConfig.settings) text with
  | .ok j => WriterConfig.ofJson j
  | .error _ => none

end RowStream.Config
