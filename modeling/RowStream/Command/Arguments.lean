import RowStream.Config.Basic
import RowStream.Descriptor.Basic

/-!
# Arguments

The command line: options that hold for every command, the name of a command, and the options of
that command. An option is given by its long name or one letter, its value behind an equals sign,
behind the letter, or as the next argument, which then must not start with a dash. A value is
looked at only when the next option is met or the arguments end. Every option is given at most
once; after two dashes nothing counts as an option.

* `parse`: what a command line asks for, or the usage error that it ends with.
* `readArgument`, `Reading.meet`, `Reading.settle`: one argument after the other, and when values
  are looked at.
* `readCompile`, `readEncode`, `readHelp`: the arguments of each command.

Out of scope: the texts of help and of usage errors; only their kinds are told apart.
-/

namespace RowStream.Command

open Config (LogFormat)
open Descriptor (Dialect)

/-- Why arguments are not used: a fault, or a wish for help or the version. -/
inductive Usage where
  | missingArgument
  | missingSubcommand
  | invalidValue
  | invalidSubcommand
  | unknownArgument
  | conflict
  | tooManyValues
  | help
  | version
  | helpOnMissing
deriving Repr, DecidableEq, Inhabited

/-- The kind of the error, as the argument parser calls it. -/
def Usage.name : Usage → String
  | .missingArgument => "MissingRequiredArgument"
  | .missingSubcommand => "MissingSubcommand"
  | .invalidValue => "InvalidValue"
  | .invalidSubcommand => "InvalidSubcommand"
  | .unknownArgument => "UnknownArgument"
  | .conflict => "ArgumentConflict"
  | .tooManyValues => "TooManyValues"
  | .help => "DisplayHelp"
  | .version => "DisplayVersion"
  | .helpOnMissing => "DisplayHelpOnMissingArgumentOrSubcommand"

/-! ## Options -/

/-- What an option does: it takes a value that passes a test, it is a flag, or it asks for help or
the version. -/
inductive Action where
  | value (isValid : String → Bool)
  | flag
  | help
  | version

/-- An option: its long name, its letter if it has one, and what it does. -/
structure Opt where
  long : String
  short : Option Char
  action : Action

/-- The options read so far, with their values; an option that waits for its value or whose value
was not looked at yet; and whether two dashes were met. -/
structure Reading where
  given : List (String × String) := []
  waiting : Option (Opt × Option String) := none
  onlyPlain : Bool := false

namespace Reading

/-- The next argument can be the value of an option. -/
def awaitsValue (r : Reading) : Bool :=
  match r.waiting with
  | some (_, none) => true
  | _ => false

/-- The option was met, with a value or as a flag. -/
def isGiven (r : Reading) (long : String) : Bool :=
  r.given.any fun g => g.1 == long

/-- The value of an option that was met. -/
def value? (r : Reading) (long : String) : Option String :=
  (r.given.find? fun g => g.1 == long).map (·.2)

/-- Takes an option with its value. -/
def accept (r : Reading) (o : Opt) (value : String) : Except Usage Reading :=
  if r.isGiven o.long then .error .conflict
  else
    match o.action with
    | .value isValid =>
      if isValid value then .ok { r with given := r.given ++ [(o.long, value)] }
      else .error .invalidValue
    | .flag => .ok { r with given := r.given ++ [(o.long, value)] }
    | .help => .error .help
    | .version => .error .version

/-- Looks at the option that waits. -/
def settle (r : Reading) : Except Usage Reading :=
  match r.waiting with
  | none => .ok r
  | some (_, none) => .error .invalidValue
  | some (o, some value) => { r with waiting := none }.accept o value

/-- Meets an option, perhaps with a value attached. -/
def meet (r : Reading) (o : Opt) (attached : Option String) : Except Usage Reading :=
  match o.action, attached with
  | .value _, some value => do (← r.settle).accept o value
  | .value _, none => do return { ← r.settle with waiting := some (o, none) }
  | _, some _ => .error .tooManyValues
  | _, none => do (← r.settle).accept o ""

end Reading

/-- A long option without its dashes: its name, and the value behind an equals sign. -/
def splitLong (cs : List Char) : String × Option String :=
  let name := cs.takeWhile (· != '=')
  match cs.dropWhile (· != '=') with
  | [] => (String.ofList name, none)
  | _ :: value => (String.ofList name, some (String.ofList value))

/-- Reads a group of letters. -/
def readLetters (options : List Opt) (r : Reading) : List Char → Except Usage Reading
  | [] => .ok r
  | c :: cs =>
    match options.find? fun o => o.short == some c with
    | none => .error .unknownArgument
    | some o =>
      match o.action, cs with
      | .value _, '=' :: value => r.meet o (some (String.ofList value))
      | .value _, [] => r.meet o none
      | .value _, value => r.meet o (some (String.ofList value))
      | _, cs => do readLetters options (← r.meet o none) cs

/-- Reads an argument that names no command; `plain` says what is wrong with one that is no option
either, before or after two dashes. -/
def readArgument (options : List Opt) (plain : Bool → String → Usage) (r : Reading) (arg : String) :
    Except Usage Reading :=
  if r.onlyPlain then .error (plain true arg)
  else
    match arg.toList with
    | ['-', '-'] => .ok { r with onlyPlain := true }
    | '-' :: '-' :: cs =>
      let (name, attached) := splitLong cs
      match options.find? fun o => o.long == name with
      | some o => r.meet o attached
      | none => .error .unknownArgument
    | '-' :: c :: cs => readLetters options r (c :: cs)
    | _ =>
      match r.waiting with
      | some (o, none) => .ok { r with waiting := some (o, some arg) }
      | _ => .error (plain false arg)

/-! ## Commands -/

/-- Compiles a table schema. -/
structure CompileArguments where
  schema : String
  scope : String := "root"
  dialect : Dialect := .proto2
  output : Option String := none
  layout : Bool := false
deriving Repr, DecidableEq

/-- Encodes rows of a table. -/
structure EncodeArguments where
  schema : String
  rows : String
  convertDates : Bool := false
deriving Repr, DecidableEq

/-- A command with its arguments. -/
inductive Invocation where
  | compile (a : CompileArguments)
  | encode (a : EncodeArguments)
deriving Repr, DecidableEq

/-- A path is any text but the empty one. -/
def isPath (s : String) : Bool := s != ""

/-- The text is one of the names, in exactly their letters. -/
def isOneOf (names : List String) (s : String) : Bool := names.contains s

/-- Asks for help, on the program or on a command. -/
def helpOption : Opt := ⟨"help", some 'h', .help⟩

/-- The format of the log, which every command takes as well. -/
def logOption : Opt :=
  ⟨"log-format", none, .value (isOneOf [LogFormat.pretty.name, LogFormat.json.name])⟩

/-- The options that may stand before the command. -/
def globalOptions : List Opt := [logOption, helpOption, ⟨"version", some 'V', .version⟩]

/-- The options of compiling. A scope may be any text, the empty one too. -/
def compileOptions : List Opt :=
  [⟨"schema", none, .value isPath⟩,
    ⟨"scope", none, .value fun _ => true⟩,
    ⟨"syntax", none, .value (isOneOf [Dialect.proto2.name, Dialect.proto3.name])⟩,
    ⟨"output", some 'o', .value isPath⟩,
    ⟨"layout", none, .flag⟩,
    logOption, helpOption]

/-- The options of encoding. -/
def encodeOptions : List Opt :=
  [⟨"schema", none, .value isPath⟩,
    ⟨"rows", none, .value isPath⟩,
    ⟨"convert-dates", none, .flag⟩,
    logOption, helpOption]

/-- Reads all arguments as options of a command. -/
def readOptions (options : List Opt) (args : List String) : Except Usage Reading := do
  let r ← args.foldlM (readArgument options fun _ _ => .unknownArgument) {}
  r.settle

/-- The value of an option that must be given. -/
def required (r : Reading) (long : String) : Except Usage String :=
  match r.value? long with
  | some value => .ok value
  | none => .error .missingArgument

/-- Reads the arguments of compiling. A file for the descriptors and a layout exclude each other,
and that is said before a missing schema. -/
def readCompile (args : List String) : Except Usage Invocation := do
  let r ← readOptions compileOptions args
  if r.isGiven "output" && r.isGiven "layout" then throw .conflict
  let schema ← required r "schema"
  return .compile {
    schema := schema
    scope := (r.value? "scope").getD "root"
    dialect := ((r.value? "syntax").bind Dialect.ofName?).getD .proto2
    output := r.value? "output"
    layout := r.isGiven "layout" }

/-- Reads the arguments of encoding; a missing schema is named before missing rows. -/
def readEncode (args : List String) : Except Usage Invocation := do
  let r ← readOptions encodeOptions args
  let schema ← required r "schema"
  let rows ← required r "rows"
  return .encode { schema := schema, rows := rows, convertDates := r.isGiven "convert-dates" }

/-- The words that name a command. -/
def commandNames : List String := ["compile", "encode", "help"]

/-- The answer to a request for help, perhaps on a command. -/
def readHelp : List String → Usage
  | [] => .help
  | [name] => if commandNames.contains name then .help else .invalidSubcommand
  | _ => .invalidSubcommand

/-- What is wrong with an argument that should have named a command. -/
def notACommand (afterDashes : Bool) (arg : String) : Usage :=
  if afterDashes && commandNames.contains arg then .unknownArgument else .invalidSubcommand

/-- Reads options up to the name of a command, and the command. -/
def readCommand (r : Reading) : List String → Except Usage Invocation
  | [] => do
    let r ← r.settle
    .error (if r.given.isEmpty then .helpOnMissing else .missingSubcommand)
  | arg :: args =>
    if !r.onlyPlain && !r.awaitsValue && commandNames.contains arg then do
      let invocation ←
        if arg = "compile" then readCompile args
        else if arg = "encode" then readEncode args
        else .error (readHelp args)
      let _ ← r.settle
      return invocation
    else do
      let r ← readArgument globalOptions notACommand r arg
      readCommand r args

/-- Reads a command line, without the name of the program. -/
def parse (args : List String) : Except Usage Invocation :=
  readCommand {} args

end RowStream.Command
