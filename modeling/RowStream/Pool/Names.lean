import RowStream.Descriptor.Basic
import RowStream.Pool.Fault
import RowStream.Text.Letter
import RowStream.Text.Search

/-!
# Names of a descriptor set

The first pass over the files of a pool. It takes the definitions in the order in which they stand
(a message, its choices, its fields, the messages and enums nested in it) and requires every full
name to be new. The values of an enum are named in the scope around the enum. In the newer dialect
the fields of a message must also differ without underscores and letter case, and an enum must
start with 0.

* `Names.addFiles`: the names that files define, or the first fault.
* `Names.resolve`: what a name stands for in a scope.

Out of scope: names that become visible through public imports; a name is looked up among all files.
-/

namespace RowStream.Pool

open Descriptor (Dialect)

/-- What a name stands for. -/
inductive Role where
  | package
  | message
  | field
  | oneof
  | enum
  | enumValue
deriving Repr, DecidableEq

/-- Further names may follow the name and a dot. -/
def Role.isScope : Role → Bool
  | .package | .message | .enum => true
  | _ => false

/-- A full name, the file that defines it and what it stands for. -/
structure Definition where
  name : String
  file : String
  role : Role
deriving Repr, DecidableEq

/-- All names defined so far, the latest first. -/
abbrev Names := List Definition

/-- The definition of a full name. -/
def Names.find (names : Names) (name : String) : Option Definition :=
  names.find? fun d => d.name == name

/-- One step of the pass. -/
inductive Step where
  | define (name : String) (role : Role)
  | fail (fault : Fault)
deriving Repr

/-- The letters of a field name that count in the newer dialect. -/
def letters (name : String) : String :=
  String.ofList ((name.toList.filter (· != '_')).map Text.lowerChar)

/-- The fields whose letters an earlier field has too, each with the first such field. -/
def sameLetters : List String → List String → List Step
  | _, [] => []
  | seen, name :: names =>
    match seen.find? fun s => letters s == letters name with
    | some first => .fail (.sameLetters first name) :: sameLetters seen names
    | none => sameLetters (seen ++ [name]) names

/-- The steps of an enum in a scope. -/
def enumSteps (dialect : Dialect) (scope : String) (e : Descriptor.Enum) : List Step :=
  .define (Text.qualify scope e.nameText) .enum ::
    ((match e.values with
      | [] => [Step.fail .emptyEnum]
      | v :: _ =>
        if dialect = .proto3 ∧ v.numberValue ≠ 0 then [Step.fail .firstEnumNumber] else []) ++
      e.values.map fun v => .define (Text.qualify scope v.nameText) .enumValue)

mutual

/-- The steps of a message in a scope. -/
def messageSteps (dialect : Dialect) (scope : String) : Descriptor.Message → List Step
  | ⟨name, fields, nested, enums, _, oneofs, _⟩ =>
    let full := Text.qualify scope (name.getD "")
    .define full .message ::
      ((match dialect with
        | .proto3 => sameLetters [] (fields.map (·.nameText))
        | .proto2 => []) ++
        oneofs.map (fun o => .define (Text.qualify full o.nameText) .oneof) ++
        fields.map (fun f => .define (Text.qualify full f.nameText) .field) ++
        messagesSteps dialect full nested ++
        enums.flatMap (enumSteps dialect full))

/-- The steps of a list of messages in a scope. -/
def messagesSteps (dialect : Dialect) (scope : String) : List Descriptor.Message → List Step
  | [] => []
  | m :: ms => messageSteps dialect scope m ++ messagesSteps dialect scope ms

end

/-- The packages around a package, outermost first, and itself. -/
def packageNames (package : String) : List String :=
  if package = "" then []
  else
    let parts := package.splitOn "."
    (List.range parts.length).map fun n => ".".intercalate (parts.take (n + 1))

/-- The dialect of a file; the older one unless it names another. -/
def dialectOf (f : Descriptor.File) : Except Fault Dialect :=
  match f.dialect with
  | none => .ok .proto2
  | some s =>
    match Dialect.ofName? s with
    | some d => .ok d
    | none => .error (.unknownDialect s)

/-- The steps of a file. -/
def fileSteps (dialect : Dialect) (f : Descriptor.File) : List Step :=
  (packageNames f.packageText).map (fun p => .define p .package) ++
    messagesSteps dialect f.packageText f.messages ++
    f.enums.flatMap (enumSteps dialect f.packageText)

/-- Takes one step in a file. A package may be named again, and nothing else. -/
def Names.take (file : String) (names : Names) : Step → Except Fault Names
  | .fail fault => .error fault
  | .define name role =>
    match names.find name with
    | none => .ok (⟨name, file, role⟩ :: names)
    | some d =>
      if role = .package ∧ d.role = .package then .ok names
      else if d.file = file then .error (.definedTwice name)
      else .error (.definedElsewhere name d.file)

/-- Takes the names of all files. The dialect of each must be known and its own name new before its
definitions count. -/
def Names.addFiles : Names → List String → List Descriptor.File → Except Fault Names
  | names, _, [] => .ok names
  | names, seen, f :: fs => do
    let dialect ← dialectOf f
    if seen.contains f.nameText then throw (.duplicateFile f.nameText)
    let names ← (fileSteps dialect f).foldlM (Names.take f.nameText) names
    Names.addFiles names (f.nameText :: seen) fs

/-! ## Looking names up -/

/-- The scopes around a dotted name, itself first and the outermost, empty one last. -/
def scopesOf (scope : String) : List String :=
  let parts := scope.splitOn "."
  ((List.range parts.length).map fun n => ".".intercalate (parts.take (parts.length - n))) ++ [""]

/-- What looking up one candidate gives. -/
inductive Lookup where
  | found (d : Definition)
  | notAType (name : String)
  | notImported (name : String)
  | missing
deriving Repr

/-- Looks up a full name for a field's type, among the files that are imported. -/
def Names.candidate (names : Names) (imported : List String) (name : String) : Lookup :=
  match names.find name with
  | none => .missing
  | some d =>
    if !imported.contains d.file then .notImported name
    else if d.role = .message ∨ d.role = .enum then .found d
    else .notAType name

/-- What the lookup of `name` amounts to. -/
def Lookup.result (name : String) : Lookup → Except Fault Definition
  | .found d => .ok d
  | .notAType full => .error (.notAType full)
  | .notImported full => .error (.undefined full)
  | .missing => .error (.undefined name)

/-- A name without dots: the innermost scope where it is a type, or else the first finding. -/
def Names.simple (names : Names) (imported : List String) (name : String) :
    Lookup → List String → Lookup
  | first, [] => first
  | first, scope :: scopes =>
    match names.candidate imported (Text.qualify scope name) with
    | .found d => .found d
    | other =>
      match first with
      | .missing => names.simple imported name other scopes
      | first => names.simple imported name first scopes

/-- A name with dots: the innermost scope that has its first part decides. -/
def Names.dotted (names : Names) (imported : List String) (name head : String) :
    List String → Except Fault Definition
  | [] => .error (.undefined name)
  | scope :: scopes =>
    match names.find (Text.qualify scope head) with
    | some d =>
      if d.role.isScope then
        match names.candidate imported (Text.qualify scope name) with
        | .missing => .error (.shadowed name (Text.qualify scope name))
        | other => other.result name
      else names.dotted imported name head scopes
    | none => names.dotted imported name head scopes

/-- The message or enum that a field's type name means, seen from a scope. A leading dot starts at
the outermost scope. -/
def Names.resolve (names : Names) (imported : List String) (scope name : String) :
    Except Fault Definition :=
  match name.toList with
  | '.' :: full => (names.candidate imported (String.ofList full)).result name
  | _ =>
    match name.splitOn "." with
    | [_] => (names.simple imported name .missing (scopesOf scope)).result name
    | head :: _ => names.dotted imported name head (scopesOf scope)
    | [] => .error (.undefined name)

end RowStream.Pool
