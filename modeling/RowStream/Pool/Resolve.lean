import RowStream.Number.Decimal
import RowStream.Pool.Basic
import RowStream.Pool.Names
import RowStream.Text.Escape

/-!
# Resolving descriptors

The second pass over the files of a pool, in the order of the first. Every file that a file
imports must be there; the fields of every message get their types, and a field must have a valid
number that no other field of the message has, a default its type can read, a choice that exists,
and a JSON name of its own. The numbers of an enum must differ.

* `ofFiles`: the pool of a set of files, or the first fault.
* `Scope.field`, `Scope.message`: a field and a message, resolved.
* `resolveDefault`: the default that a text writes.

Out of scope: public imports, extensions of files, and the extensions nested in messages, whose
names are taken but whose types stay unresolved.
-/

namespace RowStream.Pool

open Descriptor (Dialect Label Scalar FieldType)

/-- The numbers that a field may have. -/
def isFieldNumber (n : Int32) : Bool :=
  decide (1 ≤ n ∧ n ≤ 536870911 ∧ ¬ (19000 ≤ n ∧ n ≤ 19999))

/-- The place of a type name in a field, as a path of member numbers. -/
def typeNameMember : Nat := 6

/-- The JSON name that a field has when none is given: underscores are dropped and the letter
after one is in upper case. -/
def jsonName (name : String) : String :=
  let rec go : Bool → List Char → List Char
    | _, [] => []
    | raise, c :: cs =>
      if c = '_' then go true cs
      else (if raise then Text.upperChar c else c) :: go false cs
  String.ofList (go false name.toList)

/-- The kind that a field of a declared type has when its type name means a definition. -/
def kindOf (type : FieldType) (d : Definition) : Kind :=
  if d.role = .enum then .enum d.name
  else if type = .group then .group d.name
  else .message d.name

/-- The kind of a field. A type name decides over the declared type. -/
def resolveKind (names : Names) (imported : List String) (scope : String) (path : List Nat)
    (f : Descriptor.Field) : Except Fault Kind :=
  if f.typeNameText = "" then
    match f.typeValue with
    | .scalar s => .ok (.scalar s)
    | _ => .error (.missingType (path ++ [typeNameMember]))
  else do
    let d ← names.resolve imported scope f.typeNameText
    return kindOf f.typeValue d

/-- The type that a fault over a default names: a scalar by its name and an enum by its full name.
Messages have no defaults, so one word stands for all of them. -/
def defaultTypeText : Kind → String
  | .scalar s => s.name
  | .enum name => name
  | .message _ | .group _ => "message"

/-- The integer of a range that a text writes. -/
def readInt {α : Type} (range : Integer.Range) (ofInt : Int → α) (s : String) : Option α :=
  match Integer.read range s with
  | .ok n => some (ofInt n)
  | .error _ => none

/-- The truth value that a text writes as a default. -/
def readBool (s : String) : Option Bool :=
  if s = "true" then some true else if s = "false" then some false else none

/-- The value of a scalar type that a text writes as a default. -/
def readScalar (s : String) : Scalar → Option Message.Value
  | .double => (Decimal.parse s).map fun v => .double v.toDouble
  | .float => (Decimal.parse s).map fun v => .float v.toSingle
  | .int32 | .sint32 | .sfixed32 => (readInt .int32 Int32.ofInt s).map .int32
  | .int64 | .sint64 | .sfixed64 => (readInt .int64 Int64.ofInt s).map .int64
  | .uint32 | .fixed32 => (readInt .nat32 UInt32.ofInt s).map .uint32
  | .uint64 | .fixed64 => (readInt .nat64 UInt64.ofInt s).map .uint64
  | .bool => (readBool s).map .bool
  | .string => some (.string s)
  | .bytes => (Escape.read s).map .bytes

/-- The value of a kind that a text writes as a default; messages have none. -/
def readDefault (enums : List Enum) (s : String) : Kind → Option Message.Value
  | .scalar t => readScalar s t
  | .enum name =>
    match enums.find? fun e => e.fullName == name with
    | some e => (e.number? s).map .enum
    | none => none
  | .message _ | .group _ => none

/-- The default that a field declares. -/
def resolveDefault (enums : List Enum) (kind : Kind) (f : Descriptor.Field) :
    Except Fault (Option Message.Value) :=
  match f.defaultValue with
  | none => .ok none
  | some s =>
    match readDefault enums s kind with
    | some v => .ok (some v)
    | none => .error (.badDefault s (defaultTypeText kind))

/-- The choice, of `count` in the message, that a field belongs to. -/
def resolveOneof (count : Nat) (f : Descriptor.Field) : Except Fault (Option Nat) :=
  match f.oneofIndex with
  | none => .ok none
  | some i =>
    if 0 ≤ i.toInt ∧ i.toInt < count then .ok (some i.toInt.toNat) else .error .oneofIndex

/-- The descriptor of a field with its JSON name, the full name of its type and the number of its
type filled in. -/
def complete (kind : Kind) (f : Descriptor.Field) : Descriptor.Field :=
  let f := { f with jsonName := some (f.jsonName.getD (jsonName f.nameText)) }
  match kind with
  | .scalar _ => f
  | .message name =>
    { f with typeName := some ("." ++ name), type := some FieldType.message.number }
  | .group name => { f with typeName := some ("." ++ name), type := some FieldType.group.number }
  | .enum name => { f with typeName := some ("." ++ name), type := some FieldType.enum.number }

/-- Repeated values are packed when the field's options say so, or when it has none and the dialect
is the newer one. -/
def isPacked (dialect : Dialect) (label : Label) (kind : Kind) (f : Descriptor.Field) : Bool :=
  label == .repeated && kind.isPackable &&
    match f.options with
    | some o => o.packed.getD false
    | none => dialect == .proto3

/-- An unset value differs from the default for optional fields, those of a choice, messages, and
all fields of the older dialect that are not repeated. -/
def hasPresence (dialect : Dialect) (label : Label) (kind : Kind) (f : Descriptor.Field) : Bool :=
  f.proto3Optional.getD false || f.oneofIndex.isSome ||
    (label != .repeated && (kind.message?.isSome || dialect == .proto2))

/-- Where a field stands: what it is resolved against. -/
structure Scope where
  names : Names
  enums : List Enum
  imported : List String
  dialect : Dialect

/-- Resolves a field of the message `message` with `oneofs` choices, apart from its siblings. -/
def Scope.field (s : Scope) (message : String) (oneofs : Nat) (path : List Nat)
    (f : Descriptor.Field) : Except Fault Field := do
  let number := f.number.getD 0
  if !isFieldNumber number then throw (.fieldNumber number)
  let kind ← resolveKind s.names s.imported (Text.qualify message f.nameText) path f
  let value ← resolveDefault s.enums kind f
  let oneof ← resolveOneof oneofs f
  let label := f.labelValue
  return {
    name := f.nameText
    number := number.toInt.toNat
    kind := kind
    label := label
    packed := isPacked s.dialect label kind f
    presence := hasPresence s.dialect label kind f
    oneof := oneof
    default? := value
    descriptor := complete kind f }

/-- Adds a field after its siblings, which must not have its number or its JSON name. -/
def addField (fields : List Field) (given : Descriptor.Field) (f : Field) :
    Except Fault (List Field) :=
  if fields.any fun g => g.number == f.number then .error (.numberUsed (given.number.getD 0))
  else if fields.any fun g => g.descriptor.jsonName == f.descriptor.jsonName then
    .error (.jsonNameUsed (given.jsonName.getD ""))
  else .ok (fields ++ [f])

/-- Resolves the fields from the `index`-th on, after those already resolved. -/
def Scope.fields (s : Scope) (message : String) (oneofs : Nat) (path : List Nat) :
    Nat → List Field → List Descriptor.Field → Except Fault (List Field)
  | _, done, [] => .ok done
  | index, done, f :: fs => do
    let field ← s.field message oneofs (path ++ [2, index]) f
    s.fields message oneofs path (index + 1) (← addField done f field) fs

/-- The values of an enum have numbers of their own, unless the enum allows otherwise. -/
def checkEnum (e : Descriptor.Enum) : Except Fault Unit :=
  let rec go : List Int32 → List Descriptor.EnumValue → Except Fault Unit
    | _, [] => .ok ()
    | seen, v :: vs =>
      if seen.contains v.numberValue then .error (.enumNumberUsed v.numberValue)
      else go (v.numberValue :: seen) vs
  if e.allowsAlias then .ok () else go [] e.values

mutual

/-- Resolves a message and those nested in it, itself first. -/
def Scope.message (s : Scope) (outer : String) (path : List Nat) :
    Descriptor.Message → Except Fault (List Message)
  | ⟨name, fields, nested, enums, options, oneofs, reserve⟩ => do
    let full := Text.qualify outer (name.getD "")
    let resolved ← s.fields full oneofs.length path 0 [] fields
    let inner ← s.messages full (path ++ [3]) 0 nested
    enums.forM checkEnum
    let ordered := resolved.mergeSort fun f g => f.number ≤ g.number
    return ⟨full, ordered, ⟨name, fields, nested, enums, options, oneofs, reserve⟩⟩ :: inner

/-- Resolves the messages from the `index`-th on. -/
def Scope.messages (s : Scope) (outer : String) (path : List Nat) :
    Nat → List Descriptor.Message → Except Fault (List Message)
  | _, [] => .ok []
  | index, m :: ms => do
    let first ← s.message outer (path ++ [index]) m
    return first ++ (← s.messages outer path (index + 1) ms)

end

mutual

/-- The enums nested in a message at any depth. -/
def messageEnums (outer : String) : Descriptor.Message → List Enum
  | ⟨name, _, nested, enums, _, _, _⟩ =>
    let full := Text.qualify outer (name.getD "")
    messagesEnums full nested ++ enums.map fun e => ⟨Text.qualify full e.nameText, e⟩

/-- The enums nested in the messages of a list. -/
def messagesEnums (outer : String) : List Descriptor.Message → List Enum
  | [] => []
  | m :: ms => messageEnums outer m ++ messagesEnums outer ms

end

/-- All enums of a file. -/
def fileEnums (f : Descriptor.File) : List Enum :=
  messagesEnums f.packageText f.messages ++
    f.enums.map fun e => ⟨Text.qualify f.packageText e.nameText, e⟩

/-- Every imported file is among the files. -/
def checkImports (files : List String) (f : Descriptor.File) : Except Fault Unit :=
  match f.dependencies.find? fun d => !files.contains d with
  | some d => .error (.missingFile d)
  | none => .ok ()

/-- Resolves the messages of a file. -/
def resolveFile (names : Names) (enums : List Enum) (files : List String) (f : Descriptor.File) :
    Except Fault (List Message) := do
  checkImports files f
  let dialect ← dialectOf f
  let scope : Scope := ⟨names, enums, f.nameText :: f.dependencies, dialect⟩
  let messages ← scope.messages f.packageText [4] 0 f.messages
  f.enums.forM checkEnum
  return messages

/-- The pool of a set of files. -/
def ofFiles (files : List Descriptor.File) : Except Fault Pool := do
  let names ← Names.addFiles [] [] files
  let enums := files.flatMap fileEnums
  let messages ← files.mapM (resolveFile names enums (files.map (·.nameText)))
  return ⟨messages.flatten, enums⟩

end RowStream.Pool
