/-!
# Faults of descriptor sets

* `Fault`: what makes a pool refuse files, and what is said of it.

Out of scope: the place of a fault in the text of a file, which descriptors do not carry here.
-/

namespace RowStream.Pool

/-- Why files do not make a pool. -/
inductive Fault where
  | duplicateFile (name : String)
  | unknownDialect (name : String)
  | definedTwice (name : String)
  | definedElsewhere (name file : String)
  | sameLetters (first second : String)
  | emptyEnum
  | firstEnumNumber
  | missingFile (name : String)
  | fieldNumber (n : Int32)
  | undefined (name : String)
  | shadowed (name found : String)
  | notAType (name : String)
  | missingType (path : List Nat)
  | badDefault (value kind : String)
  | oneofIndex
  | numberUsed (n : Int32)
  | jsonNameUsed (name : String)
  | enumNumberUsed (n : Int32)
deriving Repr, DecidableEq

/-- A path in brackets. -/
def pathText (path : List Nat) : String :=
  "[" ++ ", ".intercalate (path.map toString) ++ "]"

/-- What is said of the files. -/
def Fault.message : Fault → String
  | .duplicateFile name => "a different file named '" ++ name ++ "' has already been added"
  | .unknownDialect name => "unknown syntax '" ++ name ++ "'"
  | .definedTwice name => "name '" ++ name ++ "' is defined twice"
  | .definedElsewhere name file =>
    "name '" ++ name ++ "' is already defined in file '" ++ file ++ "'"
  | .sameLetters first second =>
    "camel-case name of field '" ++ first ++ "' conflicts with field '" ++ second ++ "'"
  | .emptyEnum => "enums must have at least one value"
  | .firstEnumNumber => "the first value for proto3 enums must be 0"
  | .missingFile name => "imported file '" ++ name ++ "' has not been added"
  | .fieldNumber n => "invalid field number '" ++ toString n.toInt ++ "'"
  | .undefined name => "name '" ++ name ++ "' is not defined"
  | .shadowed name found => "'" ++ name ++ "' resolves to '" ++ found ++ "', which is not defined"
  | .notAType name => "'" ++ name ++ "' is not a message or enum type"
  | .missingType path => "missing required field at " ++ pathText path
  | .badDefault value kind => "invalid default value '" ++ value ++ "' for type '" ++ kind ++ "'"
  | .oneofIndex => "invalid oneof index"
  | .numberUsed n => "field number '" ++ toString n.toInt ++ "' is already used"
  | .jsonNameUsed name => "a field with JSON name '" ++ name ++ "' is already defined"
  | .enumNumberUsed n => "enum number '" ++ toString n.toInt ++ "' has already been used"

end RowStream.Pool
