import RowStream.Number.Binary

/-!
# Options of descriptors

What a descriptor may say about its parts beyond their shape: options, and the numbers and names
that are set aside. Options that the descriptor's own language does not define stay as they were
written.

* `FieldOptions`, `MessageOptions`, `EnumOptions`, `EnumValueOptions`: options with members of their
  own.
* `PlainOptions`: options of which none has one.
* `NumberRange`, `ExtensionRange`: what is set aside.

Out of scope: options of files, services and methods, and records of unknown numbers, which are
passed over.
-/

namespace RowStream.Descriptor

/-- A part of the name of an option, or the name of an extension. -/
structure NamePart where
  text : String := ""
  isExtension : Bool := false
deriving Repr, DecidableEq, Inhabited

/-- An option as it was written: its name and its value, in one of several forms. -/
structure UninterpretedOption where
  name : List NamePart := []
  identifier : Option String := none
  positive : Option UInt64 := none
  negative : Option Int64 := none
  double : Option Double := none
  string : Option (List UInt8) := none
  aggregate : Option String := none
deriving Repr, DecidableEq, Inhabited

/-- Options of a field. -/
structure FieldOptions where
  stringForm : Option Int32 := none
  packed : Option Bool := none
  isDeprecated : Option Bool := none
  isLazy : Option Bool := none
  integerForm : Option Int32 := none
  isWeak : Option Bool := none
  others : List UninterpretedOption := []
deriving Repr, DecidableEq, Inhabited

/-- Options of a message. -/
structure MessageOptions where
  isMessageSet : Option Bool := none
  hidesAccessor : Option Bool := none
  isDeprecated : Option Bool := none
  mapEntry : Option Bool := none
  others : List UninterpretedOption := []
deriving Repr, DecidableEq, Inhabited

/-- Options of an enum. -/
structure EnumOptions where
  allowsAlias : Option Bool := none
  isDeprecated : Option Bool := none
  others : List UninterpretedOption := []
deriving Repr, DecidableEq, Inhabited

/-- Options of a value of an enum. -/
structure EnumValueOptions where
  isDeprecated : Option Bool := none
  others : List UninterpretedOption := []
deriving Repr, DecidableEq, Inhabited

/-- Options of a choice or of a range for extensions. -/
structure PlainOptions where
  others : List UninterpretedOption := []
deriving Repr, DecidableEq, Inhabited

/-- A range of numbers that is set aside. -/
structure NumberRange where
  start : Option Int32 := none
  stop : Option Int32 := none
deriving Repr, DecidableEq, Inhabited

/-- A range of numbers for extensions. -/
structure ExtensionRange where
  start : Option Int32 := none
  stop : Option Int32 := none
  options : Option PlainOptions := none
deriving Repr, DecidableEq, Inhabited

end RowStream.Descriptor
