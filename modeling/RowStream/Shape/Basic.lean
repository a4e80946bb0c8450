import RowStream.Pool.Resolve
import RowStream.Table.Compile

/-!
# Shapes of rows

A shape is a message together with the pool that its fields refer to. It comes from a set of files
and the name of a message in it, from one descriptor that stands alone, or from a table schema.

* `ofFiles`, `ofDescriptor`, `ofTable`: where a shape comes from.

Out of scope: files that a descriptor imports; one that stands alone has none.
-/

namespace RowStream

/-- The shape of rows. -/
structure Shape where
  pool : Pool
  message : Pool.Message
deriving Repr, Inhabited

namespace Shape

open Descriptor (Dialect)

/-- Why there is no shape, or none that stands alone. -/
inductive Error where
  | unsupported (u : Table.Unsupported)
  | pool (f : Pool.Fault)
  | missing (name : String)
  | recursive (name : String)
deriving Repr, DecidableEq

/-- What is said where there is no shape. -/
def Error.message : Error → String
  | .unsupported u => u.message
  | .pool f => "failed to create descriptor pool: " ++ f.message
  | .missing name => "message type not found: " ++ name
  | .recursive name => "recursive message type cannot be inlined: " ++ name

/-- The message of a set of files with the full name. -/
def ofFiles (files : List Descriptor.File) (name : String) : Except Error Shape :=
  match Pool.ofFiles files with
  | .error f => .error (.pool f)
  | .ok pool =>
    match pool.message? name with
    | some m => .ok ⟨pool, m⟩
    | none => .error (.missing name)

/-- The file that holds one descriptor that stands alone. -/
def standaloneFile (d : Descriptor.Message) : Descriptor.File :=
  { name := some (d.nameText ++ ".proto"), messages := [d], dialect := some Dialect.proto2.name }

/-- The shape of a descriptor that stands alone. -/
def ofDescriptor (d : Descriptor.Message) : Except Error Shape :=
  ofFiles [standaloneFile d] d.nameText

/-- The shape of the rows of a table. -/
def ofTable (s : Table.Schema) (scope : String) (dialect : Dialect) : Except Error Shape :=
  match Table.Compile.files s scope dialect with
  | .error u => .error (.unsupported u)
  | .ok files => ofFiles files scope

end Shape

end RowStream
