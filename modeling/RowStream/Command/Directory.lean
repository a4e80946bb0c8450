import RowStream.Command.Run

/-!
# A directory in memory

Files by path, as a command finds them. A path is a list of names with slashes between them; one
dot stands for the directory itself, two for the one around it. A name that is in front of another
one is a directory. A path is walked name by name, so every name but the last must lead to a
directory, also one that two dots leave again. Of what lies around the directory only the null
device is known: it reads as an empty file and keeps nothing.

* `read`, `write`: a file by its path, and what stands there afterwards.
* `walk`, `step`: a path name by name, with the limits on names and paths.

Out of scope: permissions, links and devices other than the null device.
-/

namespace RowStream.Command

/-- Files by the names on their paths. -/
abbrev Directory := List (List String × List UInt8)

namespace Directory

/-- The names on a path. -/
def names (path : String) : List String :=
  (path.splitOn "/").filter fun n => n != "" && n != "."

/-- Some file lies below the names. -/
def isDirectory (d : Directory) (ns : List String) : Bool :=
  ns.isEmpty || d.any fun f => ns.isPrefixOf f.1 && f.1 != ns

/-- The bytes of the file at exactly these names. -/
def find (d : Directory) (ns : List String) : Option (List UInt8) :=
  (d.find? fun f => f.1 == ns).map (·.2)

/-! ## Walking a path -/

/-- Where a walk stands: below the top of the directory, or in a directory around it. -/
inductive Place where
  | inside (names : List String)
  | outside
deriving Repr, DecidableEq

/-- A walk can go on from a place, or it stands at a directory. -/
def isOpen (d : Directory) : Place → Bool
  | .inside ns => d.isDirectory ns
  | .outside => true

/-- The bytes of the file at a place. -/
def fileAt (d : Directory) : Place → Option (List UInt8)
  | .inside ns => d.find ns
  | .outside => none

/-- The longest name in bytes. -/
def nameLimit : Nat := 255

/-- The place that a name leads to. -/
def step (d : Directory) (place : Place) (name : String) : Except FileFault Place :=
  if !d.isOpen place then
    .error (if (d.fileAt place).isSome then .notADirectory else .notFound)
  else
    match place, name with
    | place, "." => .ok place
    | .inside [], ".." => .ok .outside
    | .inside ns, ".." => .ok (.inside ns.dropLast)
    | .outside, ".." => .ok .outside
    | .inside ns, name =>
      if name.utf8ByteSize > nameLimit then .error .nameTooLong else .ok (.inside (ns ++ [name]))
    | .outside, _ => .error .notFound

/-- A path that starts at the root, or else at the directory. -/
def start (path : String) : Place :=
  if path.startsWith "/" then .outside else .inside []

/-- The place that a path leads to. -/
def walk (d : Directory) (path : String) : Except FileFault Place :=
  ((path.splitOn "/").filter (· != "")).foldlM d.step (start path)

/-- The longest path in bytes. -/
def pathLimit : Nat := 4095

/-- A path names something at all. -/
def check (path : String) : Except FileFault Unit :=
  if path.toList.contains '\x00' then .error .zeroByte
  else if path.isEmpty then .error .notFound
  else if path.utf8ByteSize > pathLimit then .error .nameTooLong
  else .ok ()

/-! ## Reading and writing -/

/-- The file that is always empty. -/
def nullDevice : String := "/dev/null"

/-- The bytes of the file at a path. -/
def read (d : Directory) (path : String) : Except FileFault (List UInt8) := do
  check path
  if path = nullDevice then return []
  let place ← d.walk path
  if d.isOpen place then throw .isADirectory
  match d.fileAt place with
  | some bytes => if path.endsWith "/" then throw .notADirectory else return bytes
  | none => throw .notFound

/-- The directory with a file at a path. -/
def write (d : Directory) (path : String) (bytes : List UInt8) : Except FileFault Directory := do
  check path
  if path = nullDevice then return d
  match ← d.walk path with
  | .outside => throw .isADirectory
  | .inside ns =>
    if d.isDirectory ns || path.endsWith "/" then throw .isADirectory
    return d.filter (fun f => f.1 != ns) ++ [(ns, bytes)]

end Directory

end RowStream.Command
