import RowStream.Command.Run

/-!
# The program

Reads the command line and the files, runs the command, and writes what it leaves. Wrong arguments
end with status 2, a command that fails with status 1 and one line of explanation.

* `loadFiles`: the files that a command reads, all of them before it starts.
* `emit`: writes what a command leaves.
* `main`: the whole.

Out of scope: the log.
-/

namespace RowStream

open Command

/-- The fault of a file behind an error of the system. -/
def fileFault : IO.Error → FileFault
  | .noFileOrDirectory .. => .notFound
  | .inappropriateType _ 21 _ | .otherError 21 _ => .isADirectory
  | .inappropriateType .. => .notADirectory
  | e => .other (toString e)

/-- The bytes of the file at a path. -/
def loadFile (path : String) : IO (Except FileFault (List UInt8)) := do
  try
    let bytes ← IO.FS.readBinFile path
    return .ok bytes.toList
  catch e => return .error (fileFault e)

/-- The files that a command reads. -/
def pathsOf : Invocation → List String
  | .compile a => [a.schema]
  | .encode a => [a.schema, a.rows]

/-- The files of a command, loaded. -/
def loadFiles (invocation : Invocation) : IO Files := do
  let loaded ← (pathsOf invocation).mapM fun path => do return (path, ← loadFile path)
  return fun path =>
    match loaded.find? fun f => f.1 == path with
    | some f => f.2
    | none => .error .notFound

/-- Tells why a command failed. -/
def fail (e : Command.Error) : IO UInt32 := do
  IO.eprintln ("Error: " ++ e.message)
  return 1

/-- Writes what a command leaves. -/
def emit (o : Output) : IO UInt32 := do
  match o.file with
  | none => pure ()
  | some (path, bytes) =>
    try IO.FS.writeBinFile path ⟨bytes.toArray⟩
    catch e => return ← fail (.file path (fileFault e))
  let stdout ← IO.getStdout
  stdout.write ⟨o.out.toArray⟩
  stdout.flush
  return 0

end RowStream

open RowStream RowStream.Command in
/-- Runs the program on its arguments. What a command put out before it failed is written all the
same. -/
def main (args : List String) : IO UInt32 := do
  match parse args with
  | .error .version => IO.print versionText; return 0
  | .error .help => IO.println "Usage: bqwrite [OPTIONS] <COMMAND>"; return 0
  | .error usage => IO.eprintln ("error: " ++ usage.name); return 2
  | .ok invocation =>
    let (result, o) := perform (← loadFiles invocation) invocation
    let status ← emit o
    match result with
    | .ok _ => return status
    | .error e => fail e
