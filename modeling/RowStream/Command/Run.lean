import RowStream.Command.Arguments
import RowStream.Descriptor.Layout
import RowStream.Descriptor.Wire
import RowStream.Json.Printer
import RowStream.Row.Encoder
import RowStream.Row.Json
import RowStream.Table.Document
import RowStream.Text.Base64

/-!
# Commands

What the commands do with the contents of files. Compiling writes the descriptor set of a table
schema to a file or the output, or shows its layout. Encoding reads rows from the lines of a file,
blank lines apart, and writes one line of base 64 for each of them, or nothing at all when any of
them is wrong. A command works on an output, and what it put out before it fails is out.

* `compile`, `encode`: the two commands, as work on an output.
* `lines`, `rowsOfLines`: the rows of a file, with the numbers of its lines.
* `perform`, `run`: an invocation with the files that it reads.

Out of scope: the lines of the log, and a file that changes while it is read.
-/

namespace RowStream.Command

/-- Why a file could not be read or written. -/
inductive FileFault where
  | notFound
  | notADirectory
  | isADirectory
  | nameTooLong
  | zeroByte
  | notText
  | other (text : String)
deriving Repr, DecidableEq

/-- The text of the system for the fault. -/
def FileFault.message : FileFault → String
  | .notFound => "No such file or directory (os error 2)"
  | .notADirectory => "Not a directory (os error 20)"
  | .isADirectory => "Is a directory (os error 21)"
  | .nameTooLong => "File name too long (os error 36)"
  | .zeroByte => "file name contained an unexpected NUL byte"
  | .notText => "stream did not contain valid UTF-8"
  | .other text => text

/-- Why a command failed. Lines are counted from 1. -/
inductive Error where
  | file (path : String) (f : FileFault)
  | document (e : Table.Document.Error)
  | shape (e : Shape.Error)
  | rows (e : Encoder.Error)
  | malformedRow (line : Nat) (e : Json.Error)
  | notAnObject (line : Nat)
deriving Repr

/-- The line that tells why the command failed; a fault of a file names its path. -/
def Error.message : Error → String
  | .file path f => path ++ ": " ++ f.message
  | .document e => e.message
  | .shape e => e.message
  | .rows e => e.message
  | .malformedRow line e => "line " ++ toString line ++ ": " ++ e.message
  | .notAnObject line => "line " ++ toString line ++ ": row is not a JSON object"

/-- What a command leaves: bytes on the output, and a file to write. -/
structure Output where
  out : List UInt8 := []
  file : Option (String × List UInt8) := none
deriving Repr, DecidableEq

/-- The bytes of a file, by its path. -/
abbrev Files := String → Except FileFault (List UInt8)

/-- The text of a file. -/
def readText (files : Files) (path : String) : Except Error String :=
  match files path with
  | .error f => .error (.file path f)
  | .ok bytes =>
    match Utf8.decode bytes with
    | some s => .ok s
    | none => .error (.file path .notText)

/-- The table schema that a file writes. -/
def readSchema (files : Files) (path : String) : Except Error Table.Schema := do
  let text ← readText files path
  match Table.Document.parse text with
  | .ok s => return s
  | .error e => throw (.document e)

/-- What a command does: it puts things out and may fail on the way. What was out by then stays
out. -/
abbrev Work := ExceptT Error (StateM Output)

/-- Puts bytes on the output. -/
def put (bytes : List UInt8) : Work Unit :=
  modify fun o => { o with out := o.out ++ bytes }

/-- Writes a file. -/
def save (path : String) (bytes : List UInt8) : Work Unit :=
  modify fun o => { o with file := some (path, bytes) }

/-- Does it, on top of what is out already. -/
def Work.onto (w : Work Unit) (o : Output) : Except Error Unit × Output :=
  w.run.run o

/-- Compiles the table schema of a file: its descriptors go to a file or to the output, or their
layout goes to the output. -/
def compile (files : Files) (a : CompileArguments) : Work Unit := do
  let schema ← readSchema files a.schema
  match Table.Compile.files schema a.scope a.dialect with
  | .error u => throw (.shape (.unsupported u))
  | .ok set =>
    if a.layout then put (Utf8.encode (Json.indented 0 (Descriptor.Layout.ofFiles set).toJson ++ "\n"))
    else
      let bytes := Descriptor.encodeFiles set
      match a.output with
      | some path => save path bytes
      | none => put bytes

/-- The lines of a file. A line ends with a line feed, perhaps with a carriage return before it; the
end of the file ends a line too, unless nothing stands before it. The end of a line is no part of
it. -/
def lines : List UInt8 → List (List UInt8)
  | [] => []
  | 10 :: bytes => [] :: lines bytes
  | 13 :: 10 :: bytes => [] :: lines bytes
  | b :: bytes =>
    match lines bytes with
    | [] => [[b]]
    | line :: rest => (b :: line) :: rest

/-- The row of line `n`, or nothing where it is blank. -/
def rowOfLine (path : String) (n : Nat) (line : List UInt8) : Except Error (Option Row) :=
  match Utf8.decode line with
  | none => .error (.file path .notText)
  | some text =>
    if Text.trim text = "" then .ok none
    else
      match Json.parse text with
      | .error e => .error (.malformedRow n e)
      | .ok v =>
        match Row.ofJson? v with
        | none => .error (.notAnObject n)
        | some row => .ok (some row)

/-- The rows of lines, from line `n` on. -/
def rowsOfLines (path : String) (n : Nat) : List (List UInt8) → Except Error (List Row)
  | [] => .ok []
  | line :: rest => do
    let row ← rowOfLine path n line
    return row.toList ++ (← rowsOfLines path (n + 1) rest)

/-- The line of the output for the bytes of a row. -/
def outputLine (row : List UInt8) : List UInt8 :=
  Utf8.encode (Base64.encode row ++ "\n")

/-- Encodes all rows of a file before the first line is put out. -/
def encode (files : Files) (a : EncodeArguments) : Work Unit := do
  let schema ← readSchema files a.schema
  let shape ← (Shape.ofTable schema "root" .proto2).mapError Error.shape
  let bytes ← (files a.rows).mapError (Error.file a.rows)
  let rows ← rowsOfLines a.rows 1 (lines bytes)
  let encoder : Encoder := { shape := shape, convertDates := a.convertDates }
  let encoded ← (encoder.encode rows).mapError Error.rows
  encoded.forM fun row => put (outputLine row)

/-- Does what a command line asks for: whether it failed, and what is out. -/
def perform (files : Files) : Invocation → Except Error Unit × Output
  | .compile a => (compile files a).onto {}
  | .encode a => (encode files a).onto {}

/-- Runs a command: what it leaves, unless it fails. -/
def run (files : Files) (i : Invocation) : Except Error Output :=
  match perform files i with
  | (.ok _, o) => .ok o
  | (.error e, _) => .error e

/-- The version, as it is shown. -/
def versionText : String := "bqwrite 0.1.0\n"

end RowStream.Command
