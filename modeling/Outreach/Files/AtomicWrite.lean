import Outreach.Files.Path
import Outreach.Program

/-!
# Atomic Writes

A file is written under a temporary name beside it, and then takes the place of the old file in
one step. Whoever reads the file in between finds the old content. Missing parents are made first;
a temporary file that cannot be finished is taken away.
-/

namespace Outreach

/-- The temporary name beside a file: its name with a dot in front and `.tmp` behind. It depends
on the name only, so two writes of one file share it. -/
def temporaryName (name : String) : String :=
  "." ++ name ++ ".tmp"

/-- The temporary path beside a path that ends in a proper name. -/
def temporaryPath? (path : String) : Option String :=
  (Path.fileName? path).map fun name =>
    Path.join ((Path.parent? path).getD ".") (temporaryName name)

/-- Make the parent of a path, with its own parents, if nothing stands there. A path in the
working directory itself has none to make. -/
def makeParent (path : String) : Task Unit :=
  match Path.parent? path with
  | none => pure ()
  | some parent =>
    if parent.isEmpty then pure ()
    else do
      if ← Task.request (.pathExists parent) then pure ()
      else Task.orFail (.parentNotMade parent) (← Task.request (.makeDirectories parent))

/-- Write bytes through a handle and wait until they are on the disk. -/
def writeThrough (handle : Nat) (bytes : ByteArray) : Program (Except FileError Unit) := do
  match ← Program.request (.write handle bytes) with
  | .error e => return .error e
  | .ok () => Program.request (.sync handle)

/-- Write a temporary file: open it, which empties a file that is already there, write the bytes
and wait for the disk. If that fails it is taken away again. -/
def writeTemporary (temporary : String) (bytes : ByteArray) : Task Unit := do
  let handle ← Task.orFail (.temporaryNotMade temporary) (← Task.request (.create temporary))
  match ← Task.ofProgram (writeThrough handle bytes) with
  | .ok () => pure ()
  | .error e =>
    let _ ← Task.request (.remove temporary)
    throw (.temporaryNotWritten temporary e)

/-- Put a temporary file in the place of a file by giving it the name. If that fails the temporary
file is taken away, and the old file stays. -/
def putInPlace (temporary path : String) : Task Unit := do
  match ← Task.request (.replace temporary path) with
  | .ok () => pure ()
  | .error e =>
    let _ ← Task.request (.remove temporary)
    throw (.targetNotReplaced path e)

/-- Write a file as a whole: its parents, a temporary file beside it, then the change of name.
Only the last step touches the file itself. -/
def writeAtomically (path : String) (bytes : ByteArray) : Task Unit := do
  makeParent path
  match temporaryPath? path with
  | none => throw (.pathWithoutFileName path)
  | some temporary =>
    writeTemporary temporary bytes
    putInPlace temporary path

/-- Write a text file as a whole, its characters in UTF-8. -/
def writeTextAtomically (path : String) (text : String) : Task Unit :=
  writeAtomically path text.toUTF8

end Outreach
