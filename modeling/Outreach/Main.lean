import Outreach.CommandLine
import Outreach.Commands.Run
import Std.Time.Zoned

/-!
# The Program

The requests of commands are answered by the operating system. This module decides nothing: it
carries out one request after the other, prints the text of the command, and ends with the exit code
of its failure.
-/

namespace Outreach

/-- The reason for which the operating system refused an operation, as far as requests tell them
apart. -/
def fileErrorOf : IO.Error → FileError
  | .noFileOrDirectory .. => .notFound
  | .noSuchThing .. => .notFound
  | .alreadyExists .. => .alreadyExists
  | .inappropriateType _ code _ => if code = 21 then .isDirectory else .notDirectory
  | .resourceBusy .. => .busy
  | e => .other e.toString

/-- The result of an operation, or the reason for which it was refused. -/
def attempt {α : Type} (act : IO α) : IO (Except FileError α) := do
  match ← act.toBaseIO with
  | .ok a => return .ok a
  | .error e => return .error (fileErrorOf e)

/-- The text of a file, or why there is none. Bytes that are not UTF-8 are no text. -/
def readTextFile (path : String) : IO (Except FileError String) := do
  match ← attempt (IO.FS.readBinFile path) with
  | .error e => return .error e
  | .ok bytes =>
    match String.fromUTF8? bytes with
    | none => return .error .notText
    | some text => return .ok text

/-- Whether a path stands for anything that can be opened. -/
def isPath (path : String) : IO Bool := do
  return (← attempt (IO.FS.Handle.mk path .read)).isOk

/-- Whether a path stands for a directory: it can be opened, but not read. -/
def isDirectoryPath (path : String) : IO Bool := do
  match ← attempt (IO.FS.Handle.mk path .read) with
  | .error _ => return false
  | .ok h =>
    match ← attempt (h.read 1) with
    | .error .isDirectory => return true
    | _ => return false

/-- What is done through an open file, found by the number of its handle. -/
def through (handles : IO.Ref (Array IO.FS.Handle)) (handle : Nat) (act : IO.FS.Handle → IO Unit) :
    IO (Except FileError Unit) := do
  match (← handles.get)[handle]? with
  | none => return .error (.other "the file is not open")
  | some h => attempt (act h)

/-- The answer of the operating system to a request. There is no connection to services. -/
def answer (handles : IO.Ref (Array IO.FS.Handle)) : (r : Request) → IO r.Answer
  | .workingDirectory => attempt do return toString (← IO.currentDir)
  | .readVariable name => IO.getEnv name
  | .clock => do return (← Std.Time.Timestamp.now).toMillisecondsSinceUnixEpoch.toInt.toNat
  | .date => do
    let now ← Std.Time.PlainDate.now
    return ⟨now.year.toInt, now.month.val.toNat, now.day.val.toNat⟩
  | .pathExists path => isPath path
  | .isDirectory path => isDirectoryPath path
  | .readText path => readTextFile path
  | .makeDirectories path => attempt (IO.FS.createDirAll path)
  | .create path => attempt do
    let h ← IO.FS.Handle.mk path .write
    let opened ← handles.get
    handles.set (opened.push h)
    return opened.size
  | .write handle bytes => through handles handle (·.write bytes)
  | .sync handle => through handles handle (·.flush)
  | .replace source target => attempt (IO.FS.rename source target)
  | .remove path => attempt (IO.FS.removeFile path)
  | .post _ => return .error "there is no connection"

/-- Carry out a program: answer its requests one after the other, until it is done. -/
def carryOut {α : Type} (handles : IO.Ref (Array IO.FS.Handle)) : Program α → IO α
  | .done a => return a
  | .perform r next => do carryOut handles (next (← answer handles r))

/-- Run a command: print its text, or its failure, and give the exit code. -/
def runInvocation (i : Invocation) : IO UInt32 := do
  let handles ← IO.mkRef #[]
  match ← carryOut handles (i.command.run i.dataDirectory).run with
  | .ok text =>
    IO.print text
    return 0
  | .error f =>
    IO.eprintln s!"Error: {f.message}"
    return f.exitCode.toUInt32

/-- What is printed in place of a command, where the arguments give none. -/
def usageText : CommandLine.UsageError → String
  | .versionShown => CommandLine.version
  | .helpShown | .helpInsteadOfCommand =>
    "Usage: kolmsg [OPTIONS] <init|generate|render|preset|template|polish>"
  | _ => "error: the arguments give no command; try 'kolmsg --help'"

end Outreach

/-- Run the program on its arguments, and end with the exit code of what has happened. -/
def main (arguments : List String) : IO UInt32 := do
  match Outreach.CommandLine.parse arguments with
  | .ok i => Outreach.runInvocation i
  | .error e =>
    if e.exitCode = 0 then IO.println (Outreach.usageText e) else IO.eprintln (Outreach.usageText e)
    return e.exitCode.toUInt32
