import Outreach.Command
import Outreach.DataDirectory
import Outreach.Deal.Assignment
import Outreach.Deal.RecordFile

/-!
# Inputs of Commands

What several commands start from: text files that are named on the command line, the fields of a
record, and the date.
-/

namespace Outreach

/-- The text of a file that is named on the command line. -/
def readInput (purpose : InputFile) (path : String) : Task String := do
  Task.orFail (.inputUnreadable purpose path) (← Task.request (.readText path))

/-- The record of a file, if one is named; otherwise a record without fields. -/
def RecordSource.readFile (s : RecordSource) : Task Record := do
  match s.file with
  | none => return ∅
  | some path => Task.ofExcept (Record.ofText (← readInput .record path))

/-- The record that a source gives: that of its file, with the assignments carried out. -/
def RecordSource.read (s : RecordSource) : Task Record := do
  Task.ofExcept ((← s.readFile).assignAll s.assignments)

/-- The milliseconds since the start of 1970 in universal time, from which new ids are made. -/
def now : Task Nat :=
  Task.request .clock

/-- The date where the command runs, in local time, from which the end of a season is made. -/
def today : Task Date :=
  Task.request .date

end Outreach
