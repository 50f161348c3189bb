/-!
# Commands

What a user can ask for, with all that belongs to each request.
-/

namespace Outreach

/-- Where the fields of a record come from: a file, and assignments laid over it in order. -/
structure RecordSource where
  file : Option String
  assignments : List String
  deriving DecidableEq, Repr

/-- The choices for a message: the preset to start from, the template, the two names, the fields,
and whether the fan offer is to be polished. -/
structure MessageOptions where
  preset : Option String
  template : Option String
  contact : Option String
  kol : Option String
  source : RecordSource
  polish : Bool
  deriving DecidableEq, Repr

/-- A **command** of the program, with what its options and operands give. Commands on presets and
templates name them by their ids. -/
inductive Command where
  /-- Make the data directory with its files. -/
  | init
  /-- Write a message. -/
  | generate (options : MessageOptions)
  /-- Fill in a template file without further checks. -/
  | render (templateFile : String) (source : RecordSource)
  | presetList
  | presetShow (id : String)
  | presetAdd (name : String) (source : RecordSource)
  | presetDelete (id : String)
  | templateList
  | templateShow (id : Option String)
  /-- Add a template from a file, or with the content of the active one. -/
  | templateAdd (name : String) (file : Option String)
  | templateUpdate (id file : String)
  | templateDelete (id : String)
  | templateSelect (id : String)
  | templateReset (id : Option String)
  /-- Polish a fan offer. -/
  | polish (text : String)
  deriving DecidableEq, Repr

/-- A **run** of the program: a command, the data directory that is named for it, and how much is to
be logged. -/
structure Invocation where
  dataDirectory : Option String
  verbosity : Nat
  command : Command
  deriving DecidableEq, Repr

end Outreach
