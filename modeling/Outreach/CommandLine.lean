import Outreach.Command
import Outreach.CommandLine.Reader

/-!
# The Command Line

The arguments of the program give a command, or say why not. The data directory and the verbosity
can be given on every level; the innermost level on which they stand decides.
-/

namespace Outreach.CommandLine

/-- The name and the version of the program, as it prints them when asked. -/
def version : String := "kolmsg 0.1.0"

/-- The verbosity does not grow beyond this, however often its option is given. -/
def verbosityLimit : Nat := 255

/-- The fields of a record on a level: the file that is named, and the assignments in their order.
-/
def Given.source (g : Given) : RecordSource :=
  ⟨g.value? "record", g.values "set"⟩

/-- The choices for a message on a level. What is not given is left to presets, templates and
defaults. -/
def Given.messageOptions (g : Given) : MessageOptions where
  preset := g.value? "preset"
  template := g.value? "template"
  contact := g.value? "contact"
  kol := g.value? "kol"
  source := g.source
  polish := g.has "polish"

/-- The command that words lead to, with what the innermost level gives. -/
def commandOf? (words : List String) (g : Given) : Option Command :=
  match words, g.operands with
  | ["init"], _ => some .init
  | ["generate"], _ => some (.generate g.messageOptions)
  | ["render"], _ => (g.value? "template").map fun file => .render file g.source
  | ["preset", "list"], _ => some .presetList
  | ["preset", "show"], [id] => some (.presetShow id)
  | ["preset", "add"], [name] => some (.presetAdd name g.source)
  | ["preset", "delete"], [id] => some (.presetDelete id)
  | ["template", "list"], _ => some .templateList
  | ["template", "show"], operands => some (.templateShow operands.head?)
  | ["template", "add"], [name] => some (.templateAdd name (g.value? "from"))
  | ["template", "update"], [id] => (g.value? "from").map fun file => .templateUpdate id file
  | ["template", "delete"], [id] => some (.templateDelete id)
  | ["template", "select"], [id] => some (.templateSelect id)
  | ["template", "reset"], operands => some (.templateReset operands.head?)
  | ["polish"], [text] => some (.polish text)
  | _, _ => none

/-- The innermost level on which an option stands, if it stands on any. -/
def innermost? (levels : List Given) (name : String) : Option Given :=
  levels.reverse.find? (·.has name)

/-- The run of the program that arguments ask for, or why they ask for none. The common options
count from the innermost level that gives them. -/
def parse (arguments : List String) : Except UsageError Invocation := do
  let levels ← read grammar .start arguments
  match commandOf? levels.words (levels.given.getLast?.getD .empty) with
  | none => throw .missingRequiredArgument
  | some command =>
    return {
      dataDirectory := (innermost? levels.given "data-dir").bind (·.value? "data-dir")
      verbosity := min verbosityLimit <|
        (innermost? levels.given "verbose").elim 0 (·.count "verbose")
      command }

end Outreach.CommandLine
