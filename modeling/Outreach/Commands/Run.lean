import Outreach.Commands.Generate
import Outreach.Commands.Init
import Outreach.Commands.Presets
import Outreach.Commands.Templates

/-!
# Running Commands

A command runs in the data directory that the command line, the environment or the working directory
gives. Its result is the text that it prints; a command that fails prints nothing.
-/

namespace Outreach

/-- Run a command in a data directory. Each constructor has its own task, which gives the text to
be printed. -/
def Command.runIn (d : DataDirectory) : Command → Task String
  | .init => runInit d
  | .generate options => runGenerate d options
  | .render file source => runRender d file source
  | .presetList => runPresetList d
  | .presetShow id => runPresetShow d id
  | .presetAdd name source => runPresetAdd d name source
  | .presetDelete id => runPresetDelete d id
  | .templateList => runTemplateList d
  | .templateShow id => runTemplateShow d id
  | .templateAdd name file => runTemplateAdd d name file
  | .templateUpdate id file => runTemplateUpdate d id file
  | .templateDelete id => runTemplateDelete d id
  | .templateSelect id => runTemplateSelect d id
  | .templateReset id => runTemplateReset d id
  | .polish text => runPolish d text

/-- Run a command, in the data directory that is named for it or in the one that is found. -/
def Command.run (named : Option String) (c : Command) : Task String := do
  c.runIn (← DataDirectory.resolve named)

end Outreach
