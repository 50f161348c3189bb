import Outreach.Commands.Inputs
import Outreach.Commands.Layout
import Outreach.Preset.File
import Outreach.Settings.Writer
import Outreach.Template.File

/-!
# Making a Data Directory

The command `init` makes the data directory and the files that are missing in it, with what is built
in. A file that is there is left alone, whatever it holds.
-/

namespace Outreach

/-- Make a file unless its path stands for something. The result is the name of the file, if it was
made. -/
def makeMissing (path name : String) (make : Task Unit) : Task (List String) := do
  if ← Task.request (.pathExists path) then return []
  else
    make
    return [name]

/-- Store what a missing preset file stands for: the built-in presets of today. -/
def makePresets (path : String) : Task Unit := do
  (← Presets.load path (← today)).save path

/-- Store what a missing template file stands for: the built-in template as the active one. -/
def makeTemplates (path : String) : Task Unit := do
  (← Templates.load path).save path

/-- Make the data directory and its missing files. The result is the names of the files that were
made. -/
def DataDirectory.scaffold (d : DataDirectory) : Task (List String) := do
  let _ ← d.ensure
  let settings ← makeMissing d.settingsPath "config.yaml" <|
    writeTextAtomically d.settingsPath (Settings.toText {})
  let presets ← makeMissing d.presetsPath "presets.json" (makePresets d.presetsPath)
  let templates ← makeMissing d.templatesPath "templates.json" (makeTemplates d.templatesPath)
  return settings ++ presets ++ templates

/-- What `init` prints about the files that were made, and how to go on. -/
def initReport (d : DataDirectory) (created : List String) : String :=
  unlines <|
    ["Initialized kolmsg data directory.", "", s!"Data directory: {d.path}", ""]
      ++ (if created.isEmpty then ["All files already exist; nothing to create."]
          else "Created files:" :: created.map ("  " ++ ·))
      ++ ["",
        "You can now generate a message with `kolmsg generate --contact <name> --kol <name>`."]

/-- The command `init`: make the data directory with its files, and report which ones were
missing. -/
def runInit (d : DataDirectory) : Task String := do
  return initReport d (← d.scaffold)

end Outreach
