import Outreach.Files.Path
import Outreach.Program
import Outreach.Text.Blank

/-!
# The Data Directory

Settings, presets and templates live in one directory. It is the one that the command line names,
else the one that the environment names, else the nearest `.kolmsg` on the way from the working
directory up to the root, else a `.kolmsg` in the working directory, which is made when it is
first needed.
-/

namespace Outreach

/-- A **data directory**, by its path as it was named or found. The directory need not be there
yet. -/
structure DataDirectory where
  path : String
  deriving DecidableEq, Repr

namespace DataDirectory

/-- The name of a data directory that is searched for on the way up, and that is made if none is
found. -/
def name : String := ".kolmsg"

/-- The environment variable that names the data directory. A blank value counts as none. -/
def variableName : String := "KOLMSG_HOME"

/-- The path of the settings, a YAML file. -/
def settingsPath (d : DataDirectory) : String :=
  Path.join d.path "config.yaml"

/-- The path of the presets, a store file. -/
def presetsPath (d : DataDirectory) : String :=
  Path.join d.path "presets.json"

/-- The path of the templates, a store file. -/
def templatesPath (d : DataDirectory) : String :=
  Path.join d.path "templates.json"

/-- The first of some paths that stands for a directory, asked for one after the other. Files of
that name are passed over. -/
def firstDirectory? : List String → Program (Option String)
  | [] => pure none
  | path :: paths => do
    if ← Program.request (.isDirectory path) then return some path
    else firstDirectory? paths

/-- The data directory of a working directory: the nearest one above it, or its own. -/
def ofWorkingDirectory (here : String) : Program DataDirectory := do
  let found ← firstDirectory? ((Path.ancestors here).map (Path.join · name))
  return ⟨found.getD (Path.join here name)⟩

/-- The data directory of a run of the program: the one that is named, else that of the
environment, else the one that the working directory leads to. -/
def resolve (named : Option String) : Task DataDirectory := do
  match named with
  | some path => return ⟨path⟩
  | none =>
    let inherited ← Task.request (.readVariable variableName)
    match inherited.filter (!Text.isBlankText ·) with
    | some path => return ⟨path⟩
    | none =>
      let here ← Task.orFail .workingDirectoryLost (← Task.request .workingDirectory)
      Task.ofProgram (ofWorkingDirectory here)

/-- Whether the data directory is there, as a directory. -/
def isThere (d : DataDirectory) : Program Bool :=
  Program.request (.isDirectory d.path)

/-- Make the data directory if it is missing. The result tells whether it was. -/
def ensure (d : DataDirectory) : Task Bool := do
  if ← Task.ofProgram d.isThere then return false
  else
    Task.orFail (.dataDirectoryNotMade d.path) (← Task.request (.makeDirectories d.path))
    return true

end DataDirectory

end Outreach
