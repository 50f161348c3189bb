import Outreach.Commands.Inputs
import Outreach.Commands.Layout
import Outreach.Deal.Terms
import Outreach.Preset.File

/-!
# Commands on Presets

Each command loads the presets and prints what it found or did; one that changes them stores them
again.
-/

namespace Outreach

/-- The stored presets, or the built-in ones of today if none are stored. -/
def DataDirectory.loadPresets (d : DataDirectory) : Task Presets := do
  Presets.load d.presetsPath (← today)

/-- The list of presets as it is printed: their number, then a line with id and name for each. -/
def Presets.listing (s : Presets) : String :=
  if s.list.isEmpty then unlines ["No presets."]
  else
    unlines <| s!"Presets ({s.list.length}):" :: "" ::
      s.list.map fun p => s!"  {padRight 20 p.id} {p.name}"

/-- A preset as it is printed: its name and id, then a line for each field of its record. -/
def Preset.listing (p : Preset) : String :=
  unlines <| s!"{p.name} ({p.id})" :: "" ::
    p.data.entries.map fun (key, value) =>
      let label := key ++ ":"
      s!"  {padRight 22 label} {value}"

/-- The command `preset list`: print the list of the presets. -/
def runPresetList (d : DataDirectory) : Task String := do
  return (← d.loadPresets).listing

/-- The command `preset show`: print the preset with an id, which has to be there. -/
def runPresetShow (d : DataDirectory) (id : String) : Task String := do
  return (← Task.ofExcept ((← d.loadPresets).get id)).listing

/-- The command `preset add`: the initial terms with the given fields over them become a preset, if
they are terms at all. -/
def runPresetAdd (d : DataDirectory) (name : String) (source : RecordSource) : Task String := do
  let initial := Terms.initial (← today)
  let fields := initial.toRecord.merge (← source.read)
  let _ ← Task.ofExcept (Terms.ofRecord fields initial)
  let (preset, presets) ← Task.ofExcept ((← d.loadPresets).add (← now) name fields).toExcept
  presets.save d.presetsPath
  return unlines [s!"Added preset: {preset.name} ({preset.id})"]

/-- The command `preset delete`: take out the first preset with an id and store the others. -/
def runPresetDelete (d : DataDirectory) (id : String) : Task String := do
  let (preset, presets) ← Task.ofExcept ((← d.loadPresets).delete id).toExcept
  presets.save d.presetsPath
  return unlines [s!"Deleted preset: {preset.name} ({preset.id})"]

end Outreach
