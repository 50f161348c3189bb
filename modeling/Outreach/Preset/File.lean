import Outreach.Preset
import Outreach.StoreFile

/-!
# The Preset File

Presets are stored as an array of objects with the parts `id`, `name` and `data`; the data of a
preset is an object of texts.
-/

namespace Outreach

/-- The JSON form of a record: its fields in order, each with its text as a string. -/
def Record.toJson (r : Record) : Json :=
  .object (r.entries.map fun (key, value) => (some key, .ofString value))

/-- The record that an object of texts gives; of two members with one key the later stays. -/
def Record.ofJson? (json : Json) : Option Record := do
  let members ← json.members?
  let entries ← members.mapM fun (key, value) => value.text?.map (key, ·)
  return .ofList entries

namespace Preset

/-- The JSON form of a preset: an object with its id, its name and its record. -/
def toJson (p : Preset) : Json :=
  .object [(some "id", .ofString p.id), (some "name", .ofString p.name),
    (some "data", p.data.toJson)]

/-- The preset of a JSON form, which may also be an array of the three values. Other members are
passed over. -/
def ofJson? (json : Json) : Option Preset :=
  match json.fields? ["id", "name", "data"] with
  | some [some id, some name, some data] => do
    return ⟨← id.text?, ← name.text?, ← Record.ofJson? data⟩
  | _ => none

end Preset

namespace Presets

/-- The JSON form of a collection: an array of its presets. -/
def toJson (s : Presets) : Json :=
  .array (s.list.map Preset.toJson)

/-- The collection of a JSON form, if each item of the array is that of a preset. -/
def ofJson? (json : Json) : Option Presets := do
  return ⟨← (← json.items?).mapM Preset.ofJson?⟩

/-- The stored presets, or the built-in ones in the year of a date. -/
def load (path : String) (today : Date) : Task Presets := do
  return (← StoreFile.load ofJson? path).getD (builtIn today)

/-- Store the presets in a file, written as a whole. -/
def save (s : Presets) (path : String) : Task Unit :=
  StoreFile.save s.toJson path

end Presets

end Outreach
