import Outreach.Commands.Inputs
import Outreach.Commands.Layout
import Outreach.Deal.Terms
import Outreach.Message.Render
import Outreach.Polish.Offer
import Outreach.Preset.File
import Outreach.Settings.File
import Outreach.Template.File

/-!
# Writing Messages

The command `generate` lays the fields of a deal over one another: the initial terms, a preset, a
record file, assignments, and the two names. The deal must be complete before its message is
rendered. The command `render` fills in any template file and checks nothing, and `polish` polishes
one offer.
-/

namespace Outreach

/-- The data of the preset to start from, if one is chosen. -/
def MessageOptions.presetData (o : MessageOptions) (d : DataDirectory) (date : Date) :
    Task Record := do
  match o.preset with
  | none => return ∅
  | some id => return (← Task.ofExcept ((← Presets.load d.presetsPath date).get id)).data

/-- A record with the names that are given laid over it, for the contact and for the partner. -/
def MessageOptions.withNames (o : MessageOptions) (r : Record) : Record :=
  let r := o.contact.elim r (r.set Field.contactPerson.name)
  o.kol.elim r (r.set Field.kolName.name)

/-- The fields of a deal, layer by layer: the initial terms of a date, the preset, the record with
its assignments, and the names from the command line. -/
def MessageOptions.fields (o : MessageOptions) (d : DataDirectory) (date : Date) :
    Task Record := do
  let preset ← o.presetData d date
  let given ← o.source.read
  return o.withNames (((Terms.initial date).toRecord.merge preset).merge given)

/-- The fields of a deal that is complete. With polishing, the fan offer is replaced. -/
def MessageOptions.completeFields (o : MessageOptions) (d : DataDirectory)
    (s : Polish.Settings) : Task Record := do
  let date ← today
  let fields ← o.fields d date
  let terms ← Task.ofExcept (Terms.ofRecord fields (Terms.initial date))
  Task.ofExcept terms.checkRequired
  if o.polish then
    return fields.set Field.fanOffer.name (← Polish.polish s terms.fanOffer)
  else return fields

/-- The message of a deal: its complete fields put into the chosen template by the settings of the
data directory. -/
def MessageOptions.message (o : MessageOptions) (d : DataDirectory) : Task String := do
  let settings ← Settings.loadOrDefault d.settingsPath
  let fields ← o.completeFields d settings.polish
  let template ← Task.ofExcept ((← Templates.load d.templatesPath).choose o.template)
  return Message.render settings.display template.content fields

/-- The command `generate`: print the message of a deal, with a line feed behind it. -/
def runGenerate (d : DataDirectory) (o : MessageOptions) : Task String := do
  return unlines [← o.message d]

/-- The command `render`: fill in a template file with the fields that are given, whichever they
are. -/
def runRender (d : DataDirectory) (file : String) (source : RecordSource) : Task String := do
  let settings ← Settings.loadOrDefault d.settingsPath
  let template ← readInput .template file
  return unlines [Message.render settings.display template (← source.read)]

/-- The command `polish`: print what a text is polished to. -/
def runPolish (d : DataDirectory) (text : String) : Task String := do
  let settings ← Settings.loadOrDefault d.settingsPath
  return unlines [← Polish.polish settings.polish text]

end Outreach
