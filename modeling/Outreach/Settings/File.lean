import Outreach.Program
import Outreach.Settings.Reader

/-!
# The Settings File

Settings are read from a file. Where the file may be missing, a missing one stands for the defaults;
one that is there must be readable and acceptable.
-/

namespace Outreach.Settings

/-- The settings in a file, which must be readable, in the form of settings, and acceptable. -/
def load (path : String) : Task Settings := do
  match ← Task.request (.readText path) with
  | .error e => throw (.settingsUnreadable path e)
  | .ok text => Task.ofExcept (ofText text)

/-- The settings in a file, or the defaults if there is no such file. -/
def loadOrDefault (path : String) : Task Settings := do
  if ← Task.request (.pathExists path) then load path
  else return {}

end Outreach.Settings
