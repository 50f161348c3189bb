import Outreach.Files.AtomicWrite
import Outreach.Json.Reader
import Outreach.Json.Writer

/-!
# Store Files

Presets and templates are kept in JSON files. A file that is missing stands for what is built in; a
file that cannot be read is a failure, and is left alone. A store is written as a whole.
-/

namespace Outreach.StoreFile

/-- The value that a store file holds; `none` if there is no such file. -/
def load {α : Type} (decode : Json → Option α) (path : String) : Task (Option α) := do
  match ← Task.request (.readText path) with
  | .error .notFound => return none
  | .error e => throw (.storeUnreadable path e)
  | .ok text =>
    match Json.ofText? text with
    | none => throw (.storeSyntax path "the text is not a JSON value")
    | some json =>
      match decode json with
      | none => throw (.storeSyntax path "the value is not of the expected shape")
      | some value => return some value

/-- The text of a store file: its JSON over several lines, with a line feed at the end. -/
def text (json : Json) : String :=
  json.toText ++ "\n"

/-- Write a store file as a whole, so that a write that fails leaves the old one. -/
def save (json : Json) (path : String) : Task Unit :=
  writeTextAtomically path (text json)

end Outreach.StoreFile
