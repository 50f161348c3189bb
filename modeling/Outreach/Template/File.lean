import Outreach.StoreFile
import Outreach.Template

/-!
# The Template File

Templates are stored as an object with the parts `active_id`, which may be missing, and
`templates`, an array of objects with the parts `id`, `name` and `template`.
-/

namespace Outreach

namespace Template

/-- The JSON form of a template: an object with its id, its name and its content. -/
def toJson (t : Template) : Json :=
  .object [(some "id", .ofString t.id), (some "name", .ofString t.name),
    (some "template", .ofString t.content)]

/-- The template of a JSON form, which may also be an array of the three values. Other members are
passed over. -/
def ofJson? (json : Json) : Option Template :=
  match json.fields? ["id", "name", "template"] with
  | some [some id, some name, some content] => do
    return ⟨← id.text?, ← name.text?, ← content.text?⟩
  | _ => none

end Template

namespace Templates

/-- The JSON form of a collection: an object with the active id and the array of templates. -/
def toJson (s : Templates) : Json :=
  .object [(some "active_id", .ofString s.activeId),
    (some "templates", .array (s.list.map Template.toJson))]

/-- The collection of a JSON form. Without an active id, no id is active. -/
def ofJson? (json : Json) : Option Templates :=
  match json.fields? ["active_id", "templates"] with
  | some [activeId, some list] => do
    let activeId ← activeId.elim (some "") Json.text?
    return ⟨activeId, ← (← list.items?).mapM Template.ofJson?⟩
  | _ => none

/-- The stored templates, or the built-in ones if the file is missing. A file that cannot be read
or understood is a failure. -/
def load (path : String) : Task Templates := do
  return (← StoreFile.load ofJson? path).getD builtIn

/-- Store the templates in a file, written as a whole. -/
def save (s : Templates) (path : String) : Task Unit :=
  StoreFile.save s.toJson path

end Templates

end Outreach
