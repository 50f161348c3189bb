import Outreach.Failure
import Outreach.Record
import Outreach.Text.Blank
import Outreach.Yaml.NumberText
import Outreach.Yaml.Value

/-!
# Record Files

A record is written as a YAML mapping of plain values, of which JSON objects are a case. Numbers and
booleans are kept as text and a null as the empty text. Of two fields with one name the later
stays.
-/

namespace Outreach

/-- The text that a plain value is kept as: numbers and truth values are spelled anew, and an
empty value is an empty text. Lists and mappings are no plain values. -/
def Yaml.Value.plainText? : Yaml.Value → Option String
  | .string text => some (String.ofList text)
  | .number n => some (String.ofList n.text)
  | .bool b => some (if b then "true" else "false")
  | .null => some ""
  | _ => none

namespace Record

/-- The fields of a record text, in the order in which they are written. -/
def fieldsOfText? (text : String) : Option (List (String × Yaml.Value)) := do
  let d ← Yaml.Document.ofText? text
  let (entries, _) ← d.topEntries.run 0
  return entries.map fun (key, value) => (String.ofList key, value)

/-- The record of fields. The first field, by name, that is not plain is reported. -/
def ofFields (fields : List (String × Yaml.Value)) : Except Failure Record := do
  let names := (ofList (fields.map fun (name, _) => (name, ""))).keys
  let entries ← names.mapM fun name =>
    match (fields.reverse.lookup name).bind Yaml.Value.plainText? with
    | some text => .ok (name, text)
    | none => .error (.fieldNotPlain name)
  return ofList entries

/-- The record of a text. A blank text is a record without fields. -/
def ofText (text : String) : Except Failure Record :=
  if Text.isBlankText text then .ok empty
  else
    match fieldsOfText? text with
    | none => .error (.recordSyntax "the text is not a mapping of plain values")
    | some fields => ofFields fields

end Record

end Outreach
