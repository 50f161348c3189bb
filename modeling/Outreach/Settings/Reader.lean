import Outreach.Settings
import Outreach.Yaml.Document
import Outreach.Yaml.Scalar.Resolve
import Outreach.Yaml.Value

/-!
# Reading Settings

Settings are written as a YAML mapping with the parts `format` and `polish`, each of which is a
mapping again. Every part may be missing, and unknown parts are passed over, so that a file of a
later version can be read. A part that is given twice is refused.
-/

namespace Outreach.Settings

open Yaml (Document Node)

/-- The entries of a mapping, with texts for keys, in the order in which they are written. -/
abbrev Entries := List (List Char × Node Nat)

/-- The text of a scalar, whatever its tag and style. An alias is followed to what it stands for. -/
def textOf? (d : Document) (node : Node Nat) : Option (List Char) :=
  match d.follow? node with
  | some (.scalar _ _ text) => some text
  | _ => none

/-- The entries of a node that is a mapping, or is left out. -/
def entriesOf? (d : Document) (node : Option (Node Nat)) : Option Entries :=
  match node.map d.follow? with
  | some none => none
  | some (some (.mapping _ entries)) =>
    entries.mapM fun (key, value) => (textOf? d key).map (·, value)
  | some (some node) => if Document.isLeftOut (some node) then some [] else none
  | none => some []

/-- The items of a node that is a sequence, or is left out. -/
def itemsOf? (d : Document) (node : Node Nat) : Option (List (Node Nat)) :=
  match d.follow? node with
  | some (.sequence _ items) => some items
  | some node => if Document.isLeftOut (some node) then some [] else none
  | none => none

/-- A part of a mapping: its default if it is missing, nothing if it is given twice or cannot be
read. -/
def part? {α : Type} (entries : Entries) (name : String) (default : α)
    (read : Node Nat → Option α) : Option α :=
  match entries.filter (·.1 == name.toList) with
  | [] => some default
  | [(_, node)] => read node
  | _ => none

/-- The string of a scalar. A number or a truth value is taken as it is spelled. -/
def stringOf? (d : Document) (node : Node Nat) : Option String :=
  (textOf? d node).map String.ofList

/-- The strings of a sequence of scalars. One item that is no scalar spoils the whole sequence. -/
def stringsOf? (d : Document) (node : Node Nat) : Option (List String) :=
  (itemsOf? d node).bind fun items => items.mapM (stringOf? d)

/-- The character of a scalar of one character. An empty or longer text gives none. -/
def charOf? (d : Document) (node : Node Nat) : Option Char :=
  match textOf? d node with
  | some [c] => some c
  | _ => none

/-- The whole number of 64 bits that a plain scalar spells. A literal scalar can spell one too, if
its tag says so. -/
def wholeOf? (d : Document) (node : Node Nat) : Option UInt64 :=
  match d.follow? node with
  | some (.scalar p style text) =>
    if style = .plain || (style = .literal && p.tag = some (Yaml.coreTag "int")) then
      match Yaml.unsignedOf? text with
      | some n => if n < UInt64.size then some n.toUInt64 else none
      | none => none
    else none
  | _ => none

/-- The display policy of a mapping. A part that is not named has its default, and unknown parts
are passed over. -/
def displayOf? (d : Document) (node : Node Nat) : Option Display := do
  let entries ← entriesOf? d (some node)
  let default : Display := {}
  return {
    groupingSeparator :=
      ← part? entries "grouping_separator" default.groupingSeparator (charOf? d)
    percentSuffix := ← part? entries "percent_suffix" default.percentSuffix (stringOf? d)
    maxFractionDigits :=
      ← part? entries "max_fraction_digits" default.maxFractionDigits (wholeOf? d)
    numberFields := ← part? entries "number_fields" default.numberFields (stringsOf? d)
    percentFields := ← part? entries "percent_fields" default.percentFields (stringsOf? d) }

/-- The polish settings of a mapping. A part that is not named has its default, and unknown parts
are passed over. -/
def polishOf? (d : Document) (node : Node Nat) : Option Polish.Settings := do
  let entries ← entriesOf? d (some node)
  let default : Polish.Settings := {}
  return {
    model := ← part? entries "model" default.model (stringOf? d)
    baseUrl := ← part? entries "base_url" default.baseUrl (stringOf? d)
    keyVariable := ← part? entries "api_key_env" default.keyVariable (stringOf? d)
    timeoutSeconds := ← part? entries "timeout_secs" default.timeoutSeconds (wholeOf? d)
    minimumLength := ← part? entries "min_chars" default.minimumLength (wholeOf? d) }

/-- The settings of a document, acceptable or not. An empty document stands for the defaults. -/
def ofDocument? (d : Document) : Option Settings := do
  let entries ← entriesOf? d d.root
  return {
    display := ← part? entries "format" {} (displayOf? d)
    polish := ← part? entries "polish" {} (polishOf? d) }

/-- The settings of a text, read and checked. A blank text gives the defaults. -/
def ofText (text : String) : Except Failure Settings := do
  let settings ←
    if Text.isBlankText text then pure {}
    else
      match (Document.ofText? text).bind ofDocument? with
      | none => throw (.settingsSyntax "the text is not a mapping of settings")
      | some settings => pure settings
  settings.check
  return settings

end Outreach.Settings
