import Outreach.Display
import Outreach.Message.Conditional
import Outreach.Message.Placeholder

/-!
# Rendering a Message

A message is rendered in two passes over its template: blocks are decided by the raw values of the
record, then placeholders take the values as they are displayed. The result is trimmed.
-/

namespace Outreach.Message

/-- A template filled in from a record, before the ends are trimmed. -/
def fillTemplate (p : Display) (r : Record) (template : List Char) : List Char :=
  substituteSlots (p.apply r) (evaluateBlocks r template)

/-- The message that a template gives for a record: blocks decided by the raw values, long runs of
breaks squeezed, tokens filled with the display values, and blanks trimmed at both ends. -/
def render (p : Display) (template : String) (r : Record) : String :=
  String.ofList (Text.trimChars (fillTemplate p r template.toList))

end Outreach.Message
