import Outreach.Yaml.Source

/-!
# Folding

Between the words of a scalar stand blanks and line breaks. Blanks within a line stay. Blanks around
a break go; a single break becomes a space, and of several breaks the first goes.
-/

namespace Outreach.Yaml

/-- The **gap** since the last word of a scalar. What it stands for is known once the next word
comes. -/
inductive Gap where
  | none
  /-- Blanks, and no break. -/
  | blanks (text : List Char)
  /-- The first break and those that follow it. The first is missing if it was escaped. -/
  | breaks (first more : List Char)
  deriving DecidableEq, Repr

namespace Gap

/-- The gap after one more blank. Behind a break blanks only indent, and count for nothing. -/
def addBlank (c : Char) : Gap → Gap
  | none => blanks [c]
  | blanks text => blanks (text ++ [c])
  | breaks first more => breaks first more

/-- The gap after one more break. The blanks in front of the first one are dropped. -/
def addBreak (c : Char) : Gap → Gap
  | breaks first more => breaks first (more ++ [c])
  | _ => breaks [c] []

/-- Whether the gap goes over a line break, so that the next word stands on a further line. -/
def hasBreak : Gap → Bool
  | breaks .. => true
  | _ => false

/-- What the gap stands for between two words: its blanks, a space for a single break, or the
further breaks. -/
def text : Gap → List Char
  | none => []
  | blanks text => text
  | breaks first more =>
    if first = ['\n'] then (if more = [] then [' '] else more) else first ++ more

end Gap

end Outreach.Yaml
