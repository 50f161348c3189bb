import Outreach.Yaml.Scalar.Block
import Outreach.Yaml.Scalar.Plain
import Outreach.Yaml.Scalar.Quoted
import Outreach.Yaml.Tag

/-!
# YAML Tokens

The tokens of a text: its indicators and scalars, and the starts and ends of block collections,
which the indentation gives.
-/

namespace Outreach.Yaml

/-- How a scalar is written. A scalar that is not plain is always a text. -/
inductive ScalarStyle where
  | plain
  | singleQuoted
  | doubleQuoted
  | literal
  | folded
  deriving DecidableEq, Repr

/-- A **directive** in front of a document. Unknown directives are refused. -/
inductive Directive where
  | version (major minor : Nat)
  /-- The full name that a handle of tags stands for. -/
  | tag (handle : List Char) (name : Bytes)
  deriving DecidableEq, Repr

/-- A **token**: a mark of structure, a property of a node, or a scalar with its style. -/
inductive Token where
  | directive (d : Directive)
  | documentStart
  | documentEnd
  | blockSequenceStart
  | blockMappingStart
  | blockEnd
  | flowSequenceStart
  | flowSequenceEnd
  | flowMappingStart
  | flowMappingEnd
  | blockEntry
  | flowEntry
  | key
  | value
  | repeated (name : List Char)
  | anchor (name : List Char)
  | tag (spelling : TagSpelling)
  | scalar (style : ScalarStyle) (text : List Char)
  deriving DecidableEq, Repr

/-- The number at the front of a source, of at most nine digits, with the rest. -/
def readVersionNumber? (s : Source) : Option (Nat × Source) :=
  let (digits, rest) := spanChars Char.isDigit s
  if digits.isEmpty || 9 < digits.length then none
  else some (digits.foldl (fun n d => 10 * n + (d.toNat - '0'.toNat)) 0, rest)

/-- The version behind the name of its directive: two numbers with a point between them. -/
def readVersion? (s : Source) : Option (Directive × Source) := do
  let (major, s) ← readVersionNumber? (spanChars isBlank s).2
  match s with
  | m :: s =>
    if m.char == '.' then
      let (minor, s) ← readVersionNumber? s
      return (.version major minor, s)
    else none
  | [] => none

/-- The handle and the name behind the name of their directive. -/
def readTagDirective? (s : Source) : Option (Directive × Source) := do
  let (handle, s) ← readHandle? (spanChars isBlank s).2
  if handle ≠ ['!'] && !isNamedHandle handle then none
  else if !s.head?.any (isBlank ·.char) then none
  else
    let (name, s) ← readUri? isVerbatimChar 0 (spanChars isBlank s).2
    if name.isEmpty || !atGap s then none else return (.tag handle (beforeZero name), s)

/-- The directive behind its percent sign, with the source behind its line. -/
def readDirective? (s : Source) : Option (Directive × Source) := do
  let (name, s) := spanChars isNameChar s
  if !atGap s then none
  else
    let (d, s) ←
      if name = "YAML".toList then readVersion? s
      else if name = "TAG".toList then readTagDirective? s
      else none
    return (d, ← endLine? s)

/-- The name of an anchor or alias, with the rest. A gap or an indicator follows it. -/
def readAnchorName? (s : Source) : Option (List Char × Source) :=
  let (name, rest) := spanChars isNameChar s
  if name.isEmpty then none
  else if atGap rest || rest.head?.any (fun m => "?:,]\x7d%@`".toList.contains m.char) then
    some (name, rest)
  else none

end Outreach.Yaml
