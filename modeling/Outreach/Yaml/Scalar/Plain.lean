import Outreach.Yaml.Scalar.Gap

/-!
# Plain Scalars

A plain scalar has no quotes. It ends where something else begins: at a colon with a gap behind it,
at a comment, at the brackets and commas of a flow collection, or at a line that is indented too
little.
-/

namespace Outreach.Yaml

/-- Where a plain scalar is read: within brackets or not, and how far its further lines must be
indented. -/
structure PlainContext where
  inFlow : Bool
  indent : Nat
  deriving DecidableEq, Repr

/-- A character that bounds the entries of flow collections, and so ends a plain scalar within
brackets. -/
def isFlowBound (c : Char) : Bool :=
  c == ',' || c == '[' || c == ']' || c == '\x7b' || c == '\x7d'

/-- A plain scalar: its text, whether line breaks follow it, and the source behind it. -/
abbrev PlainRead := List Char × Bool × Source

/-- The plain scalar at the front of a source, after a gap. -/
def readPlain (ctx : PlainContext) (gap : Gap) : Source → Option PlainRead
  | [] => some ([], gap.hasBreak, [])
  | m :: s =>
    if isBlank m.char then
      if gap.hasBreak && m.column < ctx.indent && m.char == '\t' then none
      else readPlain ctx (gap.addBlank m.char) s
    else if isBreak m.char then readPlain ctx (gap.addBreak m.char) s
    else if gap != .none
        && ((!ctx.inFlow && m.column < ctx.indent) || m.char == '#'
          || atDocumentBound (m :: s)) then
      some ([], gap.hasBreak, m :: s)
    else if ctx.inFlow && m.char == ':'
        && s.head?.any (fun n => isFlowBound n.char || n.char == '?') then none
    else if (m.char == ':' && atGap s) || (ctx.inFlow && isFlowBound m.char) then
      some ([], gap.hasBreak, m :: s)
    else
      (readPlain ctx .none s).map fun (text, broken, rest) =>
        (gap.text ++ m.char :: text, broken, rest)

end Outreach.Yaml
