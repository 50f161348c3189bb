import Outreach.Yaml.Source

/-!
# Block Scalars

A block scalar is a run of lines under a header, all indented by as much as the first one, or by as
much as the header says. A literal scalar keeps its line breaks; a folded one joins lines by spaces
as long as they do not start with blanks. What becomes of the breaks at the end is for the header
to say.
-/

namespace Outreach.Yaml

/-- What becomes of the line breaks at the end of a block scalar: they go, one stays, or all
stay. -/
inductive Chomping where
  | strip
  | clip
  | keep
  deriving DecidableEq, Repr

/-- The **header** of a block scalar: what becomes of its last breaks, and its indentation. -/
structure BlockHeader where
  chomping : Chomping
  /-- How much deeper than its surroundings the scalar is; without a number its first line tells. -/
  increment : Option Nat
  deriving DecidableEq, Repr

/-- The chomping that a character asks for: a plus keeps all breaks at the end, a minus strips
them. -/
def chompingOf? (c : Char) : Option Chomping :=
  if c == '+' then some .keep else if c == '-' then some .strip else none

/-- The digit of an increment. Zero is refused later. -/
def incrementOf? (c : Char) : Option Nat :=
  if c.isDigit then some (c.toNat - '0'.toNat) else none

/-- A header, unless its increment is zero, with the rest of its line. -/
def properIncrement? (h : BlockHeader) (s : Source) : Option (BlockHeader × Source) :=
  if h.increment = some 0 then none else some (h, s)

/-- The two parts of a header, in either order, and the source behind them. -/
def readHeader? : Source → Option (BlockHeader × Source)
  | [] => some (⟨.clip, none⟩, [])
  | m :: s =>
    match chompingOf? m.char, incrementOf? m.char, s with
    | some chomping, _, n :: s' =>
      match incrementOf? n.char with
      | some i => properIncrement? ⟨chomping, some i⟩ s'
      | none => some (⟨chomping, none⟩, s)
    | some chomping, _, [] => some (⟨chomping, none⟩, [])
    | none, some i, n :: s' =>
      match chompingOf? n.char with
      | some chomping => properIncrement? ⟨chomping, some i⟩ s'
      | none => properIncrement? ⟨.clip, some i⟩ s
    | none, some i, [] => properIncrement? ⟨.clip, some i⟩ []
    | none, none, _ => some (⟨.clip, none⟩, m :: s)

/-- The column of the first line that has more than spaces, or of a line of spaces before it if that
is longer; the end of the text counts as such a line. A tab cannot stand before it. The first two
numbers are the longest line of spaces so far and the column of the source. -/
def firstColumn? (best column : Nat) : Source → Option Nat
  | [] => some (max best column)
  | m :: s =>
    if m.char == ' ' then firstColumn? best (m.column + 1) s
    else if m.char == '\t' then none
    else if isBreak m.char then firstColumn? (max best m.column) 0 s
    else some (max best m.column)

/-- Where the reader of a block scalar stands: between two lines or within one. -/
inductive BlockState where
  /-- Between lines: the break behind the last line, the breaks since then, and whether the last
  line started with a blank. -/
  | between (last : List Char) (more : List Char) (blank : Bool)
  /-- Within a line, and whether it started with a blank. -/
  | within (blank : Bool)
  deriving DecidableEq, Repr

/-- The breaks that stay at the end of a block scalar. -/
def Chomping.tail : Chomping → List Char → List Char → List Char
  | strip, _, _ => []
  | clip, last, _ => last
  | keep, last, more => last ++ more

/-- What stands for the breaks between two lines: in a folded scalar a single break becomes a
space, unless a line starts with a blank. -/
def lineGap (literal blank nextBlank : Bool) (last more : List Char) : List Char :=
  if !literal && last == ['\n'] && !blank && !nextBlank then
    if more = [] then [' '] else more
  else last ++ more

/-- The text of a block scalar whose lines start at column `indent`, and the source behind it. A tab
may not stand for the spaces of the indentation. -/
def readBlock (literal : Bool) (chomping : Chomping) (indent : Nat) :
    BlockState → Source → Option (List Char × Source)
  | .between last more _, [] => some (chomping.tail last more, [])
  | .within _, [] => some ([], [])
  | .between last more blank, m :: s =>
    if m.column < indent && m.char == ' ' then
      readBlock literal chomping indent (.between last more blank) s
    else if m.column < indent && m.char == '\t' then none
    else if isBreak m.char then
      readBlock literal chomping indent (.between last (more ++ [m.char]) blank) s
    else if m.column = indent then
      let nextBlank := isBlank m.char
      (readBlock literal chomping indent (.within nextBlank) s).map fun (text, rest) =>
        (lineGap literal blank nextBlank last more ++ m.char :: text, rest)
    else some (chomping.tail last more, m :: s)
  | .within blank, m :: s =>
    if isBreak m.char then readBlock literal chomping indent (.between [m.char] [] blank) s
    else
      (readBlock literal chomping indent (.within blank) s).map fun (text, rest) =>
        (m.char :: text, rest)

/-- The text of a block scalar behind its indicator, and the source behind it. The surroundings are
indented by `outer` columns, if they are a block collection. -/
def readBlockScalar (literal : Bool) (outer : Option Nat) (s : Source) :
    Option (List Char × Source) := do
  let (header, s) ← readHeader? s
  let s ← endLine? s
  let indent ←
    match header.increment with
    | some i => some (outer.getD 0 + i)
    | none => (firstColumn? 0 0 s).map fun column => max column (max (outer.elim 0 (· + 1)) 1)
  readBlock literal header.chomping indent (.between [] [] false) s

end Outreach.Yaml
