import Outreach.Yaml.Token

/-!
# Cutting a Text into Tokens

Most tokens are told by their first character. Two things are only known later: that what has been
read was a key, when its colon comes; and that a block collection starts there or has ended, when
the next line shows its column. A scan therefore remembers the place of a possible key on each
level of brackets and the columns of the open block collections.
-/

namespace Outreach.Yaml

/-- A place where a key may have started. Whether it has is known only once a colon comes. -/
structure KeyStart where
  /-- Whether nothing but a key can stand there. -/
  required : Bool
  /-- The number of tokens in front of it. -/
  number : Nat
  mark : Mark
  deriving Repr

/-- A **scan** of a text: what is left to be read, the tokens so far, and the structure that is
open. -/
structure Scan where
  source : Source
  /-- The tokens so far, the last one first. -/
  tokens : List Token
  /-- The number of tokens so far. -/
  count : Nat
  /-- The possible key on the current level of brackets. -/
  candidate : Option KeyStart
  /-- The possible keys on the outer levels, the innermost first. -/
  outer : List (Option KeyStart)
  /-- The columns of the open block collections, the innermost first. -/
  columns : List Nat
  /-- Whether a key may start here. -/
  keyAllowed : Bool

namespace Scan

/-- The scan before anything has been read: no tokens, no open collections, and a key may start. -/
def start (s : Source) : Scan :=
  ⟨s, [], 0, none, [], [], true⟩

/-- Whether the scan stands within brackets, where columns do not matter. -/
def inFlow (l : Scan) : Bool :=
  !l.outer.isEmpty

/-- Add a token behind all that have been read. -/
def add (l : Scan) (t : Token) : Scan :=
  { l with tokens := t :: l.tokens, count := l.count + 1 }

/-- Add a token behind the first `number` ones, where a key turns out to have started. -/
def addAt (l : Scan) (number : Nat) (t : Token) : Scan :=
  let later := l.count - number
  { l with tokens := l.tokens.take later ++ t :: l.tokens.drop later, count := l.count + 1 }

/-- Go on behind a token, with the rest of the text. -/
def behind (l : Scan) (s : Source) (keyAllowed : Bool) : Scan :=
  { l with source := s, keyAllowed }

/-- A key takes at most so many bytes, and must lie on one line. -/
def keyLimit : Nat := 1024

/-- A possible key as seen from a later place: it must lie on one line and not be too long. `none`
if it had to be a key. -/
def refresh? (m : Mark) (k : Option KeyStart) : Option (Option KeyStart) :=
  match k with
  | none => some none
  | some k =>
    if k.mark.line < m.line || k.mark.index + keyLimit < m.index then
      if k.required then none else some none
    else some (some k)

/-- All possible keys as seen from a later place, on every level of brackets. `none` if one of
them had to be a key. -/
def refreshKeys? (l : Scan) (m : Mark) : Option Scan := do
  let candidate ← refresh? m l.candidate
  let outer ← l.outer.mapM (refresh? m)
  return { l with candidate, outer }

/-- Give up the possible key, unless it had to be one. -/
def dropKey? (l : Scan) : Option Scan :=
  match l.candidate with
  | some k => if k.required then none else some { l with candidate := none }
  | none => some l

/-- Remember that a key may start here, if keys are allowed. At the column of a block mapping
nothing but a key can stand. -/
def saveKey? (l : Scan) (m : Mark) : Option Scan :=
  if l.keyAllowed then do
    let l ← l.dropKey?
    let required := !l.inFlow && l.columns.head? == some m.column
    return { l with candidate := some ⟨required, l.count, m⟩ }
  else some l

/-- Start a block collection at a column that lies deeper than the open ones, behind the first
`number` tokens. Brackets hold no block collections. -/
def openBlock (l : Scan) (column number : Nat) (t : Token) : Scan :=
  if l.inFlow || l.columns.head?.any (column ≤ ·) then l
  else { l.addAt number t with columns := column :: l.columns }

/-- Add the ends of the block collections at the first columns. -/
def closeBlocks (closed : Nat) (l : Scan) : Scan :=
  { l with
    tokens := List.replicate closed .blockEnd ++ l.tokens
    count := l.count + closed
    columns := l.columns.drop closed }

/-- End the block collections that lie deeper than a column, each with a token. Within brackets
nothing ends. -/
def closeTo (l : Scan) (column : Nat) : Scan :=
  if l.inFlow then l else l.closeBlocks (l.columns.takeWhile (column < ·)).length

/-- End all block collections, as at the end of a document. -/
def closeAll (l : Scan) : Scan :=
  if l.inFlow then l else l.closeBlocks l.columns.length

/-- A token that cannot be part of a block collection: a directive or a bound of a document. -/
def addOuter? (l : Scan) (t : Token) (s : Source) : Option Scan := do
  let l ← l.closeAll.dropKey?
  return (l.add t).behind s false

/-- An opening bracket, which may itself start a key. Within it keys may start anew. -/
def openFlow? (l : Scan) (m : Mark) (t : Token) (s : Source) : Option Scan := do
  let l ← l.saveKey? m
  return ({ l with candidate := none, outer := l.candidate :: l.outer }.add t).behind s true

/-- A closing bracket, which returns to the level around it. A colon may follow, a key may not. -/
def closeFlow? (l : Scan) (t : Token) (s : Source) : Option Scan := do
  let l ← l.dropKey?
  let l :=
    match l.outer with
    | [] => l
    | candidate :: outer => { l with candidate, outer }
  return (l.add t).behind s false

/-- The comma of a flow collection, behind which a key may start. -/
def flowEntry? (l : Scan) (s : Source) : Option Scan := do
  let l ← l.dropKey?
  return (l.add .flowEntry).behind s true

/-- An indicator of a block collection that may start the collection. -/
def blockIndicator? (l : Scan) (m : Mark) (starts t : Token) (s : Source) (allowed : Bool) :
    Option Scan :=
  if !l.inFlow && !l.keyAllowed then none
  else do
    let l ← (l.openBlock m.column l.count starts).dropKey?
    return (l.add t).behind s allowed

/-- The colon of a value. What stood before it on the line becomes its key. -/
def value? (l : Scan) (m : Mark) (s : Source) : Option Scan :=
  match l.candidate with
  | some k =>
    let l := (l.addAt k.number .key).openBlock k.mark.column k.number .blockMappingStart
    some (({ l with candidate := none }.add .value).behind s false)
  | none => l.blockIndicator? m .blockMappingStart .value s (!l.inFlow)

/-- A token that a key may start with, and that has been read with the source behind it. -/
def keyPart? (l : Scan) (m : Mark) (read : Option (Token × Source)) : Option Scan := do
  let l ← l.saveKey? m
  let (t, s) ← read
  return (l.add t).behind s false

/-- A plain scalar. A key may start on the line behind it. -/
def plain? (l : Scan) (m : Mark) (s : Source) : Option Scan := do
  let l ← l.saveKey? m
  let ctx : PlainContext := ⟨l.inFlow, l.columns.head?.elim 0 (· + 1)⟩
  let (text, broken, rest) ← readPlain ctx .none (m :: s)
  return (l.add (.scalar .plain text)).behind rest broken

/-- A block scalar, which is read as a whole. It cannot be a key, but one may start on the line
behind it. -/
def blockScalar? (l : Scan) (style : ScalarStyle) (s : Source) : Option Scan := do
  let l ← l.dropKey?
  let (text, rest) ← readBlockScalar (style == .literal) l.columns.head? s
  return (l.add (.scalar style text)).behind rest true

/-- A character that starts no plain scalar, except three of them before what is no gap. -/
def isIndicator (c : Char) : Bool :=
  "-?:,[]\x7b\x7d#&*!|>'\"%@`".toList.contains c

/-- Whether a plain scalar starts with a character in front of a source. -/
def startsPlain (l : Scan) (c : Char) (s : Source) : Bool :=
  (!isIndicator c && !isBlank c)
    || (c == '-' && !s.head?.any (isBlank ·.char))
    || (!l.inFlow && (c == '?' || c == ':') && !atGap s)

/-- Read the token at a mark, decided by its character, the column and what comes behind. -/
def token? (l : Scan) (m : Mark) (s : Source) : Option Scan :=
  let c := m.char
  let indicates := l.inFlow || atGap s
  if m.column = 0 && c == '%' then do
    let (d, rest) ← readDirective? s
    l.addOuter? (.directive d) rest
  else if atDocumentBound (m :: s) then
    l.addOuter? (if c == '-' then .documentStart else .documentEnd) (s.drop 2)
  else if c == '[' then l.openFlow? m .flowSequenceStart s
  else if c == '\x7b' then l.openFlow? m .flowMappingStart s
  else if c == ']' then l.closeFlow? .flowSequenceEnd s
  else if c == '\x7d' then l.closeFlow? .flowMappingEnd s
  else if c == ',' then l.flowEntry? s
  else if c == '-' && atGap s then l.blockIndicator? m .blockSequenceStart .blockEntry s true
  else if c == '?' && indicates then l.blockIndicator? m .blockMappingStart .key s (!l.inFlow)
  else if c == ':' && indicates then l.value? m s
  else if c == '*' then
    l.keyPart? m ((readAnchorName? s).map fun (name, rest) => (.repeated name, rest))
  else if c == '&' then
    l.keyPart? m ((readAnchorName? s).map fun (name, rest) => (.anchor name, rest))
  else if c == '!' then
    l.keyPart? m ((readTag? l.inFlow (m :: s)).map fun (tag, rest) => (.tag tag, rest))
  else if c == '|' && !l.inFlow then l.blockScalar? .literal s
  else if c == '>' && !l.inFlow then l.blockScalar? .folded s
  else if c == '\'' then
    l.keyPart? m ((readQuoted .single (.text .none) s).map fun (text, rest) =>
      (.scalar .singleQuoted text, rest))
  else if c == '"' then
    l.keyPart? m ((readQuoted .double (.text .none) s).map fun (text, rest) =>
      (.scalar .doubleQuoted text, rest))
  else if l.startsPlain c s then l.plain? m s
  else none

/-- Go to the next token, over blanks, comments and line breaks. A break lets a key start, and a tab
may not stand where one could start. The flags tell whether the scan stands within brackets,
whether a key may start, and whether it stands within a comment. -/
def toToken (inFlow : Bool) : Bool → Bool → Source → Bool × Source
  | keyAllowed, _, [] => (keyAllowed, [])
  | keyAllowed, comment, m :: s =>
    if isBreak m.char then toToken inFlow (keyAllowed || !inFlow) false s
    else if comment then toToken inFlow keyAllowed true s
    else if m.char == ' ' || (m.char == '\t' && (inFlow || !keyAllowed))
        || (m.column = 0 && m.char == byteOrderMark) then
      toToken inFlow keyAllowed false s
    else if m.char == '#' then toToken inFlow keyAllowed true s
    else (keyAllowed, m :: s)

/-- The tokens of a scan that has come to its end. -/
def finish? (l : Scan) : Option (List Token) := do
  let l ← l.closeAll.dropKey?
  return l.tokens.reverse

/-- Read on to the end. Every token takes a character, so there are no more steps than that. -/
def run? : Nat → Scan → Option (List Token)
  | 0, _ => none
  | steps + 1, l =>
    let (keyAllowed, s) := toToken l.inFlow l.keyAllowed false l.source
    let l := l.behind s keyAllowed
    match s with
    | [] => l.finish?
    | m :: s => do
      let l ← l.refreshKeys? m
      let l ← (l.closeTo m.column).token? m s
      run? steps l

end Scan

/-- The tokens of a text, read one after the other to its end. -/
def tokens? (cs : List Char) : Option (List Token) := do
  let s ← marks? cs
  (Scan.start s).run? (s.length + 1)

end Outreach.Yaml
