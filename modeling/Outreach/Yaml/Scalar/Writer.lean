import Outreach.Yaml.Scalar.Resolve

/-!
# Writing Scalars

A text is written plainly if it reads back as itself, else between single quotes, and between double
quotes with escapes if that is not enough. A text with line feeds is written line by line below an
indicator, so that it stays readable. Nothing is wrapped.
-/

namespace Outreach.Yaml

/-- How a text is meant to be written, if its characters admit it. -/
inductive WrittenStyle where
  | plain
  | quoted
  | literal
  deriving DecidableEq, Repr

/-- A character that can be written as it is. The byte order mark is escaped, and so are control
characters other than the line feed. -/
def isPrintable (c : Char) : Bool :=
  let n := c.toNat
  n == 0x0A || (0x20 ≤ n && n ≤ 0x7E) || (0xA0 ≤ n && n ≤ 0xD7FF)
    || (0xE000 ≤ n && n ≤ 0xFFFD && n != 0xFEFF) || 0x10000 ≤ n

/-- Whether a text holds two characters of two classes next to each other. -/
def hasPair (p q : Char → Bool) : List Char → Bool
  | a :: b :: cs => (p a && q b) || hasPair p q (b :: cs)
  | _ => false

/-- Whether no more text, a blank or a break comes next. -/
def gapNext : List Char → Bool
  | [] => true
  | c :: _ => isBlank c || isBreak c

/-- A character that means something at the start of a scalar whatever follows it. -/
def isLeadingIndicator (c : Char) : Bool :=
  "#,[]\x7b\x7d&*!|>'\"%@`".toList.contains c

/-- Whether characters after the first mean something: a colon in front of a gap, or a number sign
behind one. -/
def hasInnerIndicator : List Char → Bool
  | a :: b :: cs =>
    (b == ':' && gapNext cs) || (b == '#' && (isBlank a || isBreak a))
      || hasInnerIndicator (b :: cs)
  | _ => false

/-- Whether a text could be taken for something other than a plain scalar. -/
def hasIndicator (cs : List Char) : Bool :=
  ["---", "..."].contains (String.ofList (cs.take 3)) || hasInnerIndicator cs ||
    match cs with
    | [] => false
    | c :: rest =>
      isLeadingIndicator c || ((c == '?' || c == ':' || c == '-') && gapNext rest)

/-- A space. -/
def isSpace (c : Char) : Bool :=
  c == ' '

/-- Whether a text can stand between single quotes: all of it is printable, and no space stands
next to a break. -/
def admitsQuotes (cs : List Char) : Bool :=
  cs.all isPrintable && !hasPair isBreak isSpace cs && !hasPair isSpace isBreak cs

/-- Whether a text can be written plainly: on one line, without marks of structure, and with no
space at its ends. -/
def admitsPlain (cs : List Char) : Bool :=
  cs.all isPrintable && !cs.any isBreak && !hasIndicator cs && cs.head? != some ' '
    && cs.getLast? != some ' '

/-- Whether a text can be written line by line: no line of it ends in a space, and there is
something to write. -/
def admitsLines (cs : List Char) : Bool :=
  cs.all isPrintable && !hasPair isSpace isBreak cs && !cs.isEmpty && cs.getLast? != some ' '

/-- The letter behind a backslash that stands for a character, if there is one. -/
def escapeLetter? (c : Char) : Option Char :=
  match c with
  | '\x00' => some '0'
  | '\x07' => some 'a'
  | '\x08' => some 'b'
  | '\t' => some 't'
  | '\n' => some 'n'
  | '\x0b' => some 'v'
  | '\x0c' => some 'f'
  | '\r' => some 'r'
  | '\x1b' => some 'e'
  | '"' => some '"'
  | '\\' => some '\\'
  | '\x85' => some 'N'
  | '\u2028' => some 'L'
  | '\u2029' => some 'P'
  | _ => none

/-- A number in hexadecimal digits, filled up with zeros to `width` digits. -/
def hexDigits (width n : Nat) : List Char :=
  let digits := (Nat.toDigits 16 n).map Char.toUpper
  List.replicate (width - digits.length) '0' ++ digits

/-- The escape of a character: by its letter, or by its number in two, four or eight digits. -/
def writeEscape (c : Char) : List Char :=
  '\\' ::
    match escapeLetter? c with
    | some letter => [letter]
    | none =>
      let n := c.toNat
      if n ≤ 0xFF then 'x' :: hexDigits 2 n
      else if n ≤ 0xFFFF then 'u' :: hexDigits 4 n
      else 'U' :: hexDigits 8 n

/-- A text between double quotes, with everything escaped that could not be read back. -/
def writeDouble (cs : List Char) : List Char :=
  '"' :: cs.flatMap (fun c =>
    if !isPrintable c || isBreak c || c == '"' || c == '\\' then writeEscape c else [c]) ++ ['"']

/-- The spaces in front of a further line, which the reader drops. -/
def margin (indent : Nat) : List Char :=
  List.replicate indent ' '

/-- The characters between single quotes. A quote is written twice. The first line feed of a run of
breaks is written twice too, since a single one would read as a space; the line after the run is
indented. -/
def writeSingleBody (indent : Nat) (afterBreak : Bool) : List Char → List Char
  | [] => if afterBreak then margin indent else []
  | c :: cs =>
    if isBreak c then
      (if c == '\n' && !afterBreak then ['\n', '\n'] else [c]) ++ writeSingleBody indent true cs
    else
      (if afterBreak then margin indent else []) ++ (if c == '\'' then ['\'', '\''] else [c]) ++
        writeSingleBody indent false cs

/-- A text between single quotes, its breaks doubled and its further lines behind a margin. -/
def writeSingle (indent : Nat) (cs : List Char) : List Char :=
  '\'' :: writeSingleBody indent false cs ++ ['\'']

/-- The lines of a text, each with its indentation; empty lines have none. -/
def writeLines (indent : Nat) (afterBreak : Bool) : List Char → List Char
  | [] => []
  | c :: cs =>
    if isBreak c then c :: writeLines indent true cs
    else (if afterBreak then margin indent else []) ++ c :: writeLines indent false cs

/-- How much deeper than its surroundings a text is written, and a section deeper than its name. -/
def indentStep : Nat := 2

/-- The header of a text that is written line by line. The indentation is given if the first line
does not show it, and the end tells whether the last break belongs to the text, and others too. -/
def linesHeader (cs : List Char) : List Char :=
  let step :=
    if cs.head?.any (fun c => c == ' ' || isBreak c) then Nat.toDigits 10 indentStep else []
  let chomping :=
    match cs.reverse with
    | [] => ['-']
    | [c] => if isBreak c then ['+'] else ['-']
    | c :: d :: _ => if !isBreak c then ['-'] else if isBreak d then ['+'] else []
  '|' :: step ++ chomping

/-- A text that is written line by line, behind a header that says how its end is to be read. -/
def writeLiteral (indent : Nat) (cs : List Char) : List Char :=
  linesHeader cs ++ '\n' :: writeLines indent true cs

/-- A text between quotes: single ones if they are enough, else double ones. -/
def writeQuoted (indent : Nat) (cs : List Char) : List Char :=
  if admitsQuotes cs then writeSingle indent cs else writeDouble cs

/-- How a text is meant to be written: line by line if it has line feeds, and between quotes if it
would read back as something else. -/
def styleOf (cs : List Char) : WrittenStyle :=
  if cs.contains '\n' then .literal
  else if meaningOf? cs = some .text && !isZeroPadded cs then .plain
  else .quoted

/-- A text whose further lines are indented by `indent` columns, in the simplest style in which it
is read back. -/
def writeScalar (indent : Nat) (cs : List Char) : List Char :=
  match styleOf cs with
  | .plain => if admitsPlain cs then cs else writeQuoted indent cs
  | .quoted => writeQuoted indent cs
  | .literal => if admitsLines cs then writeLiteral indent cs else writeDouble cs

end Outreach.Yaml
