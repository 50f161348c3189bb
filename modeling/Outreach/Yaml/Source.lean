/-!
# The Characters of a YAML Text

Where a character stands decides what it means: columns give the nesting, and a key must lie on one
line. A text is therefore read as a list of *marks*, characters with their places. The ways to end
a line become one here, except that the line and paragraph separators of Unicode keep their
identity.
-/

namespace Outreach.Yaml

/-- A **mark**: a character with its place, counted from the start of the text. -/
structure Mark where
  char : Char
  /-- The number of bytes in front. -/
  index : Nat
  line : Nat
  column : Nat
  deriving DecidableEq, Repr

/-- A text that is being read: the marks of what is left of it. -/
abbrev Source := List Mark

/-! ### Classes of characters -/

/-- A character that may occur in a text. Others make the text unreadable wherever they stand. -/
def isAllowed (c : Char) : Bool :=
  let n := c.toNat
  n == 0x09 || n == 0x0A || n == 0x0D || (0x20 ≤ n && n ≤ 0x7E) || n == 0x85
    || (0xA0 ≤ n && n ≤ 0xD7FF) || (0xE000 ≤ n && n ≤ 0xFFFD) || 0x10000 ≤ n

/-- The mark that may stand at the start of a line to tell the encoding. -/
def byteOrderMark : Char := '\ufeff'

/-- A space or a tab, which separate tokens within a line. -/
def isBlank (c : Char) : Bool :=
  c == ' ' || c == '\t'

/-- A character that ends a line. A carriage return with a line feed behind it ends one line. -/
def isBreak (c : Char) : Bool :=
  let n := c.toNat
  n == 0x0A || n == 0x0D || n == 0x85 || n == 0x2028 || n == 0x2029

/-- A character of a name: of an anchor, a directive or the handle of a tag. -/
def isNameChar (c : Char) : Bool :=
  c.isAlphanum || c == '_' || c == '-'

/-- The value of a hexadecimal digit, in either case of letters. -/
def hexValue? (c : Char) : Option Nat :=
  if c.isDigit then some (c.toNat - '0'.toNat)
  else if 'a' ≤ c ∧ c ≤ 'f' then some (c.toNat - 'a'.toNat + 10)
  else if 'A' ≤ c ∧ c ≤ 'F' then some (c.toNat - 'A'.toNat + 10)
  else none

/-! ### Marks -/

/-- The character that stands for a way to end a line. -/
def unifyBreak (c : Char) : Char :=
  if c == '\r' || c == '\x85' then '\n' else c

/-- The marks of characters from a place on. A carriage return and a line feed end one line. -/
def marksFrom (index line column : Nat) : List Char → Source
  | [] => []
  | '\r' :: '\n' :: cs => ⟨'\n', index, line, column⟩ :: marksFrom (index + 2) (line + 1) 0 cs
  | c :: cs =>
    let next := index + c.utf8Size
    if isBreak c then ⟨unifyBreak c, index, line, column⟩ :: marksFrom next (line + 1) 0 cs
    else ⟨c, index, line, column⟩ :: marksFrom next line (column + 1) cs

/-- The marks of a text, if all its characters may occur. -/
def marks? (cs : List Char) : Option Source :=
  if cs.all isAllowed then some (marksFrom 0 0 0 cs) else none

/-! ### Looking ahead -/

/-- Whether nothing, a blank or the end of the line comes next. -/
def atGap : Source → Bool
  | [] => true
  | m :: _ => isBlank m.char || isBreak m.char

/-- Whether the next line is one of the two that bound documents. -/
def atDocumentBound : Source → Bool
  | a :: b :: c :: s =>
    a.column == 0 && (a.char == '-' || a.char == '.') && b.char == a.char && c.char == a.char &&
      atGap s
  | _ => false

/-- The characters of a source as long as they belong to a class, with the rest. -/
def spanChars (p : Char → Bool) : Source → List Char × Source
  | [] => ([], [])
  | m :: s =>
    if p m.char then
      let (cs, rest) := spanChars p s
      (m.char :: cs, rest)
    else ([], m :: s)

/-- A source behind the blanks, the comment and the end of the line; nothing else may be left on
the line. -/
def endLine? (s : Source) : Option Source :=
  let s := (spanChars isBlank s).2
  let s :=
    match s with
    | m :: _ => if m.char == '#' then (spanChars (!isBreak ·) s).2 else s
    | [] => []
  match s with
  | [] => some []
  | m :: s => if isBreak m.char then some s else none

end Outreach.Yaml
