import Outreach.Yaml.Source

/-!
# Tags

A tag gives the type of a node. It is written as a *handle*, which stands for the front part of a
longer name, and a *suffix*; or in full between angle brackets. Escapes in a suffix give bytes, so
the name of a tag is a list of bytes. A zero byte ends a name: what is written behind it does not
belong to the tag.
-/

namespace Outreach.Yaml

/-- The bytes of a name, which need not spell characters, since escapes give bytes. -/
abbrev Bytes := List UInt8

/-- The bytes of a text in UTF-8. -/
def bytesOf (s : String) : Bytes :=
  s.toUTF8.toList

/-- The bytes in front of the first zero byte, at which a name ends. -/
def beforeZero (bytes : Bytes) : Bytes :=
  bytes.takeWhile (· != 0)

/-- A tag as it is written. Without a handle, the suffix is the full name. -/
structure TagSpelling where
  handle : List Char
  suffix : Bytes
  deriving DecidableEq, Repr

/-- A character that may occur in a suffix by itself, without an escape. -/
def isUriChar (c : Char) : Bool :=
  isNameChar c || ";/?:@&=+$.!~*'()".toList.contains c

/-- A character that may occur by itself in the full name of a tag. -/
def isVerbatimChar (c : Char) : Bool :=
  isUriChar c || c == ',' || c == '[' || c == ']'

/-- How many bytes encode a character that starts with a byte. -/
def encodedWidth? (b : Nat) : Option Nat :=
  if b < 0x80 then some 1
  else if b / 0x20 = 6 then some 2
  else if b / 0x10 = 14 then some 3
  else if b / 0x08 = 30 then some 4
  else none

/-- The bytes at the front of a source that are written as characters of a class or as escapes, with
the rest. Of an encoded character some bytes are missing, and they must be escapes too. -/
def readUri? (p : Char → Bool) (missing : Nat) : Source → Option (Bytes × Source)
  | [] => if missing = 0 then some ([], []) else none
  | m :: s =>
    if m.char == '%' then
      match s with
      | a :: b :: s' =>
        match hexValue? a.char, hexValue? b.char with
        | some high, some low =>
          let byte := high * 16 + low
          let left := if missing = 0 then encodedWidth? byte
            else if byte / 0x40 = 2 then some missing else none
          match left with
          | none => none
          | some width => (readUri? p (width - 1) s').map fun (bytes, rest) =>
            (UInt8.ofNat byte :: bytes, rest)
        | _, _ => none
      | _ => none
    else if missing ≠ 0 then none
    else if p m.char then (readUri? p 0 s).map fun (bytes, rest) =>
      (UInt8.ofNat m.char.toNat :: bytes, rest)
    else some ([], m :: s)

/-- An exclamation mark with the name characters that follow it, and a further mark if there is
one. -/
def readHandle? : Source → Option (List Char × Source)
  | [] => none
  | m :: s =>
    if m.char == '!' then
      let (name, rest) := spanChars isNameChar s
      match rest with
      | n :: rest' =>
        if n.char == '!' then some ('!' :: name ++ ['!'], rest') else some ('!' :: name, rest)
      | [] => some ('!' :: name, [])
    else none

/-- Whether a handle is more than one exclamation mark and ends in one. -/
def isNamedHandle (handle : List Char) : Bool :=
  1 < handle.length && handle.getLast? == some '!'

/-- A full name between angle brackets, after the opening one. It must not be empty. -/
def readVerbatim? (s : Source) : Option (TagSpelling × Source) :=
  match readUri? isVerbatimChar 0 s with
  | some (name, m :: rest) =>
    if m.char == '>' && !name.isEmpty then some (⟨[], beforeZero name⟩, rest) else none
  | _ => none

/-- A tag of a handle and a suffix. What looks like the front of a handle and is none belongs to the
suffix, under the handle of one exclamation mark; that mark alone is a full name. -/
def readShorthand? (s : Source) : Option (TagSpelling × Source) := do
  let (handle, s) ← readHandle? s
  let (suffix, s) ← readUri? isUriChar 0 s
  if isNamedHandle handle then
    if suffix.isEmpty then none else return (⟨handle, beforeZero suffix⟩, s)
  else
    let suffix := beforeZero (bytesOf (String.ofList handle.tail) ++ suffix)
    if suffix.isEmpty then return (⟨[], bytesOf "!"⟩, s) else return (⟨['!'], suffix⟩, s)

/-- The tag at the front of a source, with the rest. A gap follows it, or within brackets a
comma. -/
def readTag? (inFlow : Bool) (s : Source) : Option (TagSpelling × Source) := do
  let (tag, rest) ←
    match s with
    | _ :: m :: s' => if m.char == '<' then readVerbatim? s' else readShorthand? s
    | _ => readShorthand? s
  if atGap rest || (inFlow && rest.head?.any (·.char == ',')) then return (tag, rest) else none

end Outreach.Yaml
