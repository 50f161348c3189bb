import Outreach.Json

/-!
# Writing JSON

Values are written over several lines, two spaces deeper on each level; empty arrays and objects
stay on one line. Only quotes, backslashes and control characters are escaped.
-/

namespace Outreach.Json

/-- A small number as a hexadecimal digit, with lower-case letters. -/
def hexChar (n : Nat) : Char :=
  if n < 10 then Char.ofNat ('0'.toNat + n) else Char.ofNat ('a'.toNat + (n - 10))

/-- A character as it stands in a string: escaped if it is a quote, a backslash or a control
character, and as it is otherwise. -/
def writeChar (c : Char) : List Char :=
  match c with
  | '"' => ['\\', '"']
  | '\\' => ['\\', '\\']
  | '\x08' => ['\\', 'b']
  | '\x0c' => ['\\', 'f']
  | '\n' => ['\\', 'n']
  | '\r' => ['\\', 'r']
  | '\t' => ['\\', 't']
  | c =>
    if c.toNat < 0x20 then ['\\', 'u', '0', '0', hexChar (c.toNat / 16), hexChar (c.toNat % 16)]
    else [c]

/-- A string in quotes. One that spells no text is written as a unit without its pair. -/
def writeString : Option String → List Char
  | some s => '"' :: s.toList.flatMap writeChar ++ ['"']
  | none => "\"\\ud800\"".toList

/-- A number as its whole significand and its exponent, in a form that is read back as the same
numeral. -/
def writeNumber (n : Numeral) : List Char :=
  (if n.negative then ['-'] else []) ++ Nat.toDigits 10 n.significand ++
    (if n.exponent = 0 then []
     else 'e' :: (if n.exponent < 0 then ['-'] else []) ++ Nat.toDigits 10 n.exponent.natAbs)

/-- The start of a line at a level, two spaces for each. -/
def newline (level : Nat) : List Char :=
  '\n' :: List.replicate (2 * level) ' '

mutual

/-- A value at a level. An empty array or object stays on its line. -/
def write (level : Nat) : Json → List Char
  | null => "null".toList
  | bool true => "true".toList
  | bool false => "false".toList
  | number n => writeNumber n
  | string s => writeString s
  | array [] => "[]".toList
  | array (item :: items) =>
    '[' :: newline (level + 1) ++ item.write (level + 1) ++ writeItems (level + 1) items ++
      newline level ++ [']']
  | object [] => ['\x7b', '\x7d']
  | object ((key, value) :: members) =>
    '\x7b' :: newline (level + 1) ++ writeString key ++ [':', ' '] ++ value.write (level + 1) ++
      writeMembers (level + 1) members ++ newline level ++ ['\x7d']

/-- The items of an array after the first, each behind a comma on a line of its own. -/
def writeItems (level : Nat) : List Json → List Char
  | [] => []
  | item :: items => ',' :: newline level ++ item.write level ++ writeItems level items

/-- The members of an object after the first, each behind a comma on a line of its own. -/
def writeMembers (level : Nat) : List (Option String × Json) → List Char
  | [] => []
  | (key, value) :: members =>
    ',' :: newline level ++ writeString key ++ [':', ' '] ++ value.write level ++
      writeMembers level members

end

/-- The text of a value, without a line feed at the end. -/
def toText (json : Json) : String :=
  String.ofList (json.write 0)

end Outreach.Json
