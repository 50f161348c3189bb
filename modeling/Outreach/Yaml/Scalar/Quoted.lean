import Outreach.Yaml.Scalar.Gap

/-!
# Quoted Scalars

Between single quotes every character stands for itself, and a quote is written twice. Between
double quotes a backslash starts an escape, which can also hide a line break.
-/

namespace Outreach.Yaml

/-- The two kinds of quotes. Only double quotes know escapes. -/
inductive Quote where
  | single
  | double
  deriving DecidableEq, Repr

/-- The character of a quote, which opens and closes a scalar. -/
def Quote.char : Quote → Char
  | single => '\''
  | double => '"'

/-- The character that a letter after a backslash stands for, for escapes of one letter. -/
def escapedChar? (c : Char) : Option Char :=
  match c with
  | '0' => some '\x00'
  | 'a' => some '\x07'
  | 'b' => some '\x08'
  | 't' => some '\t'
  | '\t' => some '\t'
  | 'n' => some '\n'
  | 'v' => some '\x0b'
  | 'f' => some '\x0c'
  | 'r' => some '\r'
  | 'e' => some '\x1b'
  | ' ' => some ' '
  | '"' => some '"'
  | '/' => some '/'
  | '\\' => some '\\'
  | 'N' => some '\x85'
  | '_' => some '\xa0'
  | 'L' => some '\u2028'
  | 'P' => some '\u2029'
  | _ => none

/-- How many hexadecimal digits follow a letter after a backslash, for escapes by number. -/
def escapeDigits? (c : Char) : Option Nat :=
  match c with
  | 'x' => some 2
  | 'u' => some 4
  | 'U' => some 8
  | _ => none

/-- The character with a number. Surrogates and numbers that are too large have none. -/
def charOfNumber? (n : Nat) : Option Char :=
  if h : n.isValidChar then some (Char.ofNatAux n h) else none

/-- Where the reader of a quoted scalar stands: after a gap, or within the digits of an escape, of
which some are missing. -/
inductive QuotedState where
  | text (gap : Gap)
  | digits (missing value : Nat)
  deriving DecidableEq, Repr

/-- Put text in front of what has been read, if it could be read. -/
def putBefore (text : List Char) (r : Option (List Char × Source)) : Option (List Char × Source) :=
  r.map fun (rest, s) => (text ++ rest, s)

/-- The text of a quoted scalar after its opening quote, with the source behind the closing one. -/
def readQuoted (q : Quote) : QuotedState → Source → Option (List Char × Source)
  | _, [] => none
  | .digits missing value, m :: s =>
    match hexValue? m.char with
    | none => none
    | some d =>
      let value := value * 16 + d
      if missing ≤ 1 then
        match charOfNumber? value with
        | none => none
        | some c => putBefore [c] (readQuoted q (.text .none) s)
      else readQuoted q (.digits (missing - 1) value) s
  | .text gap, m :: s =>
    if atDocumentBound (m :: s) then none
    else if isBlank m.char then readQuoted q (.text (gap.addBlank m.char)) s
    else if isBreak m.char then readQuoted q (.text (gap.addBreak m.char)) s
    else if m.char == q.char then
      match q, s with
      | .single, n :: s' =>
        if n.char == '\'' then putBefore (gap.text ++ ['\'']) (readQuoted q (.text .none) s')
        else some (gap.text, s)
      | _, _ => some (gap.text, s)
    else if q = .double && m.char == '\\' then
      match s with
      | [] => none
      | n :: s' =>
        if isBreak n.char then putBefore gap.text (readQuoted q (.text (.breaks [] [])) s')
        else
          match escapedChar? n.char, escapeDigits? n.char with
          | some c, _ => putBefore (gap.text ++ [c]) (readQuoted q (.text .none) s')
          | none, some count => putBefore gap.text (readQuoted q (.digits count 0) s')
          | none, none => none
    else putBefore (gap.text ++ [m.char]) (readQuoted q (.text .none) s)

end Outreach.Yaml
