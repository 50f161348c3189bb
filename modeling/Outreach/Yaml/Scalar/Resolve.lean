import Outreach.Number.Binary64
import Outreach.Yaml.Node

/-!
# What Plain Scalars Mean

A plain scalar that is written as a null, a boolean or a number is one; any other is a text. Whole
numbers are limited to 64 bits; up to 128 bits they are refused, and beyond that they are read as
floating-point numbers. Digits behind a zero are a text.
-/

namespace Outreach.Yaml

/-- A **number**: a whole one of any size that is kept, a binary one, or none at all. -/
inductive Number where
  | integer (n : Int)
  | float (x : Binary64)
  | notANumber
  deriving DecidableEq, Repr

/-- What a plain scalar means. Quoted scalars are not asked. -/
inductive Meaning where
  | null
  | bool (b : Bool)
  | number (n : Number)
  | text
  deriving DecidableEq, Repr

/-- Whether a text is one of the spellings of null, the empty one apart. -/
def isNull (cs : List Char) : Bool :=
  ["null", "Null", "NULL", "~"].contains (String.ofList cs)

/-- The boolean that a text spells, in one of three spellings each. Words such as `yes` are texts.
-/
def boolOf? (cs : List Char) : Option Bool :=
  if ["true", "True", "TRUE"].contains (String.ofList cs) then some true
  else if ["false", "False", "FALSE"].contains (String.ofList cs) then some false
  else none

/-- A number with one more digit behind it, in a base of at most sixteen. -/
def addDigit? (base n : Nat) (c : Char) : Option Nat :=
  (hexValue? c).bind fun d => if d < base then some (base * n + d) else none

/-- The number that digits spell in a base of at most sixteen. -/
def natOf? (base : Nat) (cs : List Char) : Option Nat :=
  if cs.isEmpty then none else cs.foldlM (addDigit? base) 0

/-- A text without a sign at its front, of which at most one is dropped. -/
def dropSign : List Char → List Char
  | '+' :: cs => cs
  | '-' :: cs => cs
  | cs => cs

/-- Whether a text is digits behind a zero. Such a text is no number. -/
def isZeroPadded (cs : List Char) : Bool :=
  match dropSign cs with
  | '0' :: d :: ds => (d :: ds).all Char.isDigit
  | _ => false

/-- The whole number without a minus that a text spells, with the mark of its base. -/
def unsignedOf? (cs : List Char) : Option Nat :=
  let digits :=
    match cs with
    | '+' :: rest => rest
    | _ => cs
  match digits with
  | '0' :: 'x' :: rest => natOf? 16 rest
  | '0' :: 'o' :: rest => natOf? 8 rest
  | '0' :: 'b' :: rest => natOf? 2 rest
  | _ => if isZeroPadded cs then none else natOf? 10 digits

/-- The size of the whole number with a minus that a text spells. -/
def negatedOf? (cs : List Char) : Option Nat :=
  match cs with
  | '-' :: '0' :: 'x' :: rest => natOf? 16 rest
  | '-' :: '0' :: 'o' :: rest => natOf? 8 rest
  | '-' :: '0' :: 'b' :: rest => natOf? 2 rest
  | '-' :: rest => if isZeroPadded cs then none else natOf? 10 rest
  | _ => none

/-- The floating-point number that a text spells. One beyond the largest is a text. -/
def floatOf? (cs : List Char) : Option Number :=
  let unsigned :=
    match cs with
    | '+' :: rest => if rest.head? == some '+' || rest.head? == some '-' then none else some rest
    | _ => some cs
  match unsigned with
  | none => none
  | some cs' =>
    if [".inf", ".Inf", ".INF"].contains (String.ofList cs') then
      some (.float (.infinite false))
    else if ["-.inf", "-.Inf", "-.INF"].contains (String.ofList cs) then
      some (.float (.infinite true))
    else if [".nan", ".NaN", ".NAN"].contains (String.ofList cs) then some .notANumber
    else
      match (Numeral.ofText? cs').map Binary64.ofNumeral with
      | some (.finite negative mantissa scale) => some (.float (.finite negative mantissa scale))
      | _ => none

/-- The whole number that a text spells; `some none` if it is refused for its size. -/
def integerOf? (cs : List Char) : Option (Option Number) :=
  match unsignedOf? cs, negatedOf? cs with
  | some n, _ =>
    if n < UInt64.size then some (some (.integer n)) else if n < twoPow 128 then some none else none
  | none, some n =>
    if n ≤ twoPow 63 then some (some (.integer (-n)))
    else if n ≤ twoPow 127 then some none else none
  | none, none => none

/-- The meaning of a plain scalar, unless it is a number that is refused. -/
def meaningOf? (cs : List Char) : Option Meaning :=
  if cs.isEmpty || isNull cs then some .null
  else
    match boolOf? cs with
    | some b => some (.bool b)
    | none =>
      match integerOf? cs with
      | some n => n.map .number
      | none =>
        match if isZeroPadded cs then none else floatOf? cs with
        | some x => some (.number x)
        | none => some .text

end Outreach.Yaml
