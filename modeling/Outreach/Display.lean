import Outreach.Deal.Field
import Outreach.Failure
import Outreach.Number.Fixed
import Outreach.Number.Leading

/-!
# Display of Amounts and Percentages

Records hold plain numbers. Before a message shows them, a *display policy* groups the digits of
amounts and puts a suffix behind percentages. A text that does not start with a number is shown
as it is.
-/

namespace Outreach

/-- A **display policy**: how the fields of a record are shown. Which fields are amounts and which
are percentages belongs to the policy. -/
structure Display where
  /-- Stands between groups of three digits before the point. -/
  groupingSeparator : Char := ','
  /-- Stands behind percentages. -/
  percentSuffix : String := "%"
  /-- At most so many digits stay behind the point. -/
  maxFractionDigits : UInt64 := 3
  /-- Names of the fields that are amounts. -/
  numberFields : List String := Field.amounts.map Field.name
  /-- Names of the fields that are percentages, unless they are amounts. -/
  percentFields : List String := Field.percentages.map Field.name
  deriving DecidableEq, Repr

instance : Inhabited Display := ⟨{}⟩

namespace Display

/-- Digits with the separator between groups of three, counted from the right. -/
def groupDigits (separator : Char) : List Char → List Char
  | [] => []
  | d :: ds =>
    if ds.length % 3 = 0 && !ds.isEmpty then d :: separator :: groupDigits separator ds
    else d :: groupDigits separator ds

/-- Digits without the zeros at their end, which may leave none. -/
def trimZeros (ds : List Char) : List Char :=
  (ds.reverse.dropWhile (· == '0')).reverse

/-- A number with grouped digits, rounded to at most `places` places; zeros at the end of the
fraction are left out, and its point with them. -/
def showNumber (separator : Char) (places : Nat) : Binary64 → List Char
  | .infinite negative => (if negative then ['-'] else []) ++ ['∞']
  | .finite negative mantissa scale =>
    let (whole, fraction) := Binary64.fixedDigits mantissa scale places
    let fraction := trimZeros fraction
    (if negative then ['-'] else []) ++ groupDigits separator whole ++
      if fraction.isEmpty then [] else '.' :: fraction

/-- The number of decimal places that a policy keeps. It never exceeds the limit, whatever the
policy asks for. -/
def places (p : Display) : Nat :=
  min p.maxFractionDigits.toNat Failure.fractionDigitLimit

/-- A text without grouping separators, so that an amount that has been shown can be read again. -/
def ungroup (p : Display) (value : String) : String :=
  String.ofList (value.toList.filter (· != p.groupingSeparator))

/-- Whether a value is shown as it is without a look at its number. -/
def isVerbatim (value : String) : Bool :=
  value.isEmpty || value == noneMark

/-- A value shown as an amount: the number at its front, rounded and grouped. A value without a
number there is shown as it is. -/
def showAmount (p : Display) (value : String) : String :=
  if isVerbatim value then value
  else
    match leadingNumber? (p.ungroup value).toList with
    | none => value
    | some number => String.ofList (showNumber p.groupingSeparator p.places number)

/-- A value shown as a percentage: the suffix follows, the digits stay. -/
def showPercentage (p : Display) (value : String) : String :=
  if isVerbatim value then value
  else if (leadingNumber? value.toList).isSome then value ++ p.percentSuffix
  else value

/-- The digits and points of a percentage; the word for a field left out stays. -/
def barePercentage (value : String) : String :=
  if Text.trim value = noneMark then noneMark
  else String.ofList (value.toList.filter fun c => c.isDigit || c == '.')

/-- The text that is shown for one field. An amount goes before a percentage if a policy names a
field as both; a field that it does not name is shown as it is. -/
def showField (p : Display) (name value : String) : String :=
  if p.numberFields.contains name then p.showAmount value
  else if p.percentFields.contains name then p.showPercentage value
  else value

/-- The display copy of a record: every field with the text that is shown for it. -/
def apply (p : Display) (r : Record) : Record :=
  r.mapValues p.showField

end Display

end Outreach
