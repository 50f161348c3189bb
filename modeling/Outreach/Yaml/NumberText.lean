import Outreach.Number.Shortest
import Outreach.Yaml.Scalar.Resolve

/-!
# The Text of a Number

Whole numbers are written in decimal digits. A floating-point number is written with its shortest
digits and always shows that it is one: by a point, or by an exponent where the point would lie far
from the digits.
-/

namespace Outreach.Yaml

/-- How floating-point numbers are laid out: up to which size the point is shown where it is. -/
structure FloatLayout where
  /-- A number with so many digits before the point, or fewer, has no exponent. -/
  mostWhole : Int
  /-- A number with fewer zeros than this behind the point has no exponent. -/
  zeros : Int

/-- Up to sixteen digits before the point, and up to four zeros behind it. -/
def floatLayout : FloatLayout := ⟨16, 5⟩

/-- The digits of a number as text, without zeros in front. -/
def digitsOf (n : Nat) : List Char :=
  Nat.toDigits 10 n

/-- A decimal with a point or an exponent, by its size. One with a point has a digit on either
side of it. -/
def FloatLayout.write (f : FloatLayout) (d : Binary64.Decimal) : List Char :=
  let digits := digitsOf d.digits
  let point : Int := digits.length + d.exponent
  if 0 ≤ d.exponent ∧ point ≤ f.mostWhole then
    digits ++ List.replicate d.exponent.toNat '0' ++ ['.', '0']
  else if 0 < point ∧ point ≤ f.mostWhole then
    digits.take point.toNat ++ '.' :: digits.drop point.toNat
  else if -f.zeros < point ∧ point ≤ 0 then
    '0' :: '.' :: List.replicate (-point).toNat '0' ++ digits
  else
    let exponent := point - 1
    let mark := 'e' :: (if exponent < 0 then ['-'] else []) ++ digitsOf exponent.natAbs
    match digits with
    | [] => mark
    | [d] => d :: mark
    | d :: ds => d :: '.' :: ds ++ mark

/-- The text of a number as records keep it. Infinity and what is no number have words of their
own. -/
def Number.text : Number → List Char
  | .integer n => (if n < 0 then ['-'] else []) ++ digitsOf n.natAbs
  | .float (.finite negative mantissa scale) =>
    (if negative then ['-'] else []) ++ floatLayout.write (Binary64.shortest mantissa scale)
  | .float (.infinite negative) => (if negative then ['-'] else []) ++ ".inf".toList
  | .notANumber => ".nan".toList

end Outreach.Yaml
