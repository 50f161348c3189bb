import Outreach.Number.Binary64

/-!
# Fixed-Point Digits

The digits of a binary number rounded to a given number of decimal places, exactly: a tie goes to
the even last digit.
-/

namespace Outreach.Binary64

/-- A finite magnitude in units of the last of `places` decimal places, rounded. -/
def toFixed (mantissa scale places : Nat) : Nat :=
  roundHalfEven (mantissa * twoPow scale * tenPow places) unit

/-- The last `places` digits of a number, zeros in front included. -/
def lastDigits (places n : Nat) : List Char :=
  let digits := Nat.toDigits 10 (n % tenPow places)
  if places = 0 then [] else List.replicate (places - digits.length) '0' ++ digits

/-- The digits before the point and those after it, as many of these as there are places. -/
def fixedDigits (mantissa scale places : Nat) : List Char × List Char :=
  let n := toFixed mantissa scale places
  (Nat.toDigits 10 (n / tenPow places), lastDigits places n)

end Outreach.Binary64
