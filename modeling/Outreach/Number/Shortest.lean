import Outreach.Number.Binary64

/-!
# Shortest Digits

A binary number is written with the fewest decimal digits that read back as it; of several such
decimals the nearest is taken, and of two that are equally near the one with an even last digit. All
comparisons are between whole numbers, over four times the least unit of the format, so that the
halves of the gaps to the neighbours are whole too.
-/

namespace Outreach.Binary64

/-- A decimal: `digits * 10 ^ exponent`. One number has many, which differ in zeros at the end of
the digits. -/
structure Decimal where
  digits : Nat
  exponent : Int
  deriving DecidableEq, Repr

/-- A finite magnitude with the ends of the interval that rounds to it, in quarters of the least
unit. The ends belong to the interval exactly if `closed`. -/
structure Interval where
  low : Nat
  value : Nat
  high : Nat
  closed : Bool
  deriving DecidableEq, Repr

/-- The interval of a finite magnitude. Below a power of two the gap is half as wide. -/
def intervalOf (mantissa scale : Nat) : Interval :=
  let value := 4 * mantissa * twoPow scale
  let below := if mantissa = twoPow 52 ∧ 0 < scale then twoPow scale else 2 * twoPow scale
  ⟨value - below, value, value + 2 * twoPow scale, mantissa % 2 = 0⟩

/-- A number of quarters of the least unit and a decimal, both over one denominator. -/
def alignTo (quarters digits : Nat) (exponent : Int) : Nat × Nat :=
  match exponent with
  | .ofNat e => (quarters, digits * tenPow e * (4 * unit))
  | .negSucc e => (quarters * tenPow (e + 1), digits * (4 * unit))

/-- Whether a decimal lies in an interval, whose ends count if it is closed. -/
def Interval.contains (i : Interval) (digits : Nat) (exponent : Int) : Bool :=
  let (low, d) := alignTo i.low digits exponent
  let (high, _) := alignTo i.high digits exponent
  if i.closed then low ≤ d && d ≤ high else low < d && d < high

/-- The distance of a decimal from the middle of an interval, in units that depend on the exponent
alone. -/
def Interval.distance (i : Interval) (digits : Nat) (exponent : Int) : Nat :=
  let (v, d) := alignTo i.value digits exponent
  (v - d) + (d - v)

/-- Of the two decimals with a given exponent around a magnitude, whether the one below is nearer. A
tie goes to the even one. -/
def Interval.prefersBelow (i : Interval) (below : Nat) (exponent : Int) : Bool :=
  let distance := i.distance below exponent
  let other := i.distance (below + 1) exponent
  distance < other || (distance == other && below % 2 == 0)

/-- The decimal with a given exponent that is nearest to a magnitude, if it reads back. -/
def Interval.onGrid? (i : Interval) (exponent : Int) : Option Decimal :=
  let below :=
    match exponent with
    | .ofNat e => i.value / (tenPow e * (4 * unit))
    | .negSucc e => i.value * tenPow (e + 1) / (4 * unit)
  let hitBelow := i.contains below exponent
  let hitAbove := i.contains (below + 1) exponent
  if hitBelow && (!hitAbove || i.prefersBelow below exponent) then
    some ⟨below, exponent⟩
  else if hitAbove then some ⟨below + 1, exponent⟩
  else none

/-- The first decimal that reads back, on grids that become finer by a tenth at each step. -/
def Interval.firstOnGrid (i : Interval) (exponent : Int) : Nat → Decimal
  | 0 => ⟨0, 0⟩
  | steps + 1 => (i.onGrid? exponent).getD (i.firstOnGrid (exponent - 1) steps)

/-- The coarsest grid that is tried: no finite magnitude reaches its step. -/
def coarsest : Int := 309

/-- A decimal without zeros at the end of its digits, which go into the exponent. The steps bound
the recursion. -/
def Decimal.trim (d : Decimal) : Nat → Decimal
  | 0 => d
  | steps + 1 =>
    if d.digits % 10 = 0 ∧ d.digits ≠ 0 then (⟨d.digits / 10, d.exponent + 1⟩ : Decimal).trim steps
    else d

/-- The shortest decimal that reads back as a finite magnitude, among several the nearest to it. -/
def shortest (mantissa scale : Nat) : Decimal :=
  if mantissa = 0 then ⟨0, 0⟩
  else
    let d := (intervalOf mantissa scale).firstOnGrid coarsest 640
    d.trim (Nat.toDigits 10 d.digits).length

end Outreach.Binary64
