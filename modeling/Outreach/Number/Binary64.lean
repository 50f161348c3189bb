import Outreach.Number.Numeral

/-!
# Binary Floating-Point Numbers

Numbers of the 64-bit binary format, held as exact values: a finite number is a sign and
`mantissa * 2 ^ scale / 2 ^ 1074`. A decimal numeral stands for the nearest such number; a tie
goes to the even mantissa, and numbers beyond the largest become infinite.

## Main results

* `roundHalfEven_le`, `le_roundHalfEven`: rounding a quotient moves it by at most a half.
-/

namespace Outreach

/-- The whole number nearest to a quotient; a tie goes to the even one. -/
def roundHalfEven (num den : Nat) : Nat :=
  let quotient := num / den
  let twice := 2 * (num % den)
  if twice < den then quotient
  else if den < twice then quotient + 1
  else if quotient % 2 = 0 then quotient
  else quotient + 1

/-- A rounded quotient lies at most a half above the quotient. -/
theorem roundHalfEven_le {num den : Nat} (h : 0 < den) :
    2 * (den * roundHalfEven num den) ≤ 2 * num + den := by
  have hdiv := Nat.div_add_mod num den
  have hmod := Nat.mod_lt num h
  simp only [roundHalfEven]
  split
  · omega
  · split
    · rw [Nat.mul_add]
      omega
    · split
      · omega
      · rw [Nat.mul_add]
        omega

/-- A rounded quotient lies at most a half below the quotient. -/
theorem le_roundHalfEven {num den : Nat} (h : 0 < den) :
    2 * num ≤ 2 * (den * roundHalfEven num den) + den := by
  have hdiv := Nat.div_add_mod num den
  have hmod := Nat.mod_lt num h
  simp only [roundHalfEven]
  split
  · omega
  · split
    · rw [Nat.mul_add]
      omega
    · split
      · omega
      · rw [Nat.mul_add]
        omega

/-- A power of two, in a form that means the same whatever instances for powers are in scope. -/
def twoPow (n : Nat) : Nat := Nat.pow 2 n

/-- A power of ten, in a form that means the same whatever instances for powers are in scope. -/
def tenPow (n : Nat) : Nat := Nat.pow 10 n

/-- A **number of the 64-bit binary format**, not-a-number apart. The finite number with the given
mantissa and scale is `mantissa * 2 ^ scale / 2 ^ 1074`. -/
inductive Binary64 where
  | finite (negative : Bool) (mantissa scale : Nat)
  | infinite (negative : Bool)
  deriving DecidableEq, Repr

namespace Binary64

/-- Mantissas lie below this power of two, so they have at most 53 binary digits. -/
def mantissaLimit : Nat := twoPow 53

/-- The scale of the largest finite numbers. What is too large for it is rounded to infinity. -/
def maxScale : Nat := 2045

/-- The numerator over `unit` of the least scale is one: numbers are whole multiples of one part
in `unit`. -/
def unit : Nat := twoPow 1074

/-- The least magnitude that is rounded to infinity, in least units. -/
def overflow : Nat := (twoPow 54 - 1) * twoPow 2044

/-- Whether the sign is a minus, which zero and infinity may bear too. -/
def isNegative : Binary64 → Bool
  | finite negative _ _ => negative
  | infinite negative => negative

/-- The scale at which a number of at least `floor` least units has a mantissa of full length. -/
def scaleOf (floor : Nat) : Nat :=
  if floor < mantissaLimit then 0 else floor.log2 - 52

/-- The number of a rounded mantissa at its scale. A mantissa that has reached the limit is halved
at the next scale; beyond the last scale the number is infinite. -/
def ofRounded (negative : Bool) (mantissa scale : Nat) : Binary64 :=
  let (mantissa, scale) :=
    if mantissa < mantissaLimit then (mantissa, scale) else (mantissa / 2, scale + 1)
  if maxScale < scale then infinite negative else finite negative mantissa scale

/-- The number nearest to a quotient, with a tie going to the even mantissa, or infinity if it is
too large. -/
def nearest (negative : Bool) (num den : Nat) : Binary64 :=
  let scale := scaleOf (num * unit / den)
  ofRounded negative (roundHalfEven (num * unit) (den * twoPow scale)) scale

/-- The number nearest to a numeral. An exponent so large or so small that the result can only be
infinite or zero is not multiplied out. -/
def ofNumeral (n : Numeral) : Binary64 :=
  if n.significand = 0 then finite n.negative 0 0
  else if 310 < n.exponent then infinite n.negative
  else if n.exponent + (n.significand.log2 + 1 : Nat) < -330 then finite n.negative 0 0
  else
    match n.exponent with
    | .ofNat e => nearest n.negative (n.significand * tenPow e) 1
    | .negSucc e => nearest n.negative n.significand (tenPow (e + 1))

/-- The 64 bits of the interchange format: a sign, eleven bits of exponent and 52 of mantissa. -/
def toBits : Binary64 → Nat
  | finite negative mantissa scale =>
    (if negative then twoPow 63 else 0) +
      if mantissa < twoPow 52 then mantissa
      else (scale + 1) * twoPow 52 + (mantissa - twoPow 52)
  | infinite negative => (if negative then twoPow 63 else 0) + 2047 * twoPow 52

end Binary64

end Outreach
