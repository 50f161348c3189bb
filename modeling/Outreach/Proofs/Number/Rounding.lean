import Mathlib.Algebra.Group.Nat.Defs
import Outreach.Number.Fixed

/-!
# Decimals Through the Binary Format

A decimal is rounded to a number of the binary format, and this to a number of decimal places. The
first rounding moves it by at most a part of `2 ^ 53`, or by a half of the least unit if that is
more. A decimal of at most fifteen digits, those of the places that are asked for included, stays
nearer than a half of the last place to where it was: the second rounding leads back to it.

All bounds are between whole numbers of the least unit of the format.

## Main results

* `roundHalfEven_eq`: what is nearer than a half is what is rounded to.
* `Binary64.exists_nearest_eq`: the number that is nearest to a quotient **approximates** it.
* `Binary64.Approximates.toFixed_eq`: **rounding to decimal places leads back to a short decimal**.
-/

namespace Outreach

theorem twoPow_eq (n : Nat) : twoPow n = 2 ^ n := rfl

theorem tenPow_eq (n : Nat) : tenPow n = 10 ^ n := rfl

theorem twoPow_pos (n : Nat) : 0 < twoPow n := Nat.two_pow_pos n

/-- The power of two for a sum of exponents is the product of the two powers. -/
theorem twoPow_add (m n : Nat) : twoPow (m + n) = twoPow m * twoPow n := Nat.pow_add 2 m n

/-- Powers of two grow with their exponents. -/
theorem twoPow_le_twoPow {m n : Nat} (h : m ≤ n) : twoPow m ≤ twoPow n :=
  Nat.pow_le_pow_right (by decide) h

theorem tenPow_pos (n : Nat) : 0 < tenPow n := Nat.pow_pos (by decide)

/-- The power of ten for a sum of exponents is the product of the two powers. -/
theorem tenPow_add (m n : Nat) : tenPow (m + n) = tenPow m * tenPow n := Nat.pow_add 10 m n

/-- Powers of ten grow with their exponents. -/
theorem tenPow_le_tenPow {m n : Nat} (h : m ≤ n) : tenPow m ≤ tenPow n :=
  Nat.pow_le_pow_right (by decide) h

/-- A whole number that is nearer than a half to a quotient is what the quotient is rounded to. -/
theorem roundHalfEven_eq {num den n : Nat} (habove : 2 * num < 2 * (den * n) + den)
    (hbelow : 2 * (den * n) < 2 * num + den) : roundHalfEven num den = n := by
  have hden : 0 < den := by
    rcases Nat.eq_zero_or_pos den with rfl | hpos
    · omega
    · exact hpos
  have hle : 2 * (den * roundHalfEven num den) ≤ 2 * num + den := roundHalfEven_le hden
  have hge : 2 * num ≤ 2 * (den * roundHalfEven num den) + den := le_roundHalfEven hden
  have hlt : den * roundHalfEven num den < den * (n + 1) := by
    rw [Nat.mul_add]
    omega
  have hgt : den * n < den * (roundHalfEven num den + 1) := by
    rw [Nat.mul_add]
    omega
  have hlt' := Nat.lt_of_mul_lt_mul_left hlt
  have hgt' := Nat.lt_of_mul_lt_mul_left hgt
  omega

namespace Binary64

variable {num den units mantissa scale : Nat}

/-- The unit is far beyond every mantissa, which is all that most bounds need of it. -/
theorem le_unit : twoPow 60 ≤ unit := by
  rw [unit]
  exact twoPow_le_twoPow (by decide)

theorem unit_pos : 0 < unit :=
  Nat.lt_of_lt_of_le (twoPow_pos 60) le_unit

/-! ### The scale -/

/-- At its scale a number fits into the mantissa. -/
theorem lt_twoPow_scaleOf (floor : Nat) : floor < mantissaLimit * twoPow (scaleOf floor) := by
  rw [scaleOf]
  split
  · rename_i hlt
    rwa [twoPow_eq, Nat.pow_zero, Nat.mul_one]
  · rename_i hge
    have hlt : floor < 2 ^ (floor.log2 + 1) := Nat.lt_log2_self
    have hlog : 53 ≤ floor.log2 := (Nat.le_log2 (by rintro rfl; exact hge (by decide))).mpr
      (Nat.not_lt.mp hge)
    have hexponent : 53 + (floor.log2 - 52) = floor.log2 + 1 := by omega
    rwa [mantissaLimit, ← twoPow_add, hexponent]

/-- The unit of a scale is at most a part of `2 ^ 52`, or the least unit. -/
theorem twoPow_scaleOf_le (floor : Nat) : 2 ^ 52 * twoPow (scaleOf floor) ≤ floor + 2 ^ 52 := by
  rw [scaleOf]
  split
  · rw [twoPow_eq, Nat.pow_zero]
    omega
  · rename_i hge
    have hne : floor ≠ 0 := by
      rintro rfl
      exact hge (by decide)
    have hle : 2 ^ floor.log2 ≤ floor := Nat.log2_self_le hne
    have hlog : 53 ≤ floor.log2 := (Nat.le_log2 hne).mpr (Nat.not_lt.mp hge)
    have hexponent : 52 + (floor.log2 - 52) = floor.log2 := by omega
    rw [twoPow_eq, ← Nat.pow_add, hexponent]
    omega

/-- The scale of a number is below the number of its binary digits. -/
theorem scaleOf_lt {floor size : Nat} (hfloor : floor < twoPow size) (hsize : 0 < size) :
    scaleOf floor < size := by
  rw [scaleOf]
  split
  · exact hsize
  · rename_i hge
    have hne : floor ≠ 0 := by
      rintro rfl
      exact hge (by decide)
    have hlog : floor.log2 < size := (Nat.log2_lt hne).mpr hfloor
    omega

/-! ### Into the format -/

/-- A number of least units **approximates** a quotient if it differs from it by at most a part of
`2 ^ 53` and a half of the least unit. -/
structure Approximates (units num den : Nat) : Prop where
  above : 2 ^ 53 * (den * units) ≤ 2 ^ 53 * (num * unit) + (num * unit + 2 ^ 52 * den)
  below : 2 ^ 53 * (num * unit) ≤ 2 ^ 53 * (den * units) + (num * unit + 2 ^ 52 * den)

/-- A quotient that is rounded at a scale with small steps is approximated. -/
theorem approximates_roundHalfEven (hden : 0 < den)
    (hsteps : 2 ^ 52 * twoPow scale ≤ num * unit / den + 2 ^ 52) :
    Approximates (roundHalfEven (num * unit) (den * twoPow scale) * twoPow scale) num den := by
  have hpos : 0 < den * twoPow scale := Nat.mul_pos hden (twoPow_pos scale)
  have hle := @roundHalfEven_le (num * unit) _ hpos
  have hge := @le_roundHalfEven (num * unit) _ hpos
  have hunits : den * (roundHalfEven (num * unit) (den * twoPow scale) * twoPow scale) =
      den * twoPow scale * roundHalfEven (num * unit) (den * twoPow scale) := by
    rw [Nat.mul_comm (roundHalfEven _ _), Nat.mul_assoc]
  have hstep : 2 ^ 52 * (den * twoPow scale) ≤ num * unit + 2 ^ 52 * den := by
    calc 2 ^ 52 * (den * twoPow scale) = den * (2 ^ 52 * twoPow scale) := Nat.mul_left_comm ..
      _ ≤ den * (num * unit / den + 2 ^ 52) := Nat.mul_le_mul_left _ hsteps
      _ = den * (num * unit / den) + 2 ^ 52 * den := by rw [Nat.mul_add, Nat.mul_comm den (2 ^ 52)]
      _ ≤ num * unit + 2 ^ 52 * den := Nat.add_le_add_right (Nat.mul_div_le _ _) _
  constructor
  · rw [hunits]
    omega
  · rw [hunits]
    omega

/-- Rounding at a scale at which a quotient fits into the mantissa goes at most up to the limit of
mantissas. -/
theorem roundHalfEven_le_mantissaLimit (hden : 0 < den)
    (hfits : num / den < mantissaLimit * twoPow scale) :
    roundHalfEven num (den * twoPow scale) ≤ mantissaLimit := by
  have hpos : 0 < den * twoPow scale := Nat.mul_pos hden (twoPow_pos scale)
  have hle := @roundHalfEven_le num _ hpos
  have hnum : num < den * twoPow scale * mantissaLimit := by
    have hlt := (Nat.div_lt_iff_lt_mul hden).mp hfits
    rwa [Nat.mul_comm, Nat.mul_comm mantissaLimit, ← Nat.mul_assoc] at hlt
  have hlt : den * twoPow scale * roundHalfEven num (den * twoPow scale) <
      den * twoPow scale * (mantissaLimit + 1) := by
    rw [Nat.mul_add]
    omega
  exact Nat.le_of_lt_succ (Nat.lt_of_mul_lt_mul_left hlt)

/-- A mantissa up to the limit stands for as many least units as before when it is halved. -/
theorem exists_ofRounded_eq (negative : Bool) (hmantissa : mantissa ≤ mantissaLimit)
    (hscale : scale < maxScale) :
    ∃ mantissa' scale', ofRounded negative mantissa scale = finite negative mantissa' scale' ∧
      mantissa' * twoPow scale' = mantissa * twoPow scale := by
  rw [ofRounded]
  rcases Nat.lt_or_eq_of_le hmantissa with hlt | rfl
  · refine ⟨mantissa, scale, ?_, rfl⟩
    rw [if_pos hlt]
    exact if_neg (Nat.lt_asymm hscale)
  · refine ⟨mantissaLimit / 2, scale + 1, ?_, ?_⟩
    · rw [if_neg (Nat.lt_irrefl mantissaLimit)]
      exact if_neg (Nat.not_lt.mpr hscale)
    · have hhalf : mantissaLimit / 2 * twoPow 1 = mantissaLimit := by decide
      rw [Nat.add_comm scale, twoPow_add, ← Nat.mul_assoc, hhalf]

/-- **The number that is nearest to a quotient approximates it**, unless the quotient is so large
that the number is infinite. -/
theorem exists_nearest_eq (negative : Bool) (hden : 0 < den)
    (hscale : scaleOf (num * unit / den) < maxScale) :
    ∃ mantissa scale, nearest negative num den = finite negative mantissa scale ∧
      Approximates (mantissa * twoPow scale) num den := by
  have happrox := approximates_roundHalfEven hden (twoPow_scaleOf_le (num * unit / den))
  have hlimit := roundHalfEven_le_mantissaLimit hden (lt_twoPow_scaleOf (num * unit / den))
  obtain ⟨mantissa, scale, heq, hunits⟩ := exists_ofRounded_eq negative hlimit hscale
  rw [← hunits] at happrox
  exact ⟨mantissa, scale, heq, happrox⟩

/-- A decimal with a significand of up to fifteen digits and up to fifteen places is approximated. -/
theorem exists_ofNumeral_eq {n : Numeral} {decimals : Nat} (hexponent : n.exponent = -decimals)
    (hdecimals : decimals ≤ 15) (hsignificand : n.significand < tenPow 15) :
    ∃ mantissa scale, ofNumeral n = finite n.negative mantissa scale ∧
      Approximates (mantissa * twoPow scale) n.significand (tenPow decimals) := by
  have hpos := tenPow_pos decimals
  have hscale : scaleOf (n.significand * unit / tenPow decimals) < maxScale := by
    have hfloor : n.significand * unit / tenPow decimals < twoPow (50 + 1074) := by
      calc n.significand * unit / tenPow decimals ≤ n.significand * unit := Nat.div_le_self ..
        _ < tenPow 15 * unit := Nat.mul_lt_mul_of_pos_right hsignificand unit_pos
        _ ≤ twoPow 50 * unit := Nat.mul_le_mul_right _ (by decide)
        _ = twoPow (50 + 1074) := by rw [twoPow_add, unit]
    exact Nat.lt_of_lt_of_le (scaleOf_lt hfloor (by decide)) (by decide)
  rw [ofNumeral]
  split
  · rename_i hzero
    refine ⟨0, 0, rfl, ?_⟩
    rw [hzero]
    constructor <;> simp
  · rw [if_neg (by omega), if_neg (by omega)]
    obtain ⟨mantissa, scale, heq, happrox⟩ := exists_nearest_eq n.negative hpos hscale
    refine ⟨mantissa, scale, ?_, happrox⟩
    rw [← heq, hexponent]
    cases decimals with
    | zero => exact congrArg (nearest n.negative · 1) (Nat.mul_one n.significand)
    | succ d => rfl

/-! ### Back to decimal places -/

/-- **Rounding to decimal places leads back to a short decimal**: the error of the format, brought
to the last place, is less than a half of it. -/
theorem Approximates.toFixed_eq {significand decimals places : Nat}
    (h : Approximates (mantissa * twoPow scale) significand (tenPow decimals))
    (hdecimals : decimals ≤ places) (hplaces : places ≤ 15)
    (hsmall : significand * tenPow (places - decimals) < tenPow 15) :
    toFixed mantissa scale places = significand * tenPow (places - decimals) := by
  have hpow : tenPow decimals * tenPow (places - decimals) = tenPow places := by
    rw [← tenPow_add, Nat.add_sub_cancel' hdecimals]
  have hunits : tenPow decimals * (mantissa * twoPow scale) * tenPow (places - decimals) =
      mantissa * twoPow scale * tenPow places := by
    rw [← hpow, Nat.mul_right_comm, Nat.mul_comm]
  have htarget : significand * unit * tenPow (places - decimals) =
      unit * (significand * tenPow (places - decimals)) := by
    rw [Nat.mul_comm significand, Nat.mul_assoc]
  have habove := Nat.mul_le_mul_right (tenPow (places - decimals)) h.above
  have hbelow := Nat.mul_le_mul_right (tenPow (places - decimals)) h.below
  simp only [Nat.add_mul, Nat.mul_assoc (2 ^ 53), Nat.mul_assoc (2 ^ 52), hunits, htarget, hpow]
    at habove hbelow
  -- both errors are small: that of the format by the number of digits, that of the least unit
  have hrelative : unit * (significand * tenPow (places - decimals)) ≤ unit * tenPow 15 :=
    Nat.mul_le_mul_left unit (Nat.le_of_lt hsmall)
  have habsolute : tenPow places ≤ tenPow 15 := tenPow_le_tenPow hplaces
  have hunit : 2 ^ 60 ≤ unit := le_unit
  rw [tenPow_eq 15] at hrelative habsolute
  rw [toFixed]
  exact roundHalfEven_eq (by omega) (by omega)

end Binary64

end Outreach
