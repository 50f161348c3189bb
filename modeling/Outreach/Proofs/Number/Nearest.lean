import Mathlib.Algebra.Order.Field.Power
import Mathlib.Algebra.Order.Field.Rat
import Mathlib.Data.Nat.Cast.Order.Field
import Mathlib.Data.Rat.Cast.Order
import Mathlib.Tactic.FieldSimp
import Mathlib.Tactic.Linarith
import Mathlib.Tactic.Positivity
import Mathlib.Tactic.Ring
import Outreach.Proofs.Number.Rounding

/-!
# The Nearest Number of the Binary Format

A numeral stands for a rational magnitude, and so does each finite number of the binary format. What
a numeral is read as is the number of the format that is nearest to it, with a tie to the even
mantissa; from half a step above the largest finite number on it is infinite. Writing to decimal
places rounds to whole numbers by the same rule.

The numbers of the format lie on a grid whose steps become coarser with the scale. At the scale of a
magnitude every number of the format lies on the grid of that scale or below the magnitude by more
than the grid's step, so that rounding on this grid alone finds the nearest.

## Main results

* `isRounded_roundHalfEven`: a rounded quotient is rounded; `IsRounded.of_le`: what moves no further
  away from a whole number that was rounded to is **rounded to it again**.
* `Binary64.FitsAt.onGrid_or_farther`: other numbers of the format lie on the grid or farther away.
* `Binary64.isNearest_ofNumeral`: **a numeral is read as the nearest number of the format**.
-/

namespace Outreach

/-! ### Rounding to whole numbers -/

/-- A magnitude is **rounded** to a whole number at most a half away from it; exactly a half away is
only an even one. -/
structure IsRounded (q : ℚ) (n : ℕ) : Prop where
  close : |q - n| ≤ 1 / 2
  even : |q - n| = 1 / 2 → n % 2 = 0

namespace IsRounded

variable {q r : ℚ} {n k : ℕ}

/-- Other whole numbers are a half away or more. -/
theorem half_le (h : IsRounded q n) (hk : k ≠ n) : 1 / 2 ≤ |q - k| := by
  have hclose := abs_le.mp h.close
  rcases Nat.lt_or_gt_of_ne hk with hlt | hgt
  · have hstep : (k : ℚ) + 1 ≤ n := by exact_mod_cast hlt
    exact le_abs.mpr (.inl (by linarith))
  · have hstep : (n : ℚ) + 1 ≤ k := by exact_mod_cast hgt
    exact le_abs.mpr (.inr (by linarith))

/-- No whole number is nearer. -/
theorem le (h : IsRounded q n) (k : ℕ) : |q - n| ≤ |q - k| := by
  by_cases hk : k = n
  · rw [hk]
  · exact h.close.trans (h.half_le hk)

/-- If another whole number is as near, the one that was rounded to is even. -/
theorem even_of_eq (h : IsRounded q n) (hk : k ≠ n) (heq : |q - n| = |q - k|) : n % 2 = 0 :=
  h.even (le_antisymm h.close (heq ▸ h.half_le hk))

/-- A magnitude is rounded to one whole number only. -/
theorem unique (h : IsRounded q n) (h' : IsRounded q k) : k = n := by
  by_contra hne
  have hn := h.even (le_antisymm h.close ((h.half_le hne).trans (h'.le n)))
  have hk := h'.even (le_antisymm h'.close ((h'.half_le (Ne.symm hne)).trans (h.le k)))
  have hclose := abs_le.mp h.close
  have hclose' := abs_le.mp h'.close
  have hle : (k : ℚ) ≤ n + 1 := by linarith
  have hge : (n : ℚ) ≤ k + 1 := by linarith
  have hle' : k ≤ n + 1 := by exact_mod_cast hle
  have hge' : n ≤ k + 1 := by exact_mod_cast hge
  omega

/-- **What is no further away from the whole number is rounded to it again.** -/
theorem of_le (h : IsRounded q n) (hle : |r - n| ≤ |q - n|) : IsRounded r n where
  close := hle.trans h.close
  even heq := h.even (le_antisymm h.close (heq ▸ hle))

end IsRounded

/-- A quotient half-way between two whole numbers is rounded to the even one. -/
theorem roundHalfEven_even {num den : ℕ} (hden : 0 < den)
    (htie : 2 * num = 2 * (den * roundHalfEven num den) + den ∨
      2 * (den * roundHalfEven num den) = 2 * num + den) : roundHalfEven num den % 2 = 0 := by
  have hdiv := Nat.div_add_mod num den
  have hmod := Nat.mod_lt num hden
  by_cases hhalf : 2 * (num % den) = den
  · simp only [roundHalfEven, hhalf, lt_irrefl, if_false]
    split
    · assumption
    · omega
  · -- the quotient is not half-way: it is rounded to the nearer side
    exfalso
    simp only [roundHalfEven] at htie
    split at htie
    · omega
    · rw [if_pos (by omega), Nat.mul_add] at htie
      omega

/-- **A rounded quotient is rounded.** -/
theorem isRounded_roundHalfEven (num : ℕ) {den : ℕ} (hden : 0 < den) :
    IsRounded ((num : ℚ) / den) (roundHalfEven num den) := by
  have hpos : (0 : ℚ) < den := by exact_mod_cast hden
  have habove : (2 : ℚ) * (den * roundHalfEven num den) ≤ 2 * num + den := by
    exact_mod_cast roundHalfEven_le hden
  have hbelow : (2 : ℚ) * num ≤ 2 * (den * roundHalfEven num den) + den := by
    exact_mod_cast le_roundHalfEven hden
  have hdiff : (num : ℚ) / den - roundHalfEven num den =
      (num - den * roundHalfEven num den) / den := by
    field_simp
  constructor
  · rw [hdiff, abs_div, abs_of_pos hpos, div_le_iff₀ hpos, abs_le]
    constructor <;> linarith
  · intro htie
    rw [hdiff, abs_div, abs_of_pos hpos, div_eq_iff hpos.ne'] at htie
    refine roundHalfEven_even hden ?_
    rcases abs_cases ((num : ℚ) - den * roundHalfEven num den) with ⟨habs, -⟩ | ⟨habs, -⟩
    · left
      have heq : (2 : ℚ) * num = 2 * (den * roundHalfEven num den) + den := by linarith
      exact_mod_cast heq
    · right
      have heq : (2 : ℚ) * (den * roundHalfEven num den) = 2 * num + den := by linarith
      exact_mod_cast heq

/-! ### Magnitudes -/

theorem tenPow_cast (n : ℕ) : (tenPow n : ℚ) = 10 ^ n := by
  rw [tenPow_eq, Nat.cast_pow]
  rfl

namespace Numeral

/-- The **magnitude** of a numeral, as an exact rational number. -/
def magnitude (n : Numeral) : ℚ :=
  n.significand * 10 ^ n.exponent

variable (n : Numeral) {k : ℕ}

/-- The magnitude of a numeral is not negative: its sign is kept apart. -/
theorem magnitude_nonneg : 0 ≤ n.magnitude := by
  rw [magnitude]
  positivity

/-- A numeral is no less than its power of ten, unless it is zero. -/
theorem tenPow_le_magnitude (hne : n.significand ≠ 0) (hk : k ≤ n.exponent) :
    (tenPow k : ℚ) ≤ n.magnitude := by
  have hone : (1 : ℚ) ≤ n.significand := by exact_mod_cast Nat.one_le_iff_ne_zero.mpr hne
  calc (tenPow k : ℚ) = 10 ^ (k : ℤ) := by rw [tenPow_cast, zpow_natCast]
    _ ≤ 10 ^ n.exponent := zpow_le_zpow_right₀ (by norm_num) hk
    _ ≤ n.significand * 10 ^ n.exponent := le_mul_of_one_le_left (by positivity) hone

/-- A numeral is less than the power of ten for its binary digits and its exponent. -/
theorem magnitude_mul_tenPow_lt (hk : n.exponent + (n.significand.log2 + 1 : ℕ) ≤ -k) :
    n.magnitude * tenPow k < 1 := by
  have hdigits : n.significand < 10 ^ (n.significand.log2 + 1) :=
    Nat.lt_log2_self.trans_le (Nat.pow_le_pow_left (by decide) _)
  have hdigits' : (n.significand : ℚ) < 10 ^ (n.significand.log2 + 1) := by exact_mod_cast hdigits
  have hten : (10 : ℚ) ≠ 0 := by norm_num
  calc n.magnitude * tenPow k
      < 10 ^ (n.significand.log2 + 1) * 10 ^ n.exponent * tenPow k := by
        have hpos : (0 : ℚ) < tenPow k := by exact_mod_cast tenPow_pos k
        rw [magnitude]
        gcongr
    _ = 10 ^ (n.exponent + (n.significand.log2 + 1 : ℕ) + k) := by
        rw [zpow_add₀ hten, zpow_add₀ hten, zpow_natCast, zpow_natCast, tenPow_cast,
          mul_comm (10 ^ n.exponent)]
    _ ≤ 10 ^ (0 : ℤ) := zpow_le_zpow_right₀ (by norm_num) (by omega)
    _ = 1 := zpow_zero 10

end Numeral

namespace Binary64

/-- The **magnitude** of a finite number, as an exact rational number. -/
def magnitude (mantissa scale : ℕ) : ℚ :=
  mantissa * twoPow scale / unit

/-- A mantissa and a scale are those of a finite **number of the format** if the mantissa fits, is of
full length unless the scale is the least, and the scale is not beyond the last. -/
structure IsInFormat (mantissa scale : ℕ) : Prop where
  mantissa_lt : mantissa < mantissaLimit
  full : scale = 0 ∨ mantissaLimit ≤ 2 * mantissa
  scale_le : scale ≤ maxScale

/-- The number of the format that is **nearest** to a magnitude under a sign. From half a step above
the largest finite number on it is infinite. Below, no finite number is nearer, and if another one
is as near the mantissa is even. -/
inductive IsNearest (negative : Bool) (q : ℚ) : Binary64 → Prop
  | finite {mantissa scale : ℕ} (inFormat : IsInFormat mantissa scale)
      (small : q < overflow / unit)
      (closest : ∀ m s, IsInFormat m s → |q - magnitude mantissa scale| ≤ |q - magnitude m s|)
      (even : ∀ m s, IsInFormat m s → magnitude m s ≠ magnitude mantissa scale →
        |q - magnitude mantissa scale| = |q - magnitude m s| → mantissa % 2 = 0) :
      IsNearest negative q (.finite negative mantissa scale)
  | infinite (large : overflow / unit ≤ q) : IsNearest negative q (.infinite negative)

variable {units q : ℚ} {mantissa scale m s : ℕ} {negative : Bool}

/-- The nearest number bears the sign. -/
theorem IsNearest.isNegative_eq {negative : Bool} {q : ℚ} {x : Binary64}
    (h : IsNearest negative q x) : x.isNegative = negative := by
  cases h with
  | finite => rfl
  | infinite => rfl

theorem unit_pos_rat : (0 : ℚ) < unit := by
  exact_mod_cast unit_pos

theorem twoPow_pos_rat (n : ℕ) : (0 : ℚ) < twoPow n := by
  exact_mod_cast twoPow_pos n

theorem twoPow_succ (n : ℕ) : twoPow (n + 1) = 2 * twoPow n := by
  rw [Nat.add_comm, twoPow_add]
  rfl

/-- Distances between magnitudes are distances in least units. -/
theorem abs_sub_magnitude (q : ℚ) (m s : ℕ) :
    |q - magnitude m s| = |q * unit - m * twoPow s| / unit := by
  have hunit := unit_pos_rat
  rw [magnitude, ← abs_of_pos hunit, ← abs_div, abs_of_pos hunit, sub_div,
    mul_div_cancel_right₀ _ hunit.ne']

/-! ### The grid of a scale -/

/-- A number of least units **fits** at a scale at which its mantissa has full length. -/
structure FitsAt (units : ℚ) (scale : ℕ) : Prop where
  lt : units < mantissaLimit * twoPow scale
  full : scale = 0 ∨ twoPow 52 * twoPow scale ≤ units

/-- A scale is the least one, or a number has a mantissa of full length at it. -/
theorem twoPow_scaleOf_le_floor (floor : ℕ) :
    scaleOf floor = 0 ∨ twoPow 52 * twoPow (scaleOf floor) ≤ floor := by
  rw [scaleOf]
  split
  · exact .inl rfl
  · rename_i hge
    have hne : floor ≠ 0 := by
      rintro rfl
      exact hge (by decide)
    have hle : 2 ^ floor.log2 ≤ floor := Nat.log2_self_le hne
    have hlog : 53 ≤ floor.log2 := (Nat.le_log2 hne).mpr (Nat.not_lt.mp hge)
    have hexponent : 52 + (floor.log2 - 52) = floor.log2 := by omega
    right
    rwa [← twoPow_add, hexponent]

/-- A quotient fits at the scale of its whole part. -/
theorem fitsAt_scaleOf (num : ℕ) {den : ℕ} (hden : 0 < den) :
    FitsAt ((num : ℚ) / den) (scaleOf (num / den)) := by
  have hpos : (0 : ℚ) < den := by exact_mod_cast hden
  constructor
  · rw [div_lt_iff₀ hpos]
    exact_mod_cast (Nat.div_lt_iff_lt_mul hden).mp (lt_twoPow_scaleOf (num / den))
  · rcases twoPow_scaleOf_le_floor (num / den) with hzero | hle
    · exact .inl hzero
    · right
      have hfloor : ((num / den : ℕ) : ℚ) ≤ num / den := Nat.cast_div_le
      refine le_trans ?_ hfloor
      exact_mod_cast hle

/-- Distances from the points of a grid are distances from whole numbers of its steps. -/
theorem abs_sub_mul_step {step : ℚ} (hstep : 0 < step) (units : ℚ) (k : ℕ) :
    |units - k * step| = |units / step - k| * step := by
  conv_rhs => rw [← abs_of_pos hstep, ← abs_mul, abs_of_pos hstep, sub_mul,
    div_mul_cancel₀ _ hstep.ne']

/-- **Numbers of the format lie on the grid of the scale, or farther away** than the point of the
grid that was rounded to. -/
theorem FitsAt.onGrid_or_farther (h : FitsAt units scale)
    (hrounded : IsRounded (units / twoPow scale) mantissa) (hm : m < mantissaLimit) :
    (∃ k : ℕ, m * twoPow s = k * twoPow scale) ∨
      |units - mantissa * twoPow scale| < |units - m * twoPow s| := by
  have hstep := twoPow_pos_rat scale
  rcases Nat.lt_or_ge s scale with hlt | hge
  · -- all numbers of a lower scale lie below the magnitude, and below the least full mantissa
    right
    have hfull := h.full.resolve_left (Nat.ne_zero_of_lt hlt)
    have hbelow : m * twoPow s < twoPow 52 * twoPow scale := by
      calc m * twoPow s < mantissaLimit * twoPow s := Nat.mul_lt_mul_of_pos_right hm (twoPow_pos s)
        _ = twoPow 52 * twoPow (s + 1) := by
            rw [twoPow_succ s, ← Nat.mul_assoc]
            rfl
        _ ≤ twoPow 52 * twoPow scale := Nat.mul_le_mul_left _ (twoPow_le_twoPow hlt)
    have hbelow' : (m : ℚ) * twoPow s < twoPow 52 * twoPow scale := by exact_mod_cast hbelow
    calc |units - mantissa * twoPow scale| ≤ |units - twoPow 52 * twoPow scale| := by
          rw [abs_sub_mul_step hstep, abs_sub_mul_step hstep]
          exact mul_le_mul_of_nonneg_right (hrounded.le _) hstep.le
      _ = units - twoPow 52 * twoPow scale := abs_of_nonneg (sub_nonneg.mpr hfull)
      _ < units - m * twoPow s := sub_lt_sub_left hbelow' units
      _ ≤ |units - m * twoPow s| := le_abs_self _
  · left
    refine ⟨m * twoPow (s - scale), ?_⟩
    rw [Nat.mul_assoc, ← twoPow_add, Nat.sub_add_cancel hge]

/-- No number of the format is nearer than the point of the grid that was rounded to. -/
theorem FitsAt.closest (h : FitsAt units scale)
    (hrounded : IsRounded (units / twoPow scale) mantissa) (hm : m < mantissaLimit) :
    |units - mantissa * twoPow scale| ≤ |units - m * twoPow s| := by
  have hstep := twoPow_pos_rat scale
  rcases h.onGrid_or_farther hrounded hm (s := s) with ⟨k, hk⟩ | hlt
  · have hk' : (m : ℚ) * twoPow s = k * twoPow scale := by exact_mod_cast hk
    rw [hk', abs_sub_mul_step hstep, abs_sub_mul_step hstep]
    exact mul_le_mul_of_nonneg_right (hrounded.le k) hstep.le
  · exact hlt.le

/-- If another number of the format is as near, the point of the grid that was rounded to is an even
one. -/
theorem FitsAt.even (h : FitsAt units scale)
    (hrounded : IsRounded (units / twoPow scale) mantissa) (hm : m < mantissaLimit)
    (hne : m * twoPow s ≠ mantissa * twoPow scale)
    (heq : |units - mantissa * twoPow scale| = |units - m * twoPow s|) : mantissa % 2 = 0 := by
  have hstep := twoPow_pos_rat scale
  rcases h.onGrid_or_farther hrounded hm (s := s) with ⟨k, hk⟩ | hlt
  · have hk' : (m : ℚ) * twoPow s = k * twoPow scale := by exact_mod_cast hk
    rw [hk', abs_sub_mul_step hstep, abs_sub_mul_step hstep] at heq
    refine hrounded.even_of_eq (k := k) ?_ (mul_right_cancel₀ hstep.ne' heq)
    rintro rfl
    exact hne hk
  · exact absurd heq hlt.ne

/-- At a scale at which a number fits it is rounded at most to the limit of mantissas. -/
theorem FitsAt.mantissa_le (h : FitsAt units scale)
    (hrounded : IsRounded (units / twoPow scale) mantissa) : mantissa ≤ mantissaLimit := by
  have hclose := abs_le.mp hrounded.close
  have hlt : units / twoPow scale < mantissaLimit :=
    (div_lt_iff₀ (twoPow_pos_rat scale)).mpr h.lt
  have hlt' : (mantissa : ℚ) < mantissaLimit + 1 := by linarith
  exact Nat.le_of_lt_succ (by exact_mod_cast hlt')

/-- At a scale other than the least it is rounded at least to the least full mantissa. -/
theorem FitsAt.le_mantissa (h : FitsAt units scale)
    (hrounded : IsRounded (units / twoPow scale) mantissa) :
    scale = 0 ∨ mantissaLimit ≤ 2 * mantissa := by
  rcases h.full with hzero | hfull
  · exact .inl hzero
  · right
    have hclose := abs_le.mp hrounded.close
    have hle : twoPow 52 ≤ units / twoPow scale :=
      (le_div_iff₀ (twoPow_pos_rat scale)).mpr hfull
    have hlt : (twoPow 52 : ℚ) < mantissa + 1 := by linarith
    have hlt' : twoPow 52 < mantissa + 1 := by exact_mod_cast hlt
    have hlimit : mantissaLimit = 2 * twoPow 52 := rfl
    omega

/-! ### Into the format -/

/-- A rounded mantissa up to the limit becomes a number of the format that stands for as many least
units, is even if the mantissa is, and is infinite exactly beyond the last scale. -/
theorem exists_ofRounded (negative : Bool) (hmantissa : mantissa ≤ mantissaLimit)
    (hfull : scale = 0 ∨ mantissaLimit ≤ 2 * mantissa) :
    ∃ m s, m * twoPow s = mantissa * twoPow scale ∧ (mantissa % 2 = 0 → m % 2 = 0) ∧
      m < mantissaLimit ∧ (s = 0 ∨ mantissaLimit ≤ 2 * m) ∧
      (m = mantissa ∧ s = scale ∨ mantissa = mantissaLimit ∧ s = scale + 1) ∧
      ofRounded negative mantissa scale = if maxScale < s then infinite negative
        else finite negative m s := by
  rw [ofRounded]
  rcases Nat.lt_or_eq_of_le hmantissa with hlt | rfl
  · exact ⟨mantissa, scale, rfl, id, hlt, hfull, .inl ⟨rfl, rfl⟩, by rw [if_pos hlt]⟩
  · have hhalf : mantissaLimit = 2 * (mantissaLimit / 2) := by decide
    refine ⟨mantissaLimit / 2, scale + 1, ?_, fun _ => by decide, by decide, .inr hhalf.le,
      .inr ⟨rfl, rfl⟩, by rw [if_neg (Nat.lt_irrefl mantissaLimit)]⟩
    rw [twoPow_succ, ← Nat.mul_assoc, Nat.mul_comm _ 2, ← hhalf]

/-- The limit beyond which numbers are infinite, in steps of the last scale but one. -/
theorem overflow_eq : (overflow : ℚ) = (4 * twoPow 52 - 1) * twoPow 2044 := by
  have hodd : twoPow 54 - 1 = 4 * twoPow 52 - 1 := rfl
  have hpos : 1 ≤ 4 * twoPow 52 := by decide
  rw [overflow, hodd]
  push_cast [hpos]
  rfl

/-- Below the last scale numbers are below that limit. -/
theorem FitsAt.lt_overflow (h : FitsAt units scale) (hscale : scale < maxScale) :
    units < overflow := by
  have hstep := twoPow_pos_rat 2044
  have hone : (1 : ℚ) ≤ twoPow 52 := by exact_mod_cast twoPow_pos 52
  have hlimit : (mantissaLimit : ℚ) = 2 * twoPow 52 := by exact_mod_cast twoPow_succ 52
  have hle : (twoPow scale : ℚ) ≤ twoPow 2044 := by
    exact_mod_cast twoPow_le_twoPow (Nat.le_of_lt_succ hscale)
  have hlt := h.lt
  rw [hlimit] at hlt
  rw [overflow_eq]
  nlinarith

/-- Beyond the last scale they are not. -/
theorem FitsAt.overflow_le (h : FitsAt units scale) (hscale : maxScale < scale) :
    overflow ≤ units := by
  have hstep := twoPow_pos_rat 2044
  have hone : (1 : ℚ) ≤ twoPow 52 := by exact_mod_cast twoPow_pos 52
  have hlast : (twoPow maxScale : ℚ) = 2 * twoPow 2044 := by exact_mod_cast twoPow_succ 2044
  have hnext : (twoPow (maxScale + 1) : ℚ) = 2 * twoPow maxScale := by
    exact_mod_cast twoPow_succ maxScale
  have hle : (twoPow (maxScale + 1) : ℚ) ≤ twoPow scale := by
    exact_mod_cast twoPow_le_twoPow hscale
  have hfull := h.full.resolve_left (Nat.ne_zero_of_lt hscale)
  rw [overflow_eq]
  nlinarith

/-- At the last scale the limit is the tie between the largest finite number and the next. -/
theorem overflow_le_iff_tie (units : ℚ) :
    overflow ≤ units ↔ 2 * (twoPow 52 : ℚ) - 1 / 2 ≤ units / twoPow maxScale := by
  have hstep := twoPow_pos_rat 2044
  have hlast : (twoPow maxScale : ℚ) = 2 * twoPow 2044 := by exact_mod_cast twoPow_succ 2044
  rw [overflow_eq, hlast, le_div_iff₀ (by linarith)]
  constructor <;> intro <;> linarith

/-- **A number is rounded beyond the last scale exactly if it is at least half a step above the
largest finite number.** -/
theorem FitsAt.overflow_le_iff (h : FitsAt units scale)
    (hrounded : IsRounded (units / twoPow scale) mantissa)
    (hs : m = mantissa ∧ s = scale ∨ mantissa = mantissaLimit ∧ s = scale + 1)
    (hm : m < mantissaLimit) : overflow ≤ units ↔ maxScale < s := by
  rcases lt_trichotomy scale maxScale with hlt | rfl | hgt
  · exact iff_of_false (not_le.mpr (h.lt_overflow hlt)) (by omega)
  · rw [overflow_le_iff_tie]
    have hclose := abs_le.mp hrounded.close
    rcases hs with ⟨rfl, rfl⟩ | ⟨rfl, rfl⟩
    · -- a tie would have been rounded up, since the largest mantissa is odd
      refine iff_of_false (fun hge => ?_) (Nat.lt_irrefl _)
      have hm' : m + 1 ≤ 2 * twoPow 52 := hm
      have hle : (m : ℚ) + 1 ≤ 2 * twoPow 52 := by exact_mod_cast hm'
      have heven := hrounded.even (le_antisymm hrounded.close (le_abs.mpr (.inl (by linarith))))
      have hge' : 2 * (twoPow 52 : ℚ) ≤ m + 1 := by linarith
      have hge'' : 2 * twoPow 52 ≤ m + 1 := by exact_mod_cast hge'
      omega
    · have hlimit : (mantissaLimit : ℚ) = 2 * twoPow 52 := by exact_mod_cast twoPow_succ 52
      rw [hlimit] at hclose
      exact iff_of_true (by linarith) (Nat.lt_succ_self _)
  · exact iff_of_true (h.overflow_le hgt) (by omega)

/-- **The number nearest to a quotient.** -/
theorem isNearest_nearest (negative : Bool) (num : ℕ) {den : ℕ} (hden : 0 < den) :
    IsNearest negative ((num : ℚ) / den) (nearest negative num den) := by
  have hunit := unit_pos_rat
  have hfits : FitsAt ((num : ℚ) / den * unit) (scaleOf (num * unit / den)) := by
    have hfits' := fitsAt_scaleOf (num * unit) hden
    rwa [Nat.cast_mul, mul_div_right_comm] at hfits'
  have hrounded : IsRounded ((num : ℚ) / den * unit / twoPow (scaleOf (num * unit / den)))
      (roundHalfEven (num * unit) (den * twoPow (scaleOf (num * unit / den)))) := by
    have hrounded' := isRounded_roundHalfEven (num * unit)
      (Nat.mul_pos hden (twoPow_pos (scaleOf (num * unit / den))))
    rwa [Nat.cast_mul, Nat.cast_mul, ← div_div, mul_div_right_comm] at hrounded'
  rw [nearest]
  generalize scaleOf (num * unit / den) = scale at hfits hrounded ⊢
  generalize roundHalfEven (num * unit) (den * twoPow scale) = mantissa at hrounded ⊢
  obtain ⟨m, s, hunits, heven, hlt, hfull, hs, heq⟩ :=
    exists_ofRounded negative (hfits.mantissa_le hrounded) (hfits.le_mantissa hrounded)
  have hunits' : (m : ℚ) * twoPow s = mantissa * twoPow scale := by exact_mod_cast hunits
  have hoverflow := hfits.overflow_le_iff hrounded hs hlt
  rw [heq]
  split
  · rename_i hbeyond
    exact .infinite ((div_le_iff₀ hunit).mpr (hoverflow.mpr hbeyond))
  · rename_i hwithin
    refine .finite ⟨hlt, hfull, Nat.not_lt.mp hwithin⟩ ?_ ?_ ?_
    · exact (lt_div_iff₀ hunit).mpr (not_le.mp fun hge => hwithin (hoverflow.mp hge))
    · intro m' s' h'
      rw [abs_sub_magnitude, abs_sub_magnitude, hunits']
      exact div_le_div_of_nonneg_right (hfits.closest hrounded h'.mantissa_lt) hunit.le
    · intro m' s' h' hne hdist
      rw [abs_sub_magnitude, abs_sub_magnitude, hunits', div_left_inj' hunit.ne'] at hdist
      refine heven (hfits.even hrounded h'.mantissa_lt (fun hsame => hne ?_) hdist)
      have hsame' : (m' : ℚ) * twoPow s' = mantissa * twoPow scale := by exact_mod_cast hsame
      rw [magnitude, magnitude, hunits', hsame']

/-- A magnitude below a half of the least unit is nearest to zero. -/
theorem isNearest_zero (negative : Bool) (hq : 0 ≤ q) (hsmall : q * unit < 1 / 2) :
    IsNearest negative q (finite negative 0 0) := by
  have hunit := unit_pos_rat
  have hunits : 0 ≤ q * unit := mul_nonneg hq hunit.le
  refine .finite ⟨by decide, .inl rfl, by decide⟩ ?_ ?_ fun _ _ _ _ _ => rfl
  · have hone : (1 : ℚ) ≤ overflow := by
      have hone' : 1 ≤ overflow := by decide +kernel
      exact_mod_cast hone'
    rw [lt_div_iff₀ hunit]
    linarith
  · intro m s _
    rw [abs_sub_magnitude, abs_sub_magnitude]
    refine div_le_div_of_nonneg_right ?_ hunit.le
    rw [Nat.cast_zero, zero_mul, sub_zero, abs_of_nonneg hunits]
    -- other numbers of the format are whole numbers of least units
    rcases Nat.eq_zero_or_pos (m * twoPow s) with hzero | hpos
    · have hzero' : (m : ℚ) * twoPow s = 0 := by exact_mod_cast hzero
      rw [hzero', sub_zero, abs_of_nonneg hunits]
    · have hone : (1 : ℚ) ≤ m * twoPow s := by exact_mod_cast hpos
      exact le_abs.mpr (.inr (by linarith))

/-- A numeral with a large exponent is beyond the format. -/
theorem overflow_le_magnitude {n : Numeral} (hne : n.significand ≠ 0) (hlarge : 310 < n.exponent) :
    overflow / unit ≤ n.magnitude := by
  have hlimit : overflow ≤ tenPow 311 * unit := by decide +kernel
  have hlimit' : (overflow : ℚ) ≤ tenPow 311 * unit := by exact_mod_cast hlimit
  calc (overflow : ℚ) / unit ≤ tenPow 311 := (div_le_iff₀ unit_pos_rat).mpr hlimit'
    _ ≤ n.magnitude := n.tenPow_le_magnitude hne (by omega)

/-- A numeral with few digits for its small exponent is below a half of the least unit. -/
theorem magnitude_mul_unit_lt {n : Numeral}
    (hsmall : n.exponent + (n.significand.log2 + 1 : ℕ) < -330) : n.magnitude * unit < 1 / 2 := by
  have hlimit : 2 * unit ≤ tenPow 331 := by decide +kernel
  have hlimit' : 2 * (unit : ℚ) ≤ tenPow 331 := by exact_mod_cast hlimit
  have hlt := n.magnitude_mul_tenPow_lt (k := 331) (by omega)
  have hle := mul_le_mul_of_nonneg_left hlimit' n.magnitude_nonneg
  linarith

/-- **A numeral is read as the nearest number of the format.** -/
theorem isNearest_ofNumeral (n : Numeral) : IsNearest n.negative n.magnitude (ofNumeral n) := by
  rw [ofNumeral]
  split
  · rename_i hzero
    refine isNearest_zero n.negative n.magnitude_nonneg ?_
    rw [Numeral.magnitude, hzero, Nat.cast_zero, zero_mul, zero_mul]
    exact one_half_pos
  · rename_i hne
    split
    · rename_i hlarge
      exact .infinite (overflow_le_magnitude hne hlarge)
    · split
      · rename_i hsmall
        exact isNearest_zero n.negative n.magnitude_nonneg (magnitude_mul_unit_lt hsmall)
      · split
        · rename_i e he
          have hq : n.magnitude = ((n.significand * tenPow e : ℕ) : ℚ) / (1 : ℕ) := by
            rw [Numeral.magnitude, he, Nat.cast_mul, tenPow_cast, Nat.cast_one, div_one]
            exact congrArg _ (zpow_natCast 10 e)
          rw [hq]
          exact isNearest_nearest n.negative _ Nat.one_pos
        · rename_i e he
          have hq : n.magnitude = (n.significand : ℚ) / tenPow (e + 1) := by
            rw [Numeral.magnitude, he, zpow_negSucc, tenPow_cast, div_eq_mul_inv]
          rw [hq]
          exact isNearest_nearest n.negative _ (tenPow_pos _)

/-! ### Back to decimal places -/

/-- A finite number is written to decimal places by rounding in units of the last place. -/
theorem isRounded_toFixed (mantissa scale places : ℕ) :
    IsRounded (magnitude mantissa scale * 10 ^ places) (toFixed mantissa scale places) := by
  have hrounded := isRounded_roundHalfEven (mantissa * twoPow scale * tenPow places) unit_pos
  rwa [Nat.cast_mul, Nat.cast_mul, tenPow_cast, mul_div_right_comm] at hrounded

/-- Finite numbers of the format are more than a half below the magnitudes that are infinite. -/
theorem IsInFormat.magnitude_add_half_lt (h : IsInFormat mantissa scale) :
    magnitude mantissa scale + 1 / 2 < overflow / unit := by
  have hunit := unit_pos_rat
  have hwide : (unit : ℚ) < 2 * twoPow 2044 := by
    have hwide' : unit < 2 * twoPow 2044 := by decide +kernel
    exact_mod_cast hwide'
  have hmantissa : mantissa + 1 ≤ 2 * twoPow 52 := h.mantissa_lt
  have hmantissa' : (mantissa : ℚ) ≤ 2 * twoPow 52 - 1 := by
    rw [le_sub_iff_add_le]
    exact_mod_cast hmantissa
  have hscale : (twoPow scale : ℚ) ≤ 2 * twoPow 2044 := by
    have hscale' : twoPow scale ≤ 2 * twoPow 2044 :=
      (twoPow_le_twoPow h.scale_le).trans_eq (twoPow_succ 2044)
    exact_mod_cast hscale'
  rw [magnitude, overflow_eq, lt_div_iff₀ hunit, add_mul, div_mul_cancel₀ _ hunit.ne']
  -- the powers of two are kept from being evaluated
  generalize (twoPow 2044 : ℚ) = step at *
  generalize (unit : ℚ) = least at *
  calc (mantissa : ℚ) * twoPow scale + 1 / 2 * least
      ≤ (2 * twoPow 52 - 1) * (2 * step) + 1 / 2 * least := by
        gcongr
        exact le_trans (Nat.cast_nonneg _) hmantissa'
    _ < (2 * twoPow 52 - 1) * (2 * step) + 1 / 2 * (2 * step) := by gcongr
    _ = (4 * twoPow 52 - 1) * step := by ring

end Binary64

end Outreach
