import Outreach.Proofs.Display.Amounts
import Outreach.Proofs.Number.Leading

/-!
# Amounts Are Rounded Once

Any text that starts with a number is shown as a plain amount with separators: the number of the
binary format that was read, rounded to the places of the policy. What is shown starts with a number
again. Shown once more it stays as it is: the number that is read then is at least as near to the
amount as the first one was, so that it is rounded to the same amount.

## Main results

* `CanonicalAmount.ofFinite`: the plain amount that a finite number is rounded to.
* `CanonicalAmount.showNumber_ofNumeral`: reading this amount and **rounding again leads back to
  it**.
* `Display.showAmount_isShown`: **what is shown for any text**.
* `Display.showAmount_showAmount`: showing an amount that is shown already **changes nothing**.
-/

namespace Outreach

/-! ### The amount that a number is rounded to -/

namespace Display

/-- Digits are those without the zeros at their end, and these zeros. -/
theorem exists_trimZeros_append (ds : List Char) :
    ∃ count, trimZeros ds ++ List.replicate count '0' = ds := by
  have hzeros : ds.reverse.takeWhile (· == '0') =
      List.replicate (ds.reverse.takeWhile (· == '0')).length '0' :=
    List.eq_replicate_iff.mpr ⟨rfl, fun c hc => by simpa using List.mem_takeWhile_imp hc⟩
  refine ⟨(ds.reverse.takeWhile (· == '0')).length, ?_⟩
  rw [trimZeros, ← List.reverse_replicate, ← hzeros, ← List.reverse_append,
    List.takeWhile_append_dropWhile, List.reverse_reverse]

/-- No zero is left at the end. -/
theorem getLast?_trimZeros (ds : List Char) : (trimZeros ds).getLast? ≠ some '0' := by
  intro h
  rw [trimZeros, List.getLast?_reverse] at h
  have hnot := List.head?_dropWhile_not (· == '0') ds.reverse
  rw [h] at hnot
  exact absurd hnot (by decide)

end Display

namespace CanonicalAmount

/-- The number that the digits of an amount denote, its sign aside. -/
def magnitude (a : CanonicalAmount) : ℚ :=
  Numeral.natOfDigits a.whole + Numeral.natOfDigits a.fraction / 10 ^ a.fraction.length

/-- All digits together count units of the last place. -/
theorem magnitude_eq (a : CanonicalAmount) :
    a.magnitude = Numeral.natOfDigits (a.whole ++ a.fraction) / 10 ^ a.fraction.length := by
  rw [magnitude, Numeral.natOfDigits_append]
  push_cast [tenPow_cast]
  field_simp

/-- A canonical amount is as large as the numeral that it is written as. -/
theorem magnitude_numeral (a : CanonicalAmount) : a.numeral.magnitude = a.magnitude := by
  rw [magnitude_eq, Numeral.magnitude, numeral, zpow_neg, zpow_natCast, div_eq_mul_inv]

/-- The plain amount that a finite number is **rounded** to. -/
def ofFinite (negative : Bool) (mantissa scale places : ℕ) : CanonicalAmount where
  negative := negative
  whole := (Binary64.fixedDigits mantissa scale places).1
  fraction := Display.trimZeros (Binary64.fixedDigits mantissa scale places).2
  whole_digits := fun _ => Numeral.isDigit_of_mem_toDigits
  whole_ne_nil := Nat.toDigits_ne_nil
  whole_front := Numeral.toDigits_eq_of_head?
  fraction_digits := by
    intro d hd
    obtain ⟨count, heq⟩ :=
      Display.exists_trimZeros_append (Binary64.fixedDigits mantissa scale places).2
    have hmem : d ∈ (Binary64.fixedDigits mantissa scale places).2 :=
      heq ▸ List.mem_append_left _ hd
    exact Binary64.isDigit_of_mem_lastDigits hmem
  fraction_back := Display.getLast?_trimZeros _

variable {negative : Bool} {mantissa scale places : ℕ}

/-- The amount with the zeros that are left out has as many digits behind the point as are asked
for. -/
theorem exists_zeros_ofFinite (negative : Bool) (mantissa scale places : ℕ) :
    ∃ count, (ofFinite negative mantissa scale places).fraction ++ List.replicate count '0' =
      (Binary64.fixedDigits mantissa scale places).2 ∧
        (ofFinite negative mantissa scale places).fraction.length + count = places := by
  obtain ⟨count, heq⟩ :=
    Display.exists_trimZeros_append (Binary64.fixedDigits mantissa scale places).2
  refine ⟨count, heq, ?_⟩
  have hlength : (Binary64.fixedDigits mantissa scale places).2.length = places :=
    Binary64.length_lastDigits _ _
  have hsum := congrArg List.length heq
  rwa [List.length_append, List.length_replicate, hlength] at hsum

/-- A number that is rounded to some places has no more digits behind its point. -/
theorem length_fraction_ofFinite :
    (ofFinite negative mantissa scale places).fraction.length ≤ places := by
  obtain ⟨count, -, hlength⟩ := exists_zeros_ofFinite negative mantissa scale places
  omega

/-- In units of the last place the amount is the rounded number. -/
theorem magnitude_ofFinite : (ofFinite negative mantissa scale places).magnitude =
    Binary64.toFixed mantissa scale places / 10 ^ places := by
  obtain ⟨count, heq, hlength⟩ := exists_zeros_ofFinite negative mantissa scale places
  have hpow : (10 : ℚ) ^ places =
      10 ^ (ofFinite negative mantissa scale places).fraction.length * tenPow count := by
    rw [tenPow_cast, ← pow_add, hlength]
  have hcount : (tenPow count : ℚ) ≠ 0 := by exact_mod_cast (tenPow_pos count).ne'
  rw [← Binary64.natOfDigits_fixedDigits, ← heq, ← List.append_assoc,
    Numeral.natOfDigits_append_zeros, hpow, Nat.cast_mul, mul_div_mul_right _ _ hcount]
  exact magnitude_eq _

/-- A finite number is shown as the amount that it is rounded to. -/
theorem showNumber_ofFinite (separator : Char) (negative : Bool) (mantissa scale places : ℕ) :
    Display.showNumber separator places (.finite negative mantissa scale) =
      (ofFinite negative mantissa scale places).sign ++
        Display.groupDigits separator (ofFinite negative mantissa scale places).whole ++
          (ofFinite negative mantissa scale places).pointed := rfl

/-- The amount is at most a half of the last place away from the number. -/
theorem abs_magnitude_sub_le (negative : Bool) (mantissa scale places : ℕ) :
    |(ofFinite negative mantissa scale places).magnitude - Binary64.magnitude mantissa scale| ≤
      1 / 2 / 10 ^ places := by
  have hpow : (0 : ℚ) < 10 ^ places := by positivity
  have hclose := (Binary64.isRounded_toFixed mantissa scale places).close
  rw [magnitude_ofFinite, le_div_iff₀ hpow, ← abs_of_pos hpow, ← abs_mul, abs_of_pos hpow, sub_mul,
    div_mul_cancel₀ _ hpow.ne', abs_sub_comm]
  exact hclose

/-- **Reading the amount and rounding again leads back to it.** -/
theorem toFixed_of_nearest {m s : ℕ} (hclosest :
    |(ofFinite negative mantissa scale places).magnitude - Binary64.magnitude m s| ≤
      |(ofFinite negative mantissa scale places).magnitude - Binary64.magnitude mantissa scale|) :
    Binary64.toFixed m s places = Binary64.toFixed mantissa scale places := by
  have hpow : (0 : ℚ) < 10 ^ places := by positivity
  have hscaled : ∀ q : ℚ, |q * 10 ^ places - Binary64.toFixed mantissa scale places| =
      |(ofFinite negative mantissa scale places).magnitude - q| * 10 ^ places := by
    intro q
    rw [magnitude_ofFinite, abs_sub_comm _ q, ← abs_of_pos hpow, ← abs_mul, abs_of_pos hpow, sub_mul,
      div_mul_cancel₀ _ hpow.ne']
  have hrounded := Binary64.isRounded_toFixed mantissa scale places
  refine (hrounded.of_le ?_).unique (Binary64.isRounded_toFixed m s places)
  rw [hscaled, hscaled]
  exact mul_le_mul_of_nonneg_right hclosest hpow.le

/-- **A number that is read from the amount it was rounded to is shown like it.** -/
theorem showNumber_ofNumeral (separator : Char) (hformat : Binary64.IsInFormat mantissa scale) :
    Display.showNumber separator places
        (Binary64.ofNumeral (ofFinite negative mantissa scale places).numeral) =
      Display.showNumber separator places (.finite negative mantissa scale) := by
  have hnearest :=
    Binary64.isNearest_ofNumeral (ofFinite negative mantissa scale places).numeral
  rw [magnitude_numeral] at hnearest
  generalize Binary64.ofNumeral (ofFinite negative mantissa scale places).numeral = x at hnearest ⊢
  cases hnearest with
  | finite inFormat small closest even =>
      simp only [Display.showNumber, Binary64.fixedDigits,
        toFixed_of_nearest (closest mantissa scale hformat)]
      rfl
  | infinite large =>
      -- rounding does not lead out of the format
      exfalso
      have hclose := abs_le.mp (abs_magnitude_sub_le negative mantissa scale places)
      have hhalf : (1 : ℚ) / 2 / 10 ^ places ≤ 1 / 2 :=
        div_le_self (by norm_num) (one_le_pow₀ (by norm_num))
      have hlt := hformat.magnitude_add_half_lt
      linarith

/-- What holds of all characters of an amount holds in each of its parts. -/
theorem forall_mem_text {a : CanonicalAmount} {P : Char → Prop} (h : ∀ c ∈ a.text.toList, P c) :
    (∀ c ∈ a.sign, P c) ∧ (∀ c ∈ a.whole, P c) ∧ ∀ c ∈ a.pointed, P c := by
  rw [text, String.toList_ofList, List.forall_mem_append, List.forall_mem_append] at h
  exact ⟨h.1.1, h.1.2, h.2⟩

/-- A minus is written only in front of a negative amount. -/
theorem negative_of_minus_mem_text (a : CanonicalAmount) (h : '-' ∈ a.text.toList) :
    a.negative = true := by
  rw [text, String.toList_ofList] at h
  rcases List.mem_append.mp h with h | h
  · rcases List.mem_append.mp h with h | h
    · by_contra hpositive
      rw [sign, if_neg hpositive] at h
      exact List.not_mem_nil h
    · exact absurd (a.whole_digits _ h) (by decide)
  · rw [pointed] at h
    split at h
    · exact absurd h List.not_mem_nil
    · rcases List.mem_cons.mp h with heq | h
      · exact absurd heq (by decide)
      · exact absurd (a.fraction_digits _ h) (by decide)

end CanonicalAmount

/-! ### What is shown -/

namespace Display

/-- How a number is **shown** under a policy. An infinite number is its sign with a symbol. For a
finite one there is a plain amount of its sign, with no more places than the policy keeps and at
most a half of the last of them away from it, whose whole part is cut into groups of three. -/
inductive IsShown (p : Display) : Binary64 → List Char → Prop
  | infinite (negative : Bool) :
      IsShown p (.infinite negative) ((if negative then ['-'] else []) ++ ['∞'])
  | finite {mantissa scale : ℕ} {first : List Char} {rest : List (List Char)} (a : CanonicalAmount)
      (fraction_le : a.fraction.length ≤ p.places) (threes : InThrees first rest a.whole)
      (close : |a.magnitude - Binary64.magnitude mantissa scale| ≤ 1 / 2 / 10 ^ p.places) :
      IsShown p (.finite a.negative mantissa scale)
        (a.sign ++ (first ++ rest.flatMap (p.groupingSeparator :: ·)) ++ a.pointed)

/-- What is written for a number shows it as the policy says, to its places and with its
separator. -/
theorem isShown_showNumber (p : Display) (x : Binary64) :
    p.IsShown x (showNumber p.groupingSeparator p.places x) := by
  cases x with
  | infinite negative => exact .infinite negative
  | finite negative mantissa scale =>
      obtain ⟨first, rest, hthrees, hgroups⟩ := exists_inThrees_groupDigits p.groupingSeparator
        (CanonicalAmount.ofFinite negative mantissa scale p.places).whole_ne_nil
      rw [CanonicalAmount.showNumber_ofFinite, hgroups]
      exact .finite (CanonicalAmount.ofFinite negative mantissa scale p.places)
        CanonicalAmount.length_fraction_ofFinite hthrees
        (CanonicalAmount.abs_magnitude_sub_le negative mantissa scale p.places)

/-- An amount is shown as it is, without a look at it, if it is empty or the mark for none. -/
theorem isVerbatim_iff {value : String} :
    isVerbatim value = true ↔ value = "" ∨ value = noneMark := by
  simp [isVerbatim]

/-- A value that is shown without a look at its number has none. -/
theorem leadingNumber?_of_isVerbatim (p : Display) {value : String} (h : isVerbatim value = true) :
    leadingNumber? (p.ungroup value).toList = none := by
  refine WrittenNumber.leadingNumber?_eq_none fun c hc => ?_
  rw [ungroup, String.toList_ofList] at hc
  have hmem := List.mem_of_mem_filter hc
  rcases isVerbatim_iff.mp h with rfl | rfl
  · exact absurd hmem (by simp)
  · obtain rfl : c = '無' := by simpa [noneMark] using hmem
    decide

/-- An amount that does not start with a number, once its separators are dropped, is shown as it
is. -/
theorem showAmount_of_none {p : Display} {value : String}
    (h : leadingNumber? (p.ungroup value).toList = none) : p.showAmount value = value := by
  rw [showAmount, h]
  exact ite_self _

/-- An amount that starts with a number, once its separators are dropped, is shown as that number.
-/
theorem showAmount_of_some {p : Display} {value : String} {x : Binary64}
    (h : leadingNumber? (p.ungroup value).toList = some x) :
    p.showAmount value = String.ofList (showNumber p.groupingSeparator p.places x) := by
  have hverbatim : isVerbatim value = false := by
    by_contra hne
    rw [leadingNumber?_of_isVerbatim p (Bool.not_eq_false _ ▸ hne)] at h
    exact absurd h (by simp)
  rw [showAmount, h, hverbatim]
  rfl

/-- **What is shown for any text**: the text as it is if it is empty, the word for a field left out,
or has no number at its front, separators aside; else its number. -/
theorem showAmount_isShown (p : Display) (value : String) :
    (value = "" ∨ value = noneMark ∨ leadingNumber? (p.ungroup value).toList = none →
        p.showAmount value = value) ∧
      ∀ x, leadingNumber? (p.ungroup value).toList = some x →
        p.IsShown x (p.showAmount value).toList := by
  constructor
  · rintro (hempty | hmark | hnone)
    · exact showAmount_of_none (leadingNumber?_of_isVerbatim p (isVerbatim_iff.mpr (.inl hempty)))
    · exact showAmount_of_none (leadingNumber?_of_isVerbatim p (isVerbatim_iff.mpr (.inr hmark)))
    · exact showAmount_of_none hnone
  · intro x hx
    rw [showAmount_of_some hx, String.toList_ofList]
    exact p.isShown_showNumber x

example : ({} : Display).showAmount "-999999.9996 元" = "-1,000,000" := by decide +kernel

/-! ### Showing twice -/

/-- Without the separators an amount is as it is written plainly, if none of its characters is the
separator. -/
theorem filter_shown {separator : Char} (a : CanonicalAmount)
    (h : ∀ c ∈ a.text.toList, c ≠ separator) :
    (a.sign ++ groupDigits separator a.whole ++ a.pointed).filter (· != separator) =
      a.text.toList := by
  obtain ⟨hsign, hwhole, hpointed⟩ := CanonicalAmount.forall_mem_text h
  rw [CanonicalAmount.text, String.toList_ofList, List.filter_append, List.filter_append,
    filter_groupDigits hwhole, List.filter_eq_self.mpr fun c hc => bne_iff_ne.mpr (hsign c hc),
    List.filter_eq_self.mpr fun c hc => bne_iff_ne.mpr (hpointed c hc)]

/-- Reading finds no number in the symbol for infinity. -/
theorem leadingNumber?_ungroup_infinite (p : Display) (negative : Bool) :
    leadingNumber? (p.ungroup (String.ofList
      (showNumber p.groupingSeparator p.places (.infinite negative)))).toList = none := by
  refine WrittenNumber.leadingNumber?_eq_none fun c hc => ?_
  rw [ungroup, String.toList_ofList, String.toList_ofList] at hc
  have hmem : c ∈ (if negative then ['-'] else []) ++ ['∞'] := List.mem_of_mem_filter hc
  rcases List.mem_append.mp hmem with hsign | hsymbol
  · cases negative with
    | true =>
        obtain rfl := List.mem_singleton.mp hsign
        decide
    | false => exact absurd hsign List.not_mem_nil
  · obtain rfl := List.mem_singleton.mp hsymbol
    decide

/-- A separator that is read over is no part of the amount that is shown: a minus is there only if
one was read. -/
theorem ne_separator_of_mem_text (p : Display) {value : String} {negative : Bool}
    {mantissa scale : ℕ}
    (hread : leadingNumber? (p.ungroup value).toList = some (.finite negative mantissa scale))
    (hdigit : p.groupingSeparator.isDigit = false) (hpoint : p.groupingSeparator ≠ '.') :
    ∀ c ∈ (CanonicalAmount.ofFinite negative mantissa scale p.places).text.toList,
      c ≠ p.groupingSeparator := by
  rintro c hc rfl
  rcases CanonicalAmount.isDigit_of_mem_text _ hc with h | h | h
  · exact absurd h (by simp [hdigit])
  · exact hpoint h
  · rw [h] at hc
    have hnegative : negative = true := CanonicalAmount.negative_of_minus_mem_text _ hc
    have hminus := WrittenNumber.minus_mem_of_isNegative hread hnegative
    rw [ungroup, String.toList_ofList] at hminus
    exact absurd h.symm (by simpa using List.of_mem_filter hminus)

/-- **Showing an amount that is shown already changes nothing.** -/
theorem showAmount_showAmount (p : Display) (value : String)
    (hdigit : p.groupingSeparator.isDigit = false) (hpoint : p.groupingSeparator ≠ '.') :
    p.showAmount (p.showAmount value) = p.showAmount value := by
  cases hread : leadingNumber? (p.ungroup value).toList with
  | none => rw [showAmount_of_none hread, showAmount_of_none hread]
  | some x =>
      rw [showAmount_of_some hread]
      cases x with
      | infinite negative => exact showAmount_of_none (p.leadingNumber?_ungroup_infinite negative)
      | finite negative mantissa scale =>
          have hformat := WrittenNumber.isInFormat_of_leadingNumber? hread
          have hkept := p.ne_separator_of_mem_text hread hdigit hpoint
          have hungroup : p.ungroup (String.ofList (showNumber p.groupingSeparator p.places
              (.finite negative mantissa scale))) =
                (CanonicalAmount.ofFinite negative mantissa scale p.places).text := by
            rw [ungroup, String.toList_ofList, CanonicalAmount.showNumber_ofFinite,
              filter_shown _ hkept, String.ofList_toList]
          rw [showAmount_of_some (hungroup ▸ CanonicalAmount.leadingNumber?_text _),
            CanonicalAmount.showNumber_ofNumeral _ hformat]

/-- Rounding carries into the whole part, and the separator is the sign. -/
theorem showAmount_showAmount_minus :
    let p : Display := { groupingSeparator := '-', maxFractionDigits := 2 }
    p.groupingSeparator.isDigit = false ∧ p.groupingSeparator ≠ '.' ∧
      p.showAmount "-999999.996x" = "1-000-000" ∧
      p.showAmount (p.showAmount "-999999.996x") = p.showAmount "-999999.996x" := by
  intro p
  have hdigit : p.groupingSeparator.isDigit = false := by decide
  have hpoint : p.groupingSeparator ≠ '.' := by decide
  exact ⟨hdigit, hpoint, by decide +kernel,
    showAmount_showAmount p "-999999.996x" hdigit hpoint⟩

end Display

end Outreach
