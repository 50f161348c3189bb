import Mathlib.Data.List.TakeWhile
import Outreach.Display
import Outreach.Proofs.Number.Digits
import Outreach.Proofs.Number.Rounding

/-!
# Amounts Keep Their Digits

An amount is shown by way of the binary format: its digits become a binary number, and this is
written again with a fixed number of decimal places. An amount that is written plainly, with up to
fifteen digits, comes back with each of its digits; only the separators between groups of three are
new. Without them the amount is what it was.

## Main results

* `Display.exists_inThrees_groupDigits`: digits are grouped in threes from the right.
* `CanonicalAmount.leadingNumber?_text`: the number that a plain amount is read as.
* `CanonicalAmount.showNumber_eq`: **no digit changes on the way through the binary format**.
* `Display.showAmount_text`: **what is shown for a plain amount**, and that taking the separators
  out gives it back.
-/

namespace Outreach

/-! ### Groups of three -/

namespace Display

/-- Digits stand **in threes** if they are cut into a first group of up to three of them and
further groups of three. -/
structure InThrees (first : List Char) (rest : List (List Char)) (digits : List Char) : Prop where
  flatten : first ++ rest.flatten = digits
  ne_nil : first ≠ []
  le_three : first.length ≤ 3
  eq_three : ∀ group ∈ rest, group.length = 3

variable {first digits : List Char} {rest : List (List Char)} {separator : Char}

/-- Groups of three digits have three times as many digits as there are groups. -/
theorem length_flatten_of_eq_three (h : ∀ group ∈ rest, group.length = 3) :
    rest.flatten.length = 3 * rest.length := by
  induction rest with
  | nil => rfl
  | cons group rest ih =>
      have hgroup := h group List.mem_cons_self
      have hrest := ih fun other hother => h other (List.mem_cons_of_mem group hother)
      rw [List.flatten_cons, List.length_append, List.length_cons]
      omega

/-- The number of digits tells the length of the first group. -/
theorem InThrees.length_eq (h : InThrees first rest digits) :
    digits.length = first.length + 3 * rest.length := by
  rw [← h.flatten, List.length_append, length_flatten_of_eq_three h.eq_three]

/-- **Digits are grouped in threes from the right**, with the separator before each group but the
first. -/
theorem exists_inThrees_groupDigits (separator : Char) (hdigits : digits ≠ []) :
    ∃ first rest, InThrees first rest digits ∧
      groupDigits separator digits = first ++ rest.flatMap (separator :: ·) := by
  induction digits with
  | nil => exact absurd rfl hdigits
  | cons d ds ih =>
      by_cases hne : ds = []
      · rw [hne]
        exact ⟨[d], [], ⟨rfl, by simp, by simp, by simp⟩, rfl⟩
      · obtain ⟨first, rest, hthrees, hgroups⟩ := ih hne
        have hlength := hthrees.length_eq
        have hpos := List.length_pos_iff.mpr hthrees.ne_nil
        have hle := hthrees.le_three
        rw [groupDigits]
        by_cases hfull : ds.length % 3 = 0
        · -- the first group has three digits already
          have hthree : first.length = 3 := by omega
          refine ⟨[d], first :: rest, ⟨?_, by simp, by simp, ?_⟩, ?_⟩
          · rw [List.flatten_cons, hthrees.flatten]
            rfl
          · rintro group hgroup
            rcases List.mem_cons.mp hgroup with rfl | hgroup
            · exact hthree
            · exact hthrees.eq_three group hgroup
          · rw [if_pos (by simpa [hne] using hfull), hgroups]
            rfl
        · refine ⟨d :: first, rest, ⟨?_, by simp, ?_, hthrees.eq_three⟩, ?_⟩
          · rw [List.cons_append, hthrees.flatten]
          · rw [List.length_cons]
            omega
          · rw [if_neg (by simp [hfull]), hgroups]
            rfl

/-- Without the separators the digits are what they were. -/
theorem filter_groupDigits (h : ∀ d ∈ digits, d ≠ separator) :
    (groupDigits separator digits).filter (· != separator) = digits := by
  induction digits with
  | nil => rfl
  | cons d ds ih =>
      have hd : (d != separator) = true := bne_iff_ne.mpr (h d List.mem_cons_self)
      have hds := ih fun e he => h e (List.mem_cons_of_mem d he)
      rw [groupDigits]
      split
      · rw [List.filter_cons, if_pos hd, List.filter_cons, if_neg (by simp), hds]
      · rw [List.filter_cons, if_pos hd, hds]

/-- Zeros that follow a fraction are left out again. -/
theorem trimZeros_append_zeros {fraction : List Char} (h : fraction.getLast? ≠ some '0')
    (count : Nat) : trimZeros (fraction ++ List.replicate count '0') = fraction := by
  have hzeros : ∀ c ∈ List.replicate count '0', (c == '0') = true := fun c hc =>
    beq_iff_eq.mpr (List.eq_of_mem_replicate hc)
  have hfraction : fraction.reverse.dropWhile (· == '0') = fraction.reverse := by
    rw [← List.head?_reverse] at h
    cases hreverse : fraction.reverse with
    | nil => rfl
    | cons c cs =>
        have hne : c ≠ '0' := by
          rintro rfl
          exact h (by rw [hreverse]; rfl)
        exact List.dropWhile_cons_of_neg (by simpa using hne)
  rw [trimZeros, List.reverse_append, List.reverse_replicate, List.dropWhile_append_of_pos hzeros,
    hfraction, List.reverse_reverse]

end Display

/-! ### Digits at the front -/

/-- A digit is no sign. -/
theorem Numeral.readSign_of_isDigit {d : Char} (h : d.isDigit = true) (rest : List Char) :
    readSign (d :: rest) = (false, d :: rest) := by
  rw [readSign]
  · rintro rest' heq
    obtain ⟨rfl, -⟩ := List.cons.inj heq
    exact absurd h (by decide)
  · rintro rest' heq
    obtain ⟨rfl, -⟩ := List.cons.inj heq
    exact absurd h (by decide)

/-- A digit does not start the word for infinity. -/
theorem dropWord?_infinity_of_isDigit {d : Char} (h : d.isDigit = true) (rest : List Char) :
    dropWord? "Infinity".toList (d :: rest) = none := by
  have hne : 'I' ≠ d := by
    rintro rfl
    exact absurd h (by decide)
  exact if_neg hne

/-! ### Plain amounts -/

/-- A **plain amount**: digits with a point at most within them, no zero in front of others and none
at the end of the fraction. An amount without a fraction has no point. -/
structure CanonicalAmount where
  negative : Bool
  whole : List Char
  fraction : List Char
  whole_digits : ∀ d ∈ whole, d.isDigit = true
  whole_ne_nil : whole ≠ []
  whole_front : whole.head? = some '0' → whole = ['0']
  fraction_digits : ∀ d ∈ fraction, d.isDigit = true
  fraction_back : fraction.getLast? ≠ some '0'

namespace CanonicalAmount

variable (a : CanonicalAmount)

/-- The sign of an amount as it is written: a minus, or nothing. -/
def sign : List Char :=
  if a.negative then ['-'] else []

/-- The fraction of an amount as it is written, behind its point. Without digits there is no
point. -/
def pointed : List Char :=
  if a.fraction.isEmpty then [] else '.' :: a.fraction

/-- An amount as it is written: sign, whole part and fraction. -/
def text : String :=
  String.ofList (a.sign ++ a.whole ++ a.pointed)

/-- The numeral of an amount: all its digits as one number, with as many places as the fraction
has digits. -/
def numeral : Numeral where
  negative := a.negative
  significand := Numeral.natOfDigits (a.whole ++ a.fraction)
  exponent := -a.fraction.length

/-- A character of an amount is a minus, a point or a digit. -/
theorem isDigit_of_mem_text {c : Char} (h : c ∈ a.text.toList) :
    c.isDigit = true ∨ c = '.' ∨ c = '-' := by
  rw [text, String.toList_ofList, sign, pointed] at h
  rcases List.mem_append.mp h with h | h
  · rcases List.mem_append.mp h with h | h
    · split at h
      · exact .inr (.inr (List.mem_singleton.mp h))
      · exact absurd h List.not_mem_nil
    · exact .inl (a.whole_digits c h)
  · split at h
    · exact absurd h List.not_mem_nil
    · rcases List.mem_cons.mp h with rfl | h
      · exact .inr (.inl rfl)
      · exact .inl (a.fraction_digits c h)

/-! ### Reading -/

/-- What stands behind the point of a canonical amount is read as its fraction. -/
theorem readFraction_pointed : Numeral.readFraction a.pointed = (a.fraction, []) := by
  rw [pointed]
  split
  · rename_i hempty
    rw [List.isEmpty_iff.mp hempty]
    rfl
  · rw [Numeral.readFraction, Numeral.spanDigits, List.takeWhile_eq_self_iff.mpr a.fraction_digits,
      List.dropWhile_eq_nil_iff.mpr a.fraction_digits]

/-- The digits of the whole part are read up to the point, or to the end. -/
theorem spanDigits_whole_append :
    Numeral.spanDigits (a.whole ++ a.pointed) = (a.whole, a.pointed) := by
  rw [Numeral.spanDigits, List.takeWhile_append_of_pos a.whole_digits,
    List.dropWhile_append_of_pos a.whole_digits, pointed]
  split
  · simp
  · simp

/-- Without its sign an amount is read as its numeral. -/
theorem readUnsigned_eq :
    Numeral.readUnsigned a.negative (a.whole ++ a.pointed) = some (a.numeral, []) := by
  have hwhole : a.whole.isEmpty = false := by
    simpa using a.whole_ne_nil
  rw [Numeral.readUnsigned, a.spanDigits_whole_append]
  simp only [a.readFraction_pointed, hwhole, Bool.false_and, Bool.false_eq_true, if_false,
    Numeral.readExponent, Int.zero_sub]
  rfl

/-- **An amount is read as the binary number of its numeral.** -/
theorem leadingNumber?_text :
    leadingNumber? a.text.toList = some (Binary64.ofNumeral a.numeral) := by
  obtain ⟨d, ds, hwhole⟩ := List.exists_cons_of_ne_nil a.whole_ne_nil
  have hd : d.isDigit = true := a.whole_digits d (hwhole ▸ List.mem_cons_self)
  have hsign : Numeral.readSign (Text.trimStart a.text.toList) =
      (a.negative, a.whole ++ a.pointed) := by
    rw [text, String.toList_ofList, sign, hwhole]
    cases a.negative with
    | true => rfl
    | false =>
        have hblank := Text.isBlank_of_isDigit hd
        simp only [Bool.false_eq_true, if_false, List.nil_append, List.cons_append,
          Text.trimStart_cons, hblank, Numeral.readSign_of_isDigit hd]
  have hword : dropWord? "Infinity".toList (a.whole ++ a.pointed) = none := by
    rw [hwhole]
    exact dropWord?_infinity_of_isDigit hd _
  rw [leadingNumber?, hsign]
  simp only [hword, Option.isSome_none, Bool.false_eq_true, if_false, a.readUnsigned_eq,
    Option.map_some]

/-! ### Showing -/

/-- Rounded to decimal places, the binary number of an amount has the digits of the amount, and
zeros behind them. -/
theorem exists_fixedDigits_eq {places : Nat} (hfraction : a.fraction.length ≤ places)
    (hwidth : a.whole.length + places ≤ 15) :
    ∃ mantissa scale, Binary64.ofNumeral a.numeral = .finite a.negative mantissa scale ∧
      Binary64.fixedDigits mantissa scale places =
        (a.whole, a.fraction ++ List.replicate (places - a.fraction.length) '0') := by
  have hdigits : ∀ d ∈ a.fraction ++ List.replicate (places - a.fraction.length) '0',
      d.isDigit = true := by
    intro d hd
    rcases List.mem_append.mp hd with hd | hd
    · exact a.fraction_digits d hd
    · rw [List.eq_of_mem_replicate hd]
      rfl
  have hlength : (a.fraction ++ List.replicate (places - a.fraction.length) '0').length = places := by
    rw [List.length_append, List.length_replicate]
    omega
  -- in units of the last place
  have hunits : a.numeral.significand * tenPow (places - a.fraction.length) =
      Numeral.natOfDigits
        (a.whole ++ (a.fraction ++ List.replicate (places - a.fraction.length) '0')) := by
    rw [← List.append_assoc, Numeral.natOfDigits_append_zeros]
    rfl
  have hsmall : a.numeral.significand * tenPow (places - a.fraction.length) < tenPow 15 := by
    rw [hunits]
    refine Nat.lt_of_lt_of_le (Numeral.natOfDigits_lt fun d hd => ?_) (tenPow_le_tenPow ?_)
    · exact (List.mem_append.mp hd).elim (a.whole_digits d) (hdigits d)
    · rwa [List.length_append, hlength]
  have hsignificand : a.numeral.significand < tenPow 15 :=
    Nat.lt_of_le_of_lt (Nat.le_mul_of_pos_right _ (tenPow_pos _)) hsmall
  have hdecimals : a.fraction.length ≤ 15 := by omega
  obtain ⟨mantissa, scale, hnumber, happrox⟩ :=
    Binary64.exists_ofNumeral_eq (n := a.numeral) rfl hdecimals hsignificand
  refine ⟨mantissa, scale, hnumber, ?_⟩
  have hfixed := happrox.toFixed_eq hfraction (by omega) hsmall
  have hfront := Numeral.natOfDigits_append_div a.whole hdigits
  have hback := Binary64.lastDigits_natOfDigits a.whole hdigits
  rw [hlength] at hfront hback
  rw [Binary64.fixedDigits, hfixed, hunits, hfront, hback,
    Numeral.toDigits_natOfDigits a.whole_digits a.whole_ne_nil a.whole_front]

/-- **No digit changes on the way through the binary format.** -/
theorem showNumber_eq {places : Nat} (separator : Char) (hfraction : a.fraction.length ≤ places)
    (hwidth : a.whole.length + places ≤ 15) :
    Display.showNumber separator places (Binary64.ofNumeral a.numeral) =
      a.sign ++ Display.groupDigits separator a.whole ++ a.pointed := by
  obtain ⟨mantissa, scale, hnumber, hdigits⟩ := a.exists_fixedDigits_eq hfraction hwidth
  rw [hnumber, Display.showNumber, hdigits]
  simp only [Display.trimZeros_append_zeros a.fraction_back]
  rfl

end CanonicalAmount

namespace Display

variable {p : Display} {a : CanonicalAmount}

/-- An amount has a text of its own: it is not empty and not the word for a field left out. -/
theorem isVerbatim_text (a : CanonicalAmount) : isVerbatim a.text = false := by
  have hmem : ∀ c ∈ a.whole, c ∈ a.text.toList := by
    intro c hc
    rw [CanonicalAmount.text, String.toList_ofList]
    exact List.mem_append_left _ (List.mem_append_right _ hc)
  obtain ⟨d, ds, hwhole⟩ := List.exists_cons_of_ne_nil a.whole_ne_nil
  have hd := a.whole_digits d (hwhole ▸ List.mem_cons_self)
  have hd' := hmem d (hwhole ▸ List.mem_cons_self)
  rw [isVerbatim, Bool.or_eq_false_iff, String.isEmpty_eq_false_iff, beq_eq_false_iff_ne]
  constructor
  · intro hempty
    rw [hempty] at hd'
    exact absurd hd' (by simp)
  · intro hmark
    rw [hmark] at hd'
    obtain rfl : d = '無' := by simpa [noneMark] using hd'
    exact absurd hd (by decide)

/-- **What is shown for an amount, and that it can be undone**: the digits stand in threes with the
separator before each group but the first, sign and fraction are as they were, and the amount comes
back when the separators are taken out. -/
theorem showAmount_text (p : Display) (a : CanonicalAmount)
    (hdigit : p.groupingSeparator.isDigit = false) (hpoint : p.groupingSeparator ≠ '.')
    (hminus : p.groupingSeparator ≠ '-') (hfraction : a.fraction.length ≤ p.places)
    (hwidth : a.whole.length + p.places ≤ 15) :
    (∃ first rest, InThrees first rest a.whole ∧
      p.showAmount a.text = String.ofList
        (a.sign ++ (first ++ rest.flatMap (p.groupingSeparator :: ·)) ++ a.pointed)) ∧
      p.ungroup (p.showAmount a.text) = a.text := by
  have hkept : ∀ c ∈ a.text.toList, (c != p.groupingSeparator) = true := by
    intro c hc
    rw [bne_iff_ne]
    rintro rfl
    rcases a.isDigit_of_mem_text hc with h | h | h
    · exact absurd h (by simp [hdigit])
    · exact hpoint h
    · exact hminus h
  have hungroup : p.ungroup a.text = a.text := by
    rw [ungroup, List.filter_eq_self.mpr hkept, String.ofList_toList]
  have hshown : p.showAmount a.text = String.ofList
      (a.sign ++ groupDigits p.groupingSeparator a.whole ++ a.pointed) := by
    rw [showAmount, isVerbatim_text, hungroup, a.leadingNumber?_text]
    simp only [Bool.false_eq_true, if_false,
      a.showNumber_eq p.groupingSeparator hfraction hwidth]
  constructor
  · obtain ⟨first, rest, hthrees, hgroups⟩ :=
      exists_inThrees_groupDigits p.groupingSeparator a.whole_ne_nil
    exact ⟨first, rest, hthrees, by rw [hshown, hgroups]⟩
  · rw [CanonicalAmount.text, String.toList_ofList, List.forall_mem_append,
      List.forall_mem_append] at hkept
    obtain ⟨⟨hsign, hwhole⟩, hpointed⟩ := hkept
    have hgroups : (groupDigits p.groupingSeparator a.whole).filter (· != p.groupingSeparator) =
        a.whole := filter_groupDigits fun d hd => bne_iff_ne.mp (hwhole d hd)
    rw [hshown, ungroup, String.toList_ofList, List.filter_append, List.filter_append, hgroups,
      List.filter_eq_self.mpr hsign, List.filter_eq_self.mpr hpointed, CanonicalAmount.text]

/-- Fifteen digits, two of them behind the point, in groups that the mark of an exponent
separates. -/
theorem showAmount_text_fifteen :
    let p : Display := { groupingSeparator := 'e', maxFractionDigits := 2 }
    let a : CanonicalAmount :=
      { negative := true, whole := "9007199254740".toList, fraction := "93".toList,
        whole_digits := List.all_eq_true.mp (by decide), whole_ne_nil := by decide,
        whole_front := by decide, fraction_digits := List.all_eq_true.mp (by decide),
        fraction_back := by decide }
    p.groupingSeparator.isDigit = false ∧ p.groupingSeparator ≠ '.' ∧ p.groupingSeparator ≠ '-' ∧
      a.fraction.length ≤ p.places ∧ a.whole.length + p.places ≤ 15 ∧
      p.showAmount a.text = "-9e007e199e254e740.93" ∧
      (∃ first rest, InThrees first rest a.whole ∧
        p.showAmount a.text = String.ofList
          (a.sign ++ (first ++ rest.flatMap (p.groupingSeparator :: ·)) ++ a.pointed)) ∧
      p.ungroup (p.showAmount a.text) = a.text := by
  intro p a
  have hdigit : p.groupingSeparator.isDigit = false := by decide
  have hpoint : p.groupingSeparator ≠ '.' := by decide
  have hminus : p.groupingSeparator ≠ '-' := by decide
  have hfraction : a.fraction.length ≤ p.places := by decide
  have hwidth : a.whole.length + p.places ≤ 15 := by decide
  exact ⟨hdigit, hpoint, hminus, hfraction, hwidth, by decide +kernel,
    showAmount_text p a hdigit hpoint hminus hfraction hwidth⟩

end Display

end Outreach
