import Outreach.Proofs.Display.Rounded
import Outreach.Settings

/-!
# Accepted Separators

Separators are taken out of a text before its number is read. Settings are therefore accepted only
if their separator is no digit and no point. Then every number stays as it is, with one exception:
a minus is accepted as well, and it is taken out where it is a sign.

## Main results

* `Display.showNumber_separator`: how a number is shown under one separator tells how it is shown
  under any other.
* `Display.showAmount_unsigned`: with a minus as the separator **the sign is lost**.
* `Settings.showAmount_replaceCommas_iff`: **accepted separators change nothing but the separators**,
  unless a minus is the separator of a negative number.
-/

namespace Outreach

/-! ### Plain numerals -/

/-- A **plain numeral**: digits with an optional minus in front and an optional fraction. -/
structure PlainNumeral where
  negative : Bool
  whole : Digits
  fraction : Option Digits
  whole_ne_nil : whole.chars ≠ []

namespace PlainNumeral

variable (n : PlainNumeral)

/-- The sign of a numeral. -/
def sign : Sign :=
  if n.negative then .minus else .absent

/-- What is written behind the sign of a numeral. -/
def digits : List Char :=
  n.whole.chars ++ fractionChars n.fraction

/-- A numeral as it is written. -/
def text : String :=
  String.ofList (n.sign.chars ++ n.digits)

/-- A numeral among the numbers that can be read: it has no exponent. -/
def written : WrittenNumber :=
  .decimal n.sign ⟨n.whole, n.fraction, none, .inl n.whole_ne_nil⟩

/-- A numeral without its sign. -/
def unsigned : PlainNumeral :=
  { n with negative := false }

/-- The text of a written number starts with that number, and all of it belongs to the number. -/
theorem leadingNumber?_text : leadingNumber? n.text.toList = some n.written.number := by
  rw [← WrittenNumber.leadingNumber?_chars, text, String.toList_ofList, digits, written,
    WrittenNumber.chars, WrittenDecimal.chars, exponentChars, List.append_nil]

/-- A numeral is read with its sign. -/
theorem isNegative_number : n.written.number.isNegative = n.negative := by
  have hsign : n.sign.isMinus = n.negative := by
    rw [sign]
    cases n.negative with
    | true => rfl
    | false => rfl
  have hnearest := n.written.denotes_number
  exact hnearest.isNegative_eq.trans hsign

/-- Behind the sign there are digits and at most a point. -/
theorem isDigit_of_mem_digits {c : Char} (h : c ∈ n.digits) : c.isDigit = true ∨ c = '.' := by
  rw [digits] at h
  rcases List.mem_append.mp h with h | h
  · exact .inl (n.whole.isDigit c h)
  · cases hfraction : n.fraction with
    | none => simp [hfraction, fractionChars] at h
    | some fraction =>
        rw [hfraction] at h
        rcases List.mem_cons.mp h with rfl | h
        · exact .inr rfl
        · exact .inl (fraction.isDigit c h)

/-- The sign of a numeral is a minus or not there at all. -/
theorem eq_minus_of_mem_sign {n : PlainNumeral} {c : Char} (h : c ∈ n.sign.chars) :
    n.negative = true ∧ c = '-' := by
  rw [sign] at h
  split at h
  · exact ⟨‹_›, List.mem_singleton.mp h⟩
  · exact absurd h List.not_mem_nil

end PlainNumeral

namespace Display

/-! ### One separator for another -/

/-- A policy with the comma for its separator, and all else as it is. -/
def withCommas (p : Display) : Display :=
  { p with groupingSeparator := ',' }

@[simp] theorem withCommas_groupingSeparator (p : Display) :
    p.withCommas.groupingSeparator = ',' := rfl

/-- A character with the separator in place of a comma. -/
def separated (separator c : Char) : Char :=
  if c = ',' then separator else c

/-- A text with the separator in place of each comma. -/
def replaceCommas (separator : Char) (shown : String) : String :=
  String.ofList (shown.toList.map (separated separator))

/-- A text without commas stays as it is when commas are exchanged. -/
theorem map_separated_eq_self {separator : Char} {cs : List Char} (h : ∀ c ∈ cs, c ≠ ',') :
    cs.map (separated separator) = cs := by
  have hkept : ∀ c ∈ cs, separated separator c = id c := fun c hc => if_neg (h c hc)
  rw [List.map_congr_left hkept, List.map_id]

/-- Digits are grouped by any separator as by commas, with the commas exchanged afterwards. -/
theorem groupDigits_separator (separator : Char) {digits : List Char}
    (h : ∀ d ∈ digits, d ≠ ',') :
    groupDigits separator digits = (groupDigits ',' digits).map (separated separator) := by
  induction digits with
  | nil => rfl
  | cons d ds ih =>
      have hd : separated separator d = d := if_neg (h d List.mem_cons_self)
      have hcomma : separated separator ',' = separator := if_pos rfl
      have hds := ih fun e he => h e (List.mem_cons_of_mem d he)
      rw [groupDigits, groupDigits]
      split
      · rw [List.map_cons, List.map_cons, hd, hcomma, hds]
      · rw [List.map_cons, hd, hds]

/-- **How a number is shown under one separator tells how it is shown under any other.** -/
theorem showNumber_separator (separator : Char) (places : Nat) (x : Binary64) :
    showNumber separator places x = (showNumber ',' places x).map (separated separator) := by
  cases x with
  | infinite negative =>
      cases negative with
      | true => rfl
      | false => rfl
  | finite negative mantissa scale =>
      have hkept : ∀ c ∈ (CanonicalAmount.ofFinite negative mantissa scale places).text.toList,
          c ≠ ',' := by
        rintro c hc rfl
        exact absurd (CanonicalAmount.isDigit_of_mem_text _ hc) (by decide)
      obtain ⟨hsign, hwhole, hpointed⟩ := CanonicalAmount.forall_mem_text hkept
      rw [CanonicalAmount.showNumber_ofFinite, CanonicalAmount.showNumber_ofFinite, List.map_append,
        List.map_append, map_separated_eq_self hsign, map_separated_eq_self hpointed,
        groupDigits_separator separator hwhole]

/-! ### Signs -/

/-- The first digit stays in front. -/
theorem exists_groupDigits_cons (separator d : Char) (ds : List Char) :
    ∃ rest, groupDigits separator (d :: ds) = d :: rest := by
  rw [groupDigits]
  split
  · exact ⟨_, rfl⟩
  · exact ⟨_, rfl⟩

/-- A number is shown with a minus in front exactly if it is negative. -/
theorem head?_showNumber (separator : Char) (places : Nat) (x : Binary64) :
    (showNumber separator places x).head? = some '-' ↔ x.isNegative = true := by
  cases x with
  | infinite negative =>
      cases negative with
      | true => exact iff_of_true rfl rfl
      | false => exact iff_of_false (by simp [showNumber]) Bool.noConfusion
  | finite negative mantissa scale =>
      cases negative with
      | true => exact iff_of_true rfl rfl
      | false =>
          refine iff_of_false (fun hminus => ?_) Bool.noConfusion
          -- without a sign a digit stands in front
          obtain ⟨d, ds, hwhole⟩ := List.exists_cons_of_ne_nil
            (CanonicalAmount.ofFinite false mantissa scale places).whole_ne_nil
          obtain ⟨rest, hgroups⟩ := exists_groupDigits_cons separator d ds
          rw [CanonicalAmount.showNumber_ofFinite, hwhole, hgroups] at hminus
          obtain rfl : d = '-' := Option.some.inj hminus
          exact absurd ((CanonicalAmount.ofFinite false mantissa scale places).whole_digits '-'
            (hwhole ▸ List.mem_cons_self)) (by decide)

variable {p : Display} {n : PlainNumeral}

/-- A numeral has no separators in it, unless its sign is one. -/
theorem showAmount_numeral (hdigit : p.groupingSeparator.isDigit = false)
    (hpoint : p.groupingSeparator ≠ '.')
    (hminus : p.groupingSeparator = '-' → n.negative = false) :
    p.showAmount n.text =
      String.ofList (showNumber p.groupingSeparator p.places n.written.number) := by
  have hkept : ∀ c ∈ n.text.toList, (c != p.groupingSeparator) = true := by
    intro c hc
    rw [bne_iff_ne]
    rintro rfl
    rw [PlainNumeral.text, String.toList_ofList] at hc
    rcases List.mem_append.mp hc with hsign | hdigits
    · obtain ⟨hnegative, hseparator⟩ := PlainNumeral.eq_minus_of_mem_sign hsign
      rw [hminus hseparator] at hnegative
      exact Bool.noConfusion hnegative
    · rcases n.isDigit_of_mem_digits hdigits with h | h
      · exact absurd h (by simp [hdigit])
      · exact hpoint h
  have hungroup : p.ungroup n.text = n.text := by
    rw [ungroup, List.filter_eq_self.mpr hkept, String.ofList_toList]
  exact showAmount_of_some (hungroup.symm ▸ n.leadingNumber?_text)

/-- With a minus as the separator **the sign is lost**. -/
theorem showAmount_unsigned (hminus : p.groupingSeparator = '-') :
    p.showAmount n.text = p.showAmount n.unsigned.text := by
  have hsign : n.sign.chars.filter (· != p.groupingSeparator) = [] := by
    rw [List.filter_eq_nil_iff]
    intro c hc
    simp [(PlainNumeral.eq_minus_of_mem_sign hc).2, hminus]
  have hdigits : n.digits.filter (· != p.groupingSeparator) = n.digits := by
    rw [List.filter_eq_self]
    rintro c hc
    rw [bne_iff_ne, hminus]
    rintro rfl
    exact absurd (n.isDigit_of_mem_digits hc) (by decide)
  have hungroup : p.ungroup n.text = n.unsigned.text := by
    rw [ungroup, PlainNumeral.text, String.toList_ofList, List.filter_append, hsign, hdigits]
    rfl
  have hread := n.unsigned.leadingNumber?_text
  rw [← hungroup] at hread
  rw [showAmount_of_some hread, showAmount_numeral (hminus ▸ rfl) (hminus ▸ by decide) fun _ => rfl]

end Display

namespace Settings

/-- A check with a result behind it was passed. -/
theorem eq_ok_of_ifThrow {α : Type} {c : Prop} [Decidable c] {f : Failure}
    {rest : PUnit → Except Failure α} {a : α}
    (h : (if c then throw f >>= rest else rest ⟨⟩) = .ok a) : ¬c ∧ rest ⟨⟩ = .ok a := by
  split at h
  · have herror : Except.error f = Except.ok a := h
    exact absurd herror (by simp)
  · rename_i hc
    exact ⟨hc, h⟩

/-- The separator of settings that are accepted is no digit and no point. -/
theorem isReserved_of_check {s : Settings} (h : s.check = .ok ()) :
    isReserved s.display.groupingSeparator = false := by
  rw [check] at h
  obtain ⟨-, h⟩ := eq_ok_of_ifThrow h
  exact Bool.not_eq_true _ ▸ (eq_ok_of_ifThrow h).1

/-- **Accepted separators change nothing but the separators**: a plain numeral is shown as with
commas, and the separator stands in place of each comma. This holds unless the numeral is negative
and the separator is a minus. -/
theorem showAmount_replaceCommas_iff (s : Settings) (n : PlainNumeral) (h : s.check = .ok ()) :
    s.display.showAmount n.text = Display.replaceCommas s.display.groupingSeparator
        (s.display.withCommas.showAmount n.text) ↔
      (s.display.groupingSeparator = '-' → n.negative = false) := by
  have hreserved := isReserved_of_check h
  rw [isReserved, Bool.or_eq_false_iff, beq_eq_false_iff_ne] at hreserved
  obtain ⟨hdigit, hpoint⟩ := hreserved
  have hcommas : s.display.withCommas.showAmount n.text =
      String.ofList (Display.showNumber ',' s.display.places n.written.number) :=
    Display.showAmount_numeral rfl (by simp) (by simp)
  rw [hcommas, Display.replaceCommas, String.toList_ofList, ← Display.showNumber_separator]
  constructor
  · -- a negative number has a minus in front, and what is shown without its sign has none
    intro hsame hminus
    rw [Display.showAmount_unsigned hminus, Display.showAmount_numeral hdigit hpoint fun _ => rfl,
      String.ofList_inj] at hsame
    rw [← Bool.not_eq_true, ← n.isNegative_number,
      ← Display.head?_showNumber s.display.groupingSeparator s.display.places, ← hsame,
      Display.head?_showNumber, PlainNumeral.isNegative_number]
    exact Bool.noConfusion
  · intro hkept
    rw [Display.showAmount_numeral hdigit hpoint hkept]

/-- A blank for the separator, and rounding. -/
theorem showAmount_replaceCommas_blank :
    let s : Settings := { display := { groupingSeparator := ' ' } }
    let n : PlainNumeral :=
      { negative := true, whole := ⟨"001234567".toList, List.all_eq_true.mp (by decide)⟩,
        fraction := some ⟨"8996".toList, List.all_eq_true.mp (by decide)⟩,
        whole_ne_nil := by decide }
    s.check = .ok () ∧ n.text = "-001234567.8996" ∧
      s.display.showAmount n.text = "-1 234 567.9" ∧
      (s.display.showAmount n.text = Display.replaceCommas s.display.groupingSeparator
          (s.display.withCommas.showAmount n.text) ↔
        (s.display.groupingSeparator = '-' → n.negative = false)) := by
  intro s n
  have hcheck : s.check = .ok () := by decide
  exact ⟨hcheck, by decide, by decide +kernel, showAmount_replaceCommas_iff s n hcheck⟩

/-- A minus for the separator is accepted, and a negative numeral is shown **without its sign**. -/
theorem showAmount_loses_sign :
    let s : Settings := { display := { groupingSeparator := '-' } }
    let n : PlainNumeral :=
      { negative := true, whole := ⟨"1234".toList, List.all_eq_true.mp (by decide)⟩,
        fraction := none, whole_ne_nil := by decide }
    s.check = .ok () ∧ n.text = "-1234" ∧ s.display.showAmount n.text = "1-234" ∧
      Display.replaceCommas s.display.groupingSeparator
        (s.display.withCommas.showAmount n.text) = "-1-234" := by
  intro s n
  exact ⟨by decide, by decide, by decide +kernel, by decide +kernel⟩

end Settings

end Outreach
