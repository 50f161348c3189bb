import Mathlib.Data.List.TakeWhile
import Outreach.Number.Leading
import Outreach.Proofs.Number.Digits
import Outreach.Proofs.Number.Nearest

/-!
# The Longest Number at the Front of a Text

A number is written as an optional sign with the word for infinity or a decimal behind it: digits
with an optional point and optional further digits, or a point with digits, and then an optional
exponent. Of all the numbers that a text starts with, the reader finds the longest.

Each part is read as far as it goes. What makes this right is that no part can start with a digit
where digits may end: whoever stops within the digits has nothing left to write.

## Main definitions

* `WrittenNumber`: the numbers as they are written; `WrittenNumber.Denotes`: the number of the
  binary format that they stand for.
* `IsLongest`: what a text starts with, and all else of its kind that it starts with is shorter.

## Main results

* `IsLongest.digits_append`: digits as far as they go, and the longest that comes behind them.
* `WrittenNumber.leadingNumber?_longest`: **the leading number of a text is the longest number that
  is written at its front**.
-/

namespace Outreach

/-! ### How numbers are written -/

/-- **Digits** as they are written; there may be none. Zeros in front count as digits. -/
@[ext] structure Digits where
  chars : List Char
  isDigit : ∀ d ∈ chars, d.isDigit = true

/-- A **sign** as it is written. A sign that is absent and a plus mean the same. -/
inductive Sign where
  | absent
  | plus
  | minus
  deriving DecidableEq, Repr

/-- The characters of a sign. -/
def Sign.chars : Sign → List Char
  | absent => []
  | plus => ['+']
  | minus => ['-']

/-- Whether a sign is a minus. -/
def Sign.isMinus : Sign → Bool
  | minus => true
  | _ => false

/-- A sign that is a minus is written as one. -/
theorem Sign.minus_mem_chars {sign : Sign} (h : sign.isMinus = true) : '-' ∈ sign.chars := by
  cases sign with
  | absent => exact absurd h (by decide)
  | plus => exact absurd h (by decide)
  | minus => exact List.mem_singleton_self _

/-- An **exponent** as it is written: a mark, an optional sign, and digits. -/
@[ext] structure WrittenExponent where
  mark : Char
  sign : Sign
  digits : Digits
  isMark : mark = 'e' ∨ mark = 'E'
  ne_nil : digits.chars ≠ []

/-- The characters of an exponent. -/
def WrittenExponent.chars (e : WrittenExponent) : List Char :=
  e.mark :: (e.sign.chars ++ e.digits.chars)

/-- The whole number that an exponent is, by its sign and its digits. -/
def WrittenExponent.value (e : WrittenExponent) : Int :=
  if e.sign.isMinus then -Numeral.natOfDigits e.digits.chars
  else Numeral.natOfDigits e.digits.chars

/-- The characters of an optional fraction, with its point. -/
def fractionChars : Option Digits → List Char
  | none => []
  | some fraction => '.' :: fraction.chars

/-- The digits of an optional fraction. -/
def fractionDigits : Option Digits → List Char
  | none => []
  | some fraction => fraction.chars

/-- The characters of an optional exponent. -/
def exponentChars : Option WrittenExponent → List Char
  | none => []
  | some exponent => exponent.chars

/-- The whole number that an optional exponent is. -/
def exponentValue : Option WrittenExponent → Int
  | none => 0
  | some exponent => exponent.value

/-- A **decimal** as it is written, with at least one digit before or behind the point. -/
structure WrittenDecimal where
  whole : Digits
  fraction : Option Digits
  exponent : Option WrittenExponent
  has_digit : whole.chars ≠ [] ∨ fractionDigits fraction ≠ []

/-- The characters of a decimal. -/
def WrittenDecimal.chars (d : WrittenDecimal) : List Char :=
  d.whole.chars ++ (fractionChars d.fraction ++ exponentChars d.exponent)

/-- The magnitude that a decimal denotes, as an exact rational number. -/
def WrittenDecimal.magnitude (d : WrittenDecimal) : ℚ :=
  (Numeral.natOfDigits d.whole.chars +
    Numeral.natOfDigits (fractionDigits d.fraction) / 10 ^ (fractionDigits d.fraction).length) *
      10 ^ exponentValue d.exponent

/-- A **number** as it is written: a decimal or the word for infinity, with its sign. -/
inductive WrittenNumber where
  | infinity (sign : Sign)
  | decimal (sign : Sign) (d : WrittenDecimal)

namespace WrittenNumber

/-- The characters of a number. -/
def chars : WrittenNumber → List Char
  | infinity sign => sign.chars ++ "Infinity".toList
  | decimal sign d => sign.chars ++ d.chars

/-- The number of the binary format that a written number **denotes**: an infinite one, or the one
nearest to its magnitude, under its sign. -/
def Denotes : WrittenNumber → Binary64 → Prop
  | infinity sign, x => x = .infinite sign.isMinus
  | decimal sign d, x => Binary64.IsNearest sign.isMinus d.magnitude x

/-- A number is the **longest** at the front of a text if the text starts with it and with no number
that is longer. -/
structure IsLongestAt (w : WrittenNumber) (cs : List Char) : Prop where
  starts : w.chars <+: cs
  longest : ∀ w' : WrittenNumber, w'.chars <+: cs → w'.chars.length ≤ w.chars.length

end WrittenNumber

/-! ### The longest at the front -/

/-- A text starts with one thing of a kind, and all others of its kind that it starts with are
**shorter**. -/
structure IsLongest {α : Type} (chars : α → List Char) (a : α) (cs : List Char) : Prop where
  starts : chars a <+: cs
  unique : ∀ b, chars b <+: cs → b = a ∨ (chars b).length < (chars a).length

/-- The digits at the front of a text, as far as they go. -/
def Digits.front (cs : List Char) : Digits :=
  ⟨cs.takeWhile Char.isDigit, fun _ => List.mem_takeWhile_imp⟩

@[simp] theorem Digits.front_chars (cs : List Char) :
    (front cs).chars = cs.takeWhile Char.isDigit := rfl

/-- Digits at the front of a text end where its digits end, or nothing follows them. -/
theorem Digits.prefix_cases (ds : Digits) {t cs : List Char}
    (ht : ∀ c ∈ t.head?, c.isDigit = false) (h : ds.chars ++ t <+: cs) :
    t = [] ∧ ds.chars <+: (front cs).chars ∨ ds = front cs ∧ t <+: cs.dropWhile Char.isDigit := by
  obtain ⟨rest, rfl⟩ := h
  rw [List.append_assoc]
  cases t with
  | nil =>
      left
      rw [front_chars, List.nil_append, List.takeWhile_append_of_pos ds.isDigit]
      exact ⟨rfl, List.prefix_append _ _⟩
  | cons c t =>
      right
      have hc : c.isDigit = false := ht c rfl
      constructor
      · ext1
        rw [front_chars, List.takeWhile_append_of_pos ds.isDigit, List.cons_append,
          List.takeWhile_cons_of_neg (by simp [hc]), List.append_nil]
      · rw [List.dropWhile_append_of_pos ds.isDigit, List.cons_append,
          List.dropWhile_cons_of_neg (by simp [hc])]
        exact ⟨rest, rfl⟩

/-- **Digits as far as they go, with the longest that comes behind them**, are the longest of both
together. -/
theorem IsLongest.digits_append {β : Type} {chars : β → List Char} {b : β} {cs : List Char}
    (hhead : ∀ b, ∀ c ∈ (chars b).head?, c.isDigit = false)
    (h : IsLongest chars b (cs.dropWhile Char.isDigit)) :
    IsLongest (fun p : Digits × β => p.1.chars ++ chars p.2) (Digits.front cs, b) cs where
  starts := by
    have hcs := List.takeWhile_append_dropWhile (p := Char.isDigit) (l := cs)
    conv_rhs => rw [← hcs]
    exact (List.prefix_append_right_inj _).mpr h.starts
  unique := by
    rintro ⟨ds, b'⟩ hstarts
    rcases ds.prefix_cases (hhead b') hstarts with ⟨hnil, hfront⟩ | ⟨rfl, hrest⟩
    · have hle := hfront.length_le
      by_cases hshort : (ds.chars ++ chars b').length < ((Digits.front cs).chars ++ chars b).length
      · exact .inr hshort
      · -- nothing is written behind the digits on either side
        left
        rw [hnil, List.append_nil, List.length_append] at hshort
        have hds : ds = Digits.front cs := Digits.ext (hfront.eq_of_length (by omega))
        rcases h.unique b' (by rw [hnil]; exact List.nil_prefix) with rfl | hlt
        · rw [hds]
        · rw [hnil, List.length_nil] at hlt
          omega
    · rcases h.unique b' hrest with rfl | hlt
      · exact .inl rfl
      · right
        simp only [List.length_append]
        omega

/-! ### Signs -/

/-- A sign at the front of a text is the one that is read, whatever comes behind it that is no
sign. -/
theorem exists_sign_of_readSign (cs : List Char) :
    ∃ sign : Sign, cs = sign.chars ++ (Numeral.readSign cs).2 ∧
      (Numeral.readSign cs).1 = sign.isMinus ∧
      ∀ (sign' : Sign) (c : Char) (t : List Char), c ≠ '+' → c ≠ '-' →
        sign'.chars ++ c :: t <+: cs → sign' = sign ∧ c :: t <+: (Numeral.readSign cs).2 := by
  unfold Numeral.readSign
  split
  · refine ⟨.plus, rfl, rfl, fun sign' c t hplus hminus h => ?_⟩
    cases sign' with
    | absent => exact absurd (List.cons_prefix_cons.mp h).1 hplus
    | plus => exact ⟨rfl, (List.cons_prefix_cons.mp h).2⟩
    | minus => exact absurd (List.cons_prefix_cons.mp h).1 (by decide)
  · refine ⟨.minus, rfl, rfl, fun sign' c t hplus hminus h => ?_⟩
    cases sign' with
    | absent => exact absurd (List.cons_prefix_cons.mp h).1 hminus
    | plus => exact absurd (List.cons_prefix_cons.mp h).1 (by decide)
    | minus => exact ⟨rfl, (List.cons_prefix_cons.mp h).2⟩
  · rename_i hplus' hminus'
    refine ⟨.absent, rfl, rfl, fun sign' c t hplus hminus h => ?_⟩
    obtain ⟨rest, rfl⟩ := h
    cases sign' with
    | absent => exact ⟨rfl, rest, rfl⟩
    | plus => exact absurd rfl (hplus' _)
    | minus => exact absurd rfl (hminus' _)

/-! ### Exponents -/

/-- Where no exponent stands, none is the longest. -/
theorem isLongest_no_exponent {cs : List Char} (h : ∀ e : WrittenExponent, ¬ e.chars <+: cs) :
    IsLongest exponentChars none cs where
  starts := List.nil_prefix
  unique b hb := by
    cases b with
    | none => exact .inl rfl
    | some e => exact absurd hb (h e)

/-- An exponent is no digit at its front. -/
theorem isDigit_of_mem_head?_exponentChars (e : Option WrittenExponent) :
    ∀ c ∈ (exponentChars e).head?, c.isDigit = false := by
  intro c hc
  cases e with
  | none => exact absurd hc (by simp [exponentChars])
  | some e =>
      obtain rfl : e.mark = c := by simpa [exponentChars, WrittenExponent.chars] using hc
      rcases e.isMark with hmark | hmark <;> rw [hmark] <;> rfl

/-- **The longest exponent at the front of a text is read.** -/
theorem exists_exponent_of_readExponent (cs : List Char) :
    ∃ e : Option WrittenExponent, (Numeral.readExponent cs).1 = exponentValue e ∧
      IsLongest exponentChars e cs := by
  unfold Numeral.readExponent
  split
  · exact ⟨none, rfl, isLongest_no_exponent fun e h => by
      simpa [WrittenExponent.chars] using h.length_le⟩
  · rename_i mark after
    split
    · rename_i hmark
      have hmark' : mark = 'e' ∨ mark = 'E' := by simpa using hmark
      obtain ⟨sign, hafter, hminus, hsign⟩ := exists_sign_of_readSign after
      -- mark and sign of an exponent that stands here are these
      have hparts : ∀ e : WrittenExponent, e.chars <+: mark :: after →
          e.mark = mark ∧ e.sign = sign ∧
            e.digits.chars <+: (Digits.front (Numeral.readSign after).2).chars := by
        intro e he
        obtain ⟨hfront, hafter⟩ := List.cons_prefix_cons.mp he
        obtain ⟨d, ds, hdigits⟩ := List.exists_cons_of_ne_nil e.ne_nil
        have hd : d.isDigit = true := e.digits.isDigit d (hdigits ▸ List.mem_cons_self)
        rw [hdigits] at hafter
        obtain ⟨hsame, hrest⟩ := hsign e.sign d ds (by rintro rfl; exact absurd hd (by decide))
          (by rintro rfl; exact absurd hd (by decide)) hafter
        rw [← hdigits, ← List.append_nil e.digits.chars] at hrest
        rcases e.digits.prefix_cases (by simp) hrest with ⟨-, hle⟩ | ⟨heq, -⟩
        · exact ⟨hfront, hsame, hle⟩
        · exact ⟨hfront, hsame, by rw [heq]⟩
      simp only [Numeral.spanDigits]
      split
      · rename_i hspan
        have hnone : (Digits.front (Numeral.readSign after).2).chars = [] := congrArg Prod.fst hspan
        refine ⟨none, rfl, isLongest_no_exponent fun e he => e.ne_nil ?_⟩
        exact List.prefix_nil.mp (hnone ▸ (hparts e he).2.2)
      · rename_i digits rest hsome hspan
        obtain ⟨rfl, -⟩ := Prod.mk.inj hspan
        have hne : (Digits.front (Numeral.readSign after).2).chars ≠ [] := hsome
        refine ⟨some ⟨mark, sign, Digits.front (Numeral.readSign after).2, hmark', hne⟩, ?_, ?_, ?_⟩
        · simp only [exponentValue, WrittenExponent.value, hminus, Digits.front_chars]
        · conv_rhs => rw [hafter]
          exact List.cons_prefix_cons.mpr
            ⟨rfl, (List.prefix_append_right_inj _).mpr (List.takeWhile_prefix _)⟩
        · rintro (_ | e) he
          · right
            simp [exponentChars, WrittenExponent.chars]
          · obtain ⟨hfront, hsame, hle⟩ := hparts e he
            rcases Nat.lt_or_eq_of_le hle.length_le with hlt | heq
            · right
              simp only [exponentChars, WrittenExponent.chars, List.length_cons, List.length_append,
                hsame]
              omega
            · left
              exact congrArg some
                (WrittenExponent.ext hfront hsame (Digits.ext (hle.eq_of_length heq)))
    · rename_i hmark
      refine ⟨none, rfl, isLongest_no_exponent fun e he => hmark ?_⟩
      have hfront := (List.cons_prefix_cons.mp he).1
      simpa [← hfront] using e.isMark

/-! ### Decimals -/

/-- What comes behind the whole part of a decimal: an optional fraction and an optional exponent. -/
def tailChars (tail : Option Digits × Option WrittenExponent) : List Char :=
  fractionChars tail.1 ++ exponentChars tail.2

/-- What comes behind the whole part is no digit at its front. -/
theorem isDigit_of_mem_head?_tailChars (tail : Option Digits × Option WrittenExponent) :
    ∀ c ∈ (tailChars tail).head?, c.isDigit = false := by
  obtain ⟨_ | fraction, exponent⟩ := tail
  · exact isDigit_of_mem_head?_exponentChars exponent
  · rintro c hc
    obtain rfl : '.' = c := Option.some.inj hc
    rfl

/-- **The longest fraction with an exponent at the front of a text is read.** -/
theorem exists_tail_of_readFraction (cs : List Char) :
    ∃ fraction exponent, (Numeral.readFraction cs).1 = fractionDigits fraction ∧
      (Numeral.readExponent (Numeral.readFraction cs).2).1 = exponentValue exponent ∧
      IsLongest tailChars (fraction, exponent) cs := by
  unfold Numeral.readFraction
  split
  · rename_i after
    obtain ⟨exponent, hvalue, hlongest⟩ :=
      exists_exponent_of_readExponent (after.dropWhile Char.isDigit)
    have hdigits := hlongest.digits_append isDigit_of_mem_head?_exponentChars
    refine ⟨some (Digits.front after), exponent, rfl, hvalue, ?_, ?_⟩
    · exact List.cons_prefix_cons.mpr ⟨rfl, hdigits.starts⟩
    · rintro ⟨_ | fraction, exponent'⟩ h
      · -- an exponent does not start with a point
        right
        cases exponent' with
        | none => simp [tailChars, fractionChars, exponentChars]
        | some e =>
            have hmark : e.mark = '.' := (List.cons_prefix_cons.mp h).1
            rcases e.isMark with h' | h' <;> exact absurd (hmark.symm.trans h') (by decide)
      · rcases hdigits.unique (fraction, exponent') (List.cons_prefix_cons.mp h).2 with heq | hlt
        · left
          obtain ⟨rfl, rfl⟩ := Prod.mk.inj heq
          rfl
        · right
          exact Nat.succ_lt_succ hlt
  · rename_i hpoint
    obtain ⟨exponent, hvalue, hlongest⟩ := exists_exponent_of_readExponent cs
    refine ⟨none, exponent, rfl, hvalue, hlongest.starts, ?_⟩
    rintro ⟨_ | fraction, exponent'⟩ h
    · rcases hlongest.unique exponent' h with rfl | hlt
      · exact .inl rfl
      · exact .inr hlt
    · obtain ⟨rest, hrest⟩ := h
      exact absurd hrest.symm (hpoint _)

/-- The numeral that a decimal is, under a sign: all its digits as one number, and the exponent
moved by the fraction. -/
def WrittenDecimal.numeral (negative : Bool) (d : WrittenDecimal) : Numeral where
  negative := negative
  significand := Numeral.natOfDigits (d.whole.chars ++ fractionDigits d.fraction)
  exponent := exponentValue d.exponent - (fractionDigits d.fraction).length

/-- A decimal and its numeral have one magnitude. -/
theorem WrittenDecimal.magnitude_numeral (negative : Bool) (d : WrittenDecimal) :
    (d.numeral negative).magnitude = d.magnitude := by
  have hten : (10 : ℚ) ≠ 0 := by norm_num
  simp only [Numeral.magnitude, numeral, magnitude, Numeral.natOfDigits_append]
  push_cast [tenPow_cast]
  rw [zpow_sub₀ hten, zpow_natCast]
  field_simp

/-- Where no digit is read before or behind a point, no decimal is written. -/
theorem not_prefix_of_no_digit {cs : List Char} (hwhole : cs.takeWhile Char.isDigit = [])
    (hfraction : (Numeral.readFraction (cs.dropWhile Char.isDigit)).1 = []) (d : WrittenDecimal) :
    ¬ d.chars <+: cs := by
  intro h
  rcases d.whole.prefix_cases (isDigit_of_mem_head?_tailChars (d.fraction, d.exponent)) h with
    ⟨htail, hle⟩ | ⟨heq, htail⟩
  · have hnil : d.whole.chars = [] := List.prefix_nil.mp (hwhole ▸ hle)
    have hnone : fractionChars d.fraction = [] := (List.append_eq_nil_iff.mp htail).1
    rcases d.has_digit with hdigit | hdigit
    · exact hdigit hnil
    · cases hd : d.fraction with
      | none => exact hdigit (by rw [hd]; rfl)
      | some fraction => simp [hd, fractionChars] at hnone
  · have hnil : d.whole.chars = [] := by rw [heq, Digits.front_chars, hwhole]
    have hdigit := d.has_digit.resolve_left (not_not_intro hnil)
    cases hd : d.fraction with
    | none => exact hdigit (by rw [hd]; rfl)
    | some fraction =>
        rw [hd] at hdigit htail
        obtain ⟨rest, hrest⟩ := htail
        rw [← hrest] at hfraction
        have hfront : fraction.chars <+: (Digits.front (fraction.chars ++
            (exponentChars d.exponent ++ rest))).chars := by
          rw [Digits.front_chars, List.takeWhile_append_of_pos fraction.isDigit]
          exact List.prefix_append _ _
        have hread : (Digits.front (fraction.chars ++ (exponentChars d.exponent ++ rest))).chars =
            [] := by
          simpa [tailChars, fractionChars, Numeral.readFraction, Numeral.spanDigits] using hfraction
        exact hdigit (List.prefix_nil.mp (hread ▸ hfront))

/-- **The longest decimal at the front of a text is read**, or none is written there. -/
theorem exists_decimal_of_readUnsigned (negative : Bool) (cs : List Char) :
    (Numeral.readUnsigned negative cs = none ∧ ∀ d : WrittenDecimal, ¬ d.chars <+: cs) ∨
      ∃ (d : WrittenDecimal) (rest : List Char),
        Numeral.readUnsigned negative cs = some (d.numeral negative, rest) ∧
          IsLongest WrittenDecimal.chars d cs := by
  obtain ⟨fraction, exponent, hfraction, hexponent, htail⟩ :=
    exists_tail_of_readFraction (cs.dropWhile Char.isDigit)
  have hlongest := htail.digits_append isDigit_of_mem_head?_tailChars
  simp only [Numeral.readUnsigned, Numeral.spanDigits, hfraction, hexponent]
  split
  · rename_i hempty
    left
    simp only [Bool.and_eq_true, List.isEmpty_iff] at hempty
    exact ⟨rfl, not_prefix_of_no_digit hempty.1 (hfraction.trans hempty.2)⟩
  · rename_i hdigit
    right
    have hdigit' : cs.takeWhile Char.isDigit ≠ [] ∨ fractionDigits fraction ≠ [] := by
      simpa only [Bool.and_eq_true, List.isEmpty_iff, not_and_or] using hdigit
    refine ⟨⟨Digits.front cs, fraction, exponent, hdigit'⟩, _, rfl, hlongest.starts, ?_⟩
    rintro ⟨whole', fraction', exponent', hdigit''⟩ h
    rcases hlongest.unique (whole', fraction', exponent') h with heq | hlt
    · left
      simp only [Prod.mk.injEq] at heq
      obtain ⟨rfl, rfl, rfl⟩ := heq
      rfl
    · exact .inr hlt

/-! ### Numbers -/

/-- The rest behind a word is there exactly if the text starts with the word. -/
theorem dropWord?_isSome_iff (word cs : List Char) :
    (dropWord? word cs).isSome = true ↔ word <+: cs := by
  induction word generalizing cs with
  | nil => simp [dropWord?]
  | cons w word ih =>
      cases cs with
      | nil => simp [dropWord?]
      | cons c cs =>
          rw [dropWord?, List.cons_prefix_cons]
          by_cases hw : w = c
          · rw [if_pos hw, ih cs]
            exact (and_iff_right hw).symm
          · rw [if_neg hw]
            simp [hw]

/-- A decimal starts with a digit or a point. -/
theorem WrittenDecimal.exists_chars_eq_cons (d : WrittenDecimal) :
    ∃ c t, d.chars = c :: t ∧ (c.isDigit = true ∨ c = '.') := by
  cases hwhole : d.whole.chars with
  | cons c ds =>
      refine ⟨c, ds ++ (fractionChars d.fraction ++ exponentChars d.exponent), ?_,
        .inl (d.whole.isDigit c (hwhole ▸ List.mem_cons_self))⟩
      rw [chars, hwhole, List.cons_append]
  | nil =>
      have hdigit := d.has_digit.resolve_left (not_not_intro hwhole)
      cases hfraction : d.fraction with
      | none => exact absurd (by rw [hfraction]; rfl) hdigit
      | some fraction =>
          refine ⟨'.', fraction.chars ++ exponentChars d.exponent, ?_, .inr rfl⟩
          rw [chars, hwhole, hfraction]
          rfl

namespace WrittenNumber

/-- The number of the binary format that a written number is read as. -/
def number : WrittenNumber → Binary64
  | infinity sign => .infinite sign.isMinus
  | decimal sign d => Binary64.ofNumeral (d.numeral sign.isMinus)

/-- What a written number is read as is what it denotes. -/
theorem denotes_number (w : WrittenNumber) : w.Denotes w.number := by
  cases w with
  | infinity sign => exact rfl
  | decimal sign d =>
      have hnearest := Binary64.isNearest_ofNumeral (d.numeral sign.isMinus)
      rwa [d.magnitude_numeral] at hnearest

/-- **The longest number at the front of a text is read**, or none is written there. -/
theorem exists_number_of_leadingNumber? (cs : List Char) :
    (leadingNumber? cs = none ∧ ∀ w : WrittenNumber, ¬ w.chars <+: Text.trimStart cs) ∨
      ∃ w : WrittenNumber, leadingNumber? cs = some w.number ∧
        IsLongest chars w (Text.trimStart cs) := by
  obtain ⟨sign, hcs, hminus, hsign⟩ := exists_sign_of_readSign (Text.trimStart cs)
  rw [leadingNumber?]
  generalize Numeral.readSign (Text.trimStart cs) = signed at hcs hminus hsign ⊢
  obtain ⟨negative, rest⟩ := signed
  simp only at hcs hminus hsign ⊢
  -- behind its sign a number of either kind starts with no sign
  have hinfinity : ∀ sign', (infinity sign').chars <+: Text.trimStart cs →
      sign' = sign ∧ "Infinity".toList <+: rest := fun sign' h =>
    hsign sign' 'I' "nfinity".toList (by decide) (by decide) h
  have hdecimal : ∀ sign' (d : WrittenDecimal), (decimal sign' d).chars <+: Text.trimStart cs →
      sign' = sign ∧ d.chars <+: rest := by
    intro sign' d h
    obtain ⟨c, t, hchars, hc⟩ := d.exists_chars_eq_cons
    rw [chars, hchars] at h
    rw [hchars]
    refine hsign sign' c t ?_ ?_ h
    · rintro rfl
      exact absurd hc (by decide)
    · rintro rfl
      exact absurd hc (by decide)
  rw [hcs] at hinfinity hdecimal ⊢
  by_cases hword : "Infinity".toList <+: rest
  · right
    refine ⟨infinity sign, ?_, (List.prefix_append_right_inj _).mpr hword, ?_⟩
    · rw [if_pos ((dropWord?_isSome_iff _ _).mpr hword), hminus]
      rfl
    · rintro (sign' | ⟨sign', d⟩) h
      · rw [(hinfinity sign' h).1]
        exact .inl rfl
      · -- no decimal starts like the word
        obtain ⟨c, t, hchars, hc⟩ := d.exists_chars_eq_cons
        obtain ⟨rest', rfl⟩ := hword
        have hfront := (hdecimal sign' d h).2
        rw [hchars] at hfront
        obtain rfl : c = 'I' := (List.cons_prefix_cons.mp hfront).1
        exact absurd hc (by decide)
  · have hword' : (dropWord? "Infinity".toList rest).isSome = false := by
      rw [← Bool.not_eq_true, dropWord?_isSome_iff]
      exact hword
    simp only [hword', Bool.false_eq_true, if_false]
    rcases exists_decimal_of_readUnsigned negative rest with
      ⟨hnone, hall⟩ | ⟨d, rest', hsome, hlongest⟩
    · left
      rw [hnone]
      refine ⟨rfl, ?_⟩
      rintro (sign' | ⟨sign', d⟩) h
      · exact hword (hinfinity sign' h).2
      · exact hall d (hdecimal sign' d h).2
    · right
      rw [hsome, hminus]
      refine ⟨decimal sign d, rfl, (List.prefix_append_right_inj _).mpr hlongest.starts, ?_⟩
      rintro (sign' | ⟨sign', d'⟩) h
      · exact absurd (hinfinity sign' h).2 hword
      · obtain ⟨rfl, hfront⟩ := hdecimal sign' d' h
        rcases hlongest.unique d' hfront with rfl | hlt
        · exact .inl rfl
        · right
          simp only [chars, List.length_append]
          omega

/-- No blank stands in front of a number. -/
theorem trimStart_chars (w : WrittenNumber) : Text.trimStart w.chars = w.chars := by
  -- behind the sign there is a letter, a digit or a point
  have hfront : ∃ (sign : Sign) (c : Char) (t : List Char), w.chars = sign.chars ++ c :: t ∧
      Text.isBlank c = false := by
    cases w with
    | infinity sign => exact ⟨sign, 'I', "nfinity".toList, rfl, rfl⟩
    | decimal sign d =>
        obtain ⟨c, t, hchars, hdigit | rfl⟩ := d.exists_chars_eq_cons
        · exact ⟨sign, c, t, by rw [chars, hchars], Text.isBlank_of_isDigit hdigit⟩
        · exact ⟨sign, '.', t, by rw [chars, hchars], rfl⟩
  obtain ⟨sign, c, t, hchars, hblank⟩ := hfront
  rw [Text.trimStart_eq_self_iff, hchars]
  rintro front hhead
  cases sign with
  | absent => exact Option.some.inj hhead ▸ hblank
  | plus => exact Option.some.inj hhead ▸ rfl
  | minus => exact Option.some.inj hhead ▸ rfl

/-- **A number is read from what is written for it.** -/
theorem leadingNumber?_chars (w : WrittenNumber) : leadingNumber? w.chars = some w.number := by
  rcases exists_number_of_leadingNumber? w.chars with ⟨-, hall⟩ | ⟨w', hsome, hlongest⟩
  · rw [w.trimStart_chars] at hall
    exact absurd List.prefix_rfl (hall w)
  · rw [w.trimStart_chars] at hlongest
    rcases hlongest.unique w List.prefix_rfl with rfl | hlt
    · exact hsome
    · exact absurd hlongest.starts.length_le (Nat.not_le.mpr hlt)

/-- What a text is read as is denoted by a number at its front. -/
theorem exists_denotes {cs : List Char} {x : Binary64} (h : leadingNumber? cs = some x) :
    ∃ w : WrittenNumber, w.Denotes x ∧ w.chars <+: Text.trimStart cs := by
  rcases exists_number_of_leadingNumber? cs with ⟨hnone, -⟩ | ⟨w, hsome, hlongest⟩
  · rw [hnone] at h
    exact absurd h (by simp)
  · obtain rfl : w.number = x := Option.some.inj (hsome.symm.trans h)
    exact ⟨w, w.denotes_number, hlongest.starts⟩

/-- A finite number that is read is one of the format. -/
theorem isInFormat_of_leadingNumber? {cs : List Char} {negative : Bool} {mantissa scale : ℕ}
    (h : leadingNumber? cs = some (.finite negative mantissa scale)) :
    Binary64.IsInFormat mantissa scale := by
  obtain ⟨w, hdenotes, -⟩ := exists_denotes h
  cases w with
  | infinity sign => exact Binary64.noConfusion hdenotes
  | decimal sign d =>
      obtain ⟨hformat⟩ := hdenotes
      exact hformat

/-- A number has a digit, or it is the word for infinity. -/
theorem exists_mem_chars (w : WrittenNumber) : ∃ c ∈ w.chars, c.isDigit = true ∨ c = 'I' := by
  cases w with
  | infinity sign =>
      exact ⟨'I', List.mem_append_right _ (by decide), .inr rfl⟩
  | decimal sign d =>
      suffices hdigit : ∃ c ∈ d.chars, c.isDigit = true by
        obtain ⟨c, hc, hdigit⟩ := hdigit
        exact ⟨c, List.mem_append_right _ hc, .inl hdigit⟩
      rcases d.has_digit with hne | hne
      · obtain ⟨c, hc⟩ := List.exists_mem_of_ne_nil _ hne
        exact ⟨c, List.mem_append_left _ hc, d.whole.isDigit c hc⟩
      · obtain ⟨c, hc⟩ := List.exists_mem_of_ne_nil _ hne
        cases hfraction : d.fraction with
        | none => exact absurd (by rw [hfraction]; rfl) hne
        | some fraction =>
            rw [hfraction] at hc
            refine ⟨c, List.mem_append_right _ (List.mem_append_left _ ?_), fraction.isDigit c hc⟩
            rw [hfraction]
            exact List.mem_cons_of_mem _ hc

/-- Without a digit and without the word for infinity no number is read. -/
theorem leadingNumber?_eq_none {cs : List Char} (h : ∀ c ∈ cs, c.isDigit = false ∧ c ≠ 'I') :
    leadingNumber? cs = none := by
  by_contra hne
  obtain ⟨x, hx⟩ := Option.ne_none_iff_exists'.mp hne
  obtain ⟨w, -, hstarts⟩ := exists_denotes hx
  obtain ⟨c, hc, hdigit⟩ := w.exists_mem_chars
  obtain ⟨hno, hword⟩ := h c ((List.dropWhile_sublist _).subset (hstarts.subset hc))
  rcases hdigit with hdigit | hdigit
  · exact absurd hdigit (by simp [hno])
  · exact hword hdigit

/-- A number is read as negative only if a minus is written. -/
theorem minus_mem_of_isNegative {cs : List Char} {x : Binary64} (h : leadingNumber? cs = some x)
    (hnegative : x.isNegative = true) : '-' ∈ cs := by
  obtain ⟨w, hdenotes, hstarts⟩ := exists_denotes h
  have hmem : '-' ∈ w.chars := by
    cases w with
    | infinity sign =>
        rw [hdenotes] at hnegative
        exact List.mem_append_left _ (sign.minus_mem_chars hnegative)
    | decimal sign d =>
        exact List.mem_append_left _ (sign.minus_mem_chars (hdenotes.isNegative_eq ▸ hnegative))
  exact (List.dropWhile_sublist _).subset (hstarts.subset hmem)

/-- A number is the longest that is written at the front of a text if all others there are
shorter. -/
theorem isLongestAt_of_isLongest {w : WrittenNumber} {cs : List Char} (h : IsLongest chars w cs) :
    w.IsLongestAt cs where
  starts := h.starts
  longest w' hw' := by
    rcases h.unique w' hw' with rfl | hlt
    · exact Nat.le_refl _
    · exact Nat.le_of_lt hlt

/-- **The leading number of a text is the longest number that is written at its front**, blanks
aside, and the nearest number of the binary format is what it is read as. There is none exactly if
the text starts with no number. What follows the number does not matter. -/
theorem leadingNumber?_longest :
    (∀ cs, leadingNumber? cs = none ↔ ∀ w : WrittenNumber, ¬ w.chars <+: Text.trimStart cs) ∧
      (∀ cs, leadingNumber? cs ≠ none → ∃ w : WrittenNumber, w.IsLongestAt (Text.trimStart cs)) ∧
        ∀ w : WrittenNumber, ∃ x, w.Denotes x ∧
          ∀ cs, w.IsLongestAt (Text.trimStart cs) → leadingNumber? cs = some x := by
  refine ⟨fun cs => ?_, fun cs hne => ?_, fun w => ⟨w.number, w.denotes_number, fun cs hw => ?_⟩⟩
  · rcases exists_number_of_leadingNumber? cs with ⟨hnone, hall⟩ | ⟨w, hsome, hlongest⟩
    · exact iff_of_true hnone hall
    · exact iff_of_false (by simp [hsome]) fun hall => hall w hlongest.starts
  · rcases exists_number_of_leadingNumber? cs with ⟨hnone, -⟩ | ⟨w, -, hlongest⟩
    · exact absurd hnone hne
    · exact ⟨w, isLongestAt_of_isLongest hlongest⟩
  · rcases exists_number_of_leadingNumber? cs with ⟨-, hall⟩ | ⟨w', hsome, hlongest⟩
    · exact absurd hw.starts (hall w)
    · rcases hlongest.unique w hw.starts with rfl | hlt
      · exact hsome
      · exact absurd (hw.longest w' hlongest.starts) (Nat.not_le.mpr hlt)

-- an exponent without digits is no part of the number
example : leadingNumber? " -3.5e2e+x".toList = leadingNumber? "-350".toList := by decide +kernel

end WrittenNumber

end Outreach
