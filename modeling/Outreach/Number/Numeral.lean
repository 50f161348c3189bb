/-!
# Decimal Numerals

The numeral at the front of a text: an optional sign, digits with an optional fraction, and an
optional exponent, as long as possible. A numeral denotes a signed whole number times a power of
ten.
-/

namespace Outreach

/-- A **numeral**: `significand * 10 ^ exponent`, below a sign. It denotes its number exactly. -/
structure Numeral where
  negative : Bool
  significand : Nat
  exponent : Int
  deriving DecidableEq, Repr

namespace Numeral

/-- The number that decimal digits denote, the first one counting most. No digits denote zero. -/
def natOfDigits (digits : List Char) : Nat :=
  digits.foldl (fun n d => 10 * n + (d.toNat - '0'.toNat)) 0

/-- The digits at the front of a text, and the rest. -/
def spanDigits (cs : List Char) : List Char × List Char :=
  (cs.takeWhile Char.isDigit, cs.dropWhile Char.isDigit)

/-- An optional sign at the front of a text: whether it is a minus, and the rest. -/
def readSign : List Char → Bool × List Char
  | '+' :: rest => (false, rest)
  | '-' :: rest => (true, rest)
  | cs => (false, cs)

/-- The exponent at the front of a text; zero, and nothing read, if there is none. -/
def readExponent (cs : List Char) : Int × List Char :=
  match cs with
  | [] => (0, cs)
  | mark :: after =>
    if mark == 'e' || mark == 'E' then
      let (negative, after) := readSign after
      match spanDigits after with
      | ([], _) => (0, cs)
      | (digits, rest) =>
        let size : Int := natOfDigits digits
        (if negative then -size else size, rest)
    else (0, cs)

/-- What is left behind the digits at the front of a text is no longer than the text. -/
theorem length_dropWhile_isDigit (cs : List Char) :
    (cs.dropWhile Char.isDigit).length ≤ cs.length :=
  (List.dropWhile_sublist _).length_le

/-- What is left behind a sign is no longer than the text. -/
theorem length_readSign (cs : List Char) : (readSign cs).2.length ≤ cs.length := by
  unfold readSign
  split <;> simp

/-- Reading an exponent leaves no more than there was. -/
theorem length_readExponent (cs : List Char) : (readExponent cs).2.length ≤ cs.length := by
  unfold readExponent
  split
  · simp
  · rename_i mark after
    split
    · have h1 := length_readSign after
      have h2 := length_dropWhile_isDigit (readSign after).2
      simp only [spanDigits]
      split
      · simp
      · rename_i heq
        simp only [Prod.mk.injEq] at heq
        rw [← heq.2]
        simp only [List.length_cons]
        omega
    · simp

/-- The fraction digits at the front of a text, after its point; none if there is no point. -/
def readFraction : List Char → List Char × List Char
  | '.' :: after => spanDigits after
  | cs => ([], cs)

/-- The longest numeral without a sign at the front of a text, with the rest. At least one digit
stands before or after the point. -/
def readUnsigned (negative : Bool) (cs : List Char) : Option (Numeral × List Char) :=
  let (whole, afterWhole) := spanDigits cs
  let (fraction, afterFraction) := readFraction afterWhole
  if whole.isEmpty && fraction.isEmpty then none
  else
    let (exponent, rest) := readExponent afterFraction
    some (⟨negative, natOfDigits (whole ++ fraction), exponent - fraction.length⟩, rest)

/-- The longest numeral at the front of a text, with the rest. -/
def read (cs : List Char) : Option (Numeral × List Char) :=
  let (negative, rest) := readSign cs
  readUnsigned negative rest

/-- The numeral that a whole text is, with nothing left behind it. -/
def ofText? (cs : List Char) : Option Numeral :=
  match read cs with
  | some (numeral, []) => some numeral
  | _ => none

end Numeral

end Outreach
