/-!
# Blank Characters and Trimming

A character is *blank* when it has the Unicode property `White_Space`. Every comparison of a
field value, a preset name or a fan offer first trims the blanks at both ends.

## Main results

* `trimStart_eq_self_iff`: trimming the front changes nothing exactly when the text does not
  start with a blank.
-/

namespace Outreach.Text

/-- A **blank** character, one of the 25 that carry the Unicode property `White_Space`. -/
def isBlank (c : Char) : Bool :=
  let n := c.toNat
  (0x09 ≤ n && n ≤ 0x0D) || n == 0x20 || n == 0x85 || n == 0xA0 || n == 0x1680
    || (0x2000 ≤ n && n ≤ 0x200A) || n == 0x2028 || n == 0x2029 || n == 0x202F || n == 0x205F
    || n == 0x3000

/-- The text without the blanks at its front. A text of blanks only becomes empty. -/
def trimStart (cs : List Char) : List Char :=
  cs.dropWhile isBlank

/-- The text without the blanks at its back. A text of blanks only becomes empty. -/
def trimEnd (cs : List Char) : List Char :=
  (cs.reverse.dropWhile isBlank).reverse

/-- The text without the blanks at both ends; those inside stay. -/
def trimChars (cs : List Char) : List Char :=
  trimEnd (trimStart cs)

/-- The string without the blanks at both ends; those inside stay. -/
def trim (s : String) : String :=
  String.ofList (trimChars s.toList)

/-- A string is **blank** when it has no character but blank ones. -/
def isBlankText (s : String) : Bool :=
  (trim s).isEmpty

/-! ### Basic facts -/

/-- A digit is not blank. -/
theorem isBlank_of_isDigit {c : Char} (h : c.isDigit = true) : isBlank c = false := by
  obtain ⟨hzero, hnine⟩ : 48 ≤ c.toNat ∧ c.toNat ≤ 57 := Char.isDigit_iff_toNat.mp h
  simp only [isBlank, Bool.or_eq_false_iff, Bool.and_eq_false_iff, decide_eq_false_iff_not,
    beq_eq_false_iff_ne]
  omega

@[simp] theorem trimStart_nil : trimStart [] = [] := rfl

/-- Trimming the front of a text drops its first character if that is blank and goes on, or ends
there. -/
theorem trimStart_cons (c : Char) (cs : List Char) :
    trimStart (c :: cs) = if isBlank c then trimStart cs else c :: cs := by
  simp [trimStart, List.dropWhile_cons]

/-- Nothing is trimmed at the front exactly when no blank stands there. -/
theorem trimStart_eq_self_iff (cs : List Char) :
    trimStart cs = cs ↔ ∀ c ∈ cs.head?, isBlank c = false := by
  cases cs with
  | nil => simp
  | cons c cs =>
    rw [trimStart_cons]
    by_cases h : isBlank c
    · simp only [h, if_true, List.head?_cons, Option.mem_def, Option.some.injEq, forall_eq',
        Bool.true_eq_false, iff_false]
      intro e
      have : (trimStart cs).length ≤ cs.length := by
        simpa [trimStart] using (List.dropWhile_sublist (p := isBlank) (l := cs)).length_le
      rw [e, List.length_cons] at this
      omega
    · simp [h]

end Outreach.Text
