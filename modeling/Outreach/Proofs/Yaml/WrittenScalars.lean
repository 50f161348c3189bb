import Outreach.Proofs.Number.Digits
import Outreach.Proofs.Yaml.Outline

/-!
# Scalars as They Are Written

The writer chooses a style for every text, and only one that the text admits. A whole number is
written in decimal digits, which are plain and spell the number.

## Main results

* `writes_writeScalar`, `writes_writeQuoted`: **every text is written in a style that it admits**.
* `unsignedOf?_toDigits`: **the digits of a number spell it**.
-/

namespace Outreach.Yaml

open Scan (Writes)

/-! ### Texts -/

/-- The style of a text between quotes. -/
def quotedStyleOf (cs : List Char) : ScalarStyle :=
  if admitsQuotes cs then .singleQuoted else .doubleQuoted

/-- The style that the writer chooses for a text. -/
def scalarStyleOf (cs : List Char) : ScalarStyle :=
  match styleOf cs with
  | .plain => if admitsPlain cs then .plain else quotedStyleOf cs
  | .quoted => quotedStyleOf cs
  | .literal => if admitsLines cs then .literal else .doubleQuoted

/-- A text in quotes, of whatever style it needs, is read back as that text. -/
theorem writes_writeQuoted (column : Nat) (cs : List Char) :
    Writes column cs (quotedStyleOf cs) (writeQuoted (column + indentStep) cs) := by
  unfold quotedStyleOf writeQuoted
  split
  · rename_i hadmits
    exact .single hadmits
  · exact .double

/-- **Every text is written in a style that it admits.** -/
theorem writes_writeScalar (column : Nat) (cs : List Char) :
    Writes column cs (scalarStyleOf cs) (writeScalar (column + indentStep) cs) := by
  unfold scalarStyleOf writeScalar
  cases hstyle : styleOf cs with
  | plain =>
      dsimp only
      split
      · rename_i hadmits
        -- the text without characters means null, and is not written plainly
        have hne : cs ≠ [] := by
          rintro rfl
          exact absurd hstyle (by decide)
        exact .plain (isPlain_of_admitsPlain hadmits hne)
      · exact writes_writeQuoted column cs
  | quoted => exact writes_writeQuoted column cs
  | literal =>
      dsimp only
      split
      · rename_i hadmits
        exact .literal hadmits
      · exact .double

/-! ### Digits -/

/-- A digit is one of ten characters. -/
theorem exists_digitChar {d : Char} (h : d.isDigit = true) : ∃ k : Fin 10, d = k.val.digitChar := by
  have hlt := Numeral.lt_ten_of_isDigit h
  have hall : ∀ k : Fin 10, k.val.digitChar.isDigit = true ∧
      k.val.digitChar.toNat - '0'.toNat = k.val := by decide
  obtain ⟨hdigit, hvalue⟩ := hall ⟨_, hlt⟩
  exact ⟨⟨_, hlt⟩, Numeral.eq_of_isDigit h hdigit hvalue.symm⟩

/-- A digit is plain wherever it stands. -/
structure IsPlainChar (c : Char) : Prop where
  printable : isPrintable c = true
  notBreak : isBreak c = false
  leading : isLeadingIndicator c = false
  notSign : c ≠ '?' ∧ c ≠ ':' ∧ c ≠ '-'
  notComment : c ≠ '#'
  notSpace : c ≠ ' '

/-- A digit is plain wherever it stands, since it is none of the marks of YAML. -/
theorem isPlainChar_of_isDigit {d : Char} (h : d.isDigit = true) : IsPlainChar d := by
  obtain ⟨k, rfl⟩ := exists_digitChar h
  have hall : ∀ k : Fin 10, isPrintable k.val.digitChar = true ∧ isBreak k.val.digitChar = false ∧
      isLeadingIndicator k.val.digitChar = false ∧
      (k.val.digitChar ≠ '?' ∧ k.val.digitChar ≠ ':' ∧ k.val.digitChar ≠ '-') ∧
      k.val.digitChar ≠ '#' ∧ k.val.digitChar ≠ ' ' := by decide
  obtain ⟨hprintable, hbreak, hleading, hsign, hcomment, hspace⟩ := hall k
  exact ⟨hprintable, hbreak, hleading, hsign, hcomment, hspace⟩

/-- Digits are plain. -/
theorem isPlain_of_isDigit {ds : List Char} (h : ∀ d ∈ ds, d.isDigit = true) (hne : ds ≠ []) :
    IsPlain ds := by
  have hchar : ∀ d ∈ ds, IsPlainChar d := fun d hd => isPlainChar_of_isDigit (h d hd)
  have hinner : ∀ {ds : List Char}, (∀ d ∈ ds, IsPlainChar d) → hasInnerIndicator ds = false := by
    intro ds hds
    induction ds with
    | nil => rfl
    | cons a ds ih =>
        rcases ds with - | ⟨b, ds⟩
        · rfl
        · have hb := hds b (by simp)
          simp [hasInnerIndicator, hb.notSign.2.1, hb.notComment,
            ih fun d hd => hds d (List.mem_cons_of_mem a hd)]
  refine ⟨fun d hd => (hchar d hd).printable, fun d hd => (hchar d hd).notBreak, hinner hchar,
    fun d hd => ?_, fun hlast => (hchar _ (List.mem_of_getLast? hlast)).notSpace rfl, hne⟩
  have hd := hchar d (List.mem_of_head? hd)
  refine ⟨hd.leading, hd.notSpace, fun hsign => ?_⟩
  rcases hsign with hsign | hsign | hsign
  · exact absurd hsign hd.notSign.1
  · exact absurd hsign hd.notSign.2.1
  · exact absurd hsign hd.notSign.2.2

/-- A decimal digit is added to a number by shifting the number one place. -/
theorem addDigit?_ten {d : Char} (h : d.isDigit = true) (n : Nat) :
    addDigit? 10 n d = some (10 * n + (d.toNat - '0'.toNat)) := by
  have hlt := Numeral.lt_ten_of_isDigit h
  simp only [addDigit?, hexValue?, h, if_true, Option.bind_some, if_pos hlt]

/-- Digits spell their number. -/
theorem natOf?_ten {ds : List Char} (h : ∀ d ∈ ds, d.isDigit = true) (hne : ds ≠ []) :
    natOf? 10 ds = some (Numeral.natOfDigits ds) := by
  have hfold : ∀ {ds : List Char} (n : Nat), (∀ d ∈ ds, d.isDigit = true) →
      ds.foldlM (addDigit? 10) n =
        some (ds.foldl (fun n d => 10 * n + (d.toNat - '0'.toNat)) n) := by
    intro ds
    induction ds with
    | nil => simp
    | cons d ds ih =>
        intro n hds
        simp only [List.foldlM_cons, addDigit?_ten (hds d List.mem_cons_self), Option.bind_eq_bind,
          Option.bind_some, List.foldl_cons]
        exact ih _ fun e he => hds e (List.mem_cons_of_mem d he)
  rw [natOf?, if_neg (by simpa using hne), hfold 0 h]
  rfl

/-- The only number with a zero in front is zero. -/
theorem toDigits_of_head {n : Nat} (h : (Nat.toDigits 10 n).head? = some '0') :
    Nat.toDigits 10 n = ['0'] := by
  induction n using Nat.strongRecOn with
  | ind n ih =>
      by_cases hn : n < 10
      · rw [Nat.toDigits_of_lt_base hn] at h ⊢
        simpa using h
      · have hten : 10 ≤ n := Nat.not_lt.mp hn
        rw [Nat.toDigits_of_base_le (by decide) hten] at h
        obtain ⟨d, ds, hds⟩ := List.exists_cons_of_ne_nil (Nat.toDigits_ne_nil (b := 10) (n := n / 10))
        have hfront : (Nat.toDigits 10 (n / 10)).head? = some '0' := by
          rw [hds] at h ⊢
          simpa using h
        have hzero := congrArg Numeral.natOfDigits (ih (n / 10) (by omega) hfront)
        rw [Numeral.natOfDigits_toDigits] at hzero
        have : n / 10 = 0 := hzero
        omega

/-- **The digits of a number spell it.** -/
theorem unsignedOf?_toDigits (n : Nat) : unsignedOf? (Nat.toDigits 10 n) = some n := by
  have hdigits : ∀ d ∈ Nat.toDigits 10 n, d.isDigit = true := fun _ =>
    Numeral.isDigit_of_mem_toDigits
  have hne : Nat.toDigits 10 n ≠ [] := Nat.toDigits_ne_nil
  have hnat := natOf?_ten hdigits hne
  rw [Numeral.natOfDigits_toDigits] at hnat
  by_cases hzero : (Nat.toDigits 10 n).head? = some '0'
  · rw [toDigits_of_head hzero] at hnat ⊢
    rw [← hnat]
    decide
  · obtain ⟨d, ds, hds⟩ := List.exists_cons_of_ne_nil hne
    rw [hds] at hnat hdigits hzero ⊢
    have hd := hdigits d List.mem_cons_self
    have hplus : d ≠ '+' := by
      rintro rfl
      exact absurd hd (by decide)
    have hminus : d ≠ '-' := by
      rintro rfl
      exact absurd hd (by decide)
    have hfront : d ≠ '0' := by simpa using hzero
    have hpadded : isZeroPadded (d :: ds) = false := by
      simp [isZeroPadded, dropSign, hplus, hminus, hfront]
    simp [unsignedOf?, hplus, hfront, hpadded, hnat]

end Outreach.Yaml
