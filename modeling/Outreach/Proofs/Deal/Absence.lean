import Outreach.Deal.Field
import Outreach.Proofs.Text.Trimming

/-!
# Absent Values

A value is absent if there is nothing in it but blanks, or nothing but blanks around the word for a
field left out. One other character is enough to make a value present.

## Main results

* `isAbsent_iff`, `isAbsent_eq_false_iff`: when a value is absent, and when it is present.
* `forall_mem_of_isAbsent`: what an absent value is made of.
* `isAbsent_eq_false_of_mem`: **one other character makes a value present.**
-/

namespace Outreach

variable {value : String} {c : Char}

/-- A value is absent if it is blank or the word for a field left out, up to blanks at its ends. -/
theorem isAbsent_iff : isAbsent value = true ↔ Text.trim value = "" ∨ Text.trim value = "無" := by
  simp [isAbsent, noneMark]

/-- A value is there if it is neither blank nor the word for a field left out. -/
theorem isAbsent_eq_false_iff :
    isAbsent value = false ↔ Text.trim value ≠ "" ∧ Text.trim value ≠ "無" := by
  rw [← Bool.not_eq_true, isAbsent_iff, not_or]

/-- An absent value is made of blanks and the word for a field left out. -/
theorem forall_mem_of_isAbsent (h : isAbsent value = true) :
    ∀ c ∈ value.toList, Text.isBlank c = true ∨ c = '無' := by
  intro c hc
  rw [Decidable.or_iff_not_imp_left, Bool.not_eq_true]
  intro hsolid
  have hkept : c ∈ (Text.trim value).toList := by
    rw [Text.trim, String.toList_ofList]
    exact Text.mem_trimChars hc hsolid
  rcases isAbsent_iff.mp h with hempty | hmark
  · rw [hempty] at hkept
    exact absurd hkept (by simp)
  · rw [hmark] at hkept
    simpa using hkept

/-- **One other character makes a value present.** -/
theorem isAbsent_eq_false_of_mem (hc : c ∈ value.toList) (hsolid : Text.isBlank c = false)
    (hmark : c ≠ '無') : isAbsent value = false := by
  rw [← Bool.not_eq_true]
  intro h
  rcases forall_mem_of_isAbsent h c hc with hblank | heq
  · exact absurd (hsolid.symm.trans hblank) (by decide)
  · exact hmark heq

end Outreach
