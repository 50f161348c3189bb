import Mathlib.Data.List.TakeWhile
import Outreach.Text.Blank

/-!
# Trimmed Texts

A text is trimmed if no blank stands at its ends. Trimming gives such a text: what is taken away at
the back leaves the front as it is.

## Main results

* `Text.isTrimmed_trimChars`: **what trimming leaves is trimmed**.
* `Text.trim_trim`: trimming again changes nothing.
* `Text.mem_trimChars`: only blanks are taken away.
* `Text.isBlankText_of_mem`: one character that is not blank makes a text that is not.
-/

namespace Outreach.Text

/-- A text is **trimmed** if no blank stands at its front or at its back. -/
structure IsTrimmed (cs : List Char) : Prop where
  front : ∀ c ∈ cs.head?, isBlank c = false
  back : ∀ c ∈ cs.getLast?, isBlank c = false

/-- Whether a text is trimmed can be seen at its two ends. -/
theorem isTrimmed_iff {cs : List Char} :
    IsTrimmed cs ↔ cs.head?.all (!isBlank ·) = true ∧ cs.getLast?.all (!isBlank ·) = true := by
  simp only [Option.all_eq_true, Bool.not_eq_true']
  exact ⟨fun h => ⟨h.front, h.back⟩, fun h => ⟨h.1, h.2⟩⟩

instance (cs : List Char) : Decidable (IsTrimmed cs) :=
  decidable_of_iff' _ isTrimmed_iff

/-- No blank is left where the blanks at the front have been dropped. -/
theorem isBlank_of_mem_head?_dropWhile {cs : List Char} {c : Char}
    (h : c ∈ (cs.dropWhile isBlank).head?) : isBlank c = false := by
  have hnot := List.head?_dropWhile_not isBlank cs
  rw [Option.mem_def.mp h] at hnot
  exact hnot

/-- Trimming the back takes nothing away at the front. -/
theorem trimEnd_prefix (cs : List Char) : trimEnd cs <+: cs := by
  have h := List.reverse_prefix.mpr (List.dropWhile_suffix (l := cs.reverse) isBlank)
  rwa [List.reverse_reverse] at h

/-- **What trimming leaves is trimmed.** -/
theorem isTrimmed_trimChars (cs : List Char) : IsTrimmed (trimChars cs) where
  front c hc := by
    obtain ⟨rest, hrest⟩ := trimEnd_prefix (trimStart cs)
    have hfront : (trimEnd (trimStart cs)).head? = some c := hc
    have hstart : (trimStart cs).head? = some c := by
      rw [← hrest, List.head?_append, hfront]
      rfl
    exact isBlank_of_mem_head?_dropWhile hstart
  back c hc := by
    rw [trimChars, trimEnd, List.getLast?_reverse] at hc
    exact isBlank_of_mem_head?_dropWhile hc

/-- A trimmed text stays as it is when it is trimmed. -/
theorem IsTrimmed.trimChars_eq {cs : List Char} (h : IsTrimmed cs) : trimChars cs = cs := by
  have hback : trimStart cs.reverse = cs.reverse := by
    rw [trimStart_eq_self_iff, List.head?_reverse]
    exact h.back
  rw [trimChars, (trimStart_eq_self_iff cs).mpr h.front]
  exact (congrArg List.reverse hback).trans cs.reverse_reverse

/-- Trimming a text twice is trimming it once. -/
@[simp] theorem trim_trim (s : String) : trim (trim s) = trim s := by
  rw [trim, trim, String.toList_ofList, (isTrimmed_trimChars s.toList).trimChars_eq]

/-- What trimming leaves stands in the text as it is. -/
theorem isInfix_trimChars (cs : List Char) : trimChars cs <:+: cs := by
  have hback : trimChars cs <+: trimStart cs := trimEnd_prefix (trimStart cs)
  have hfront : trimStart cs <:+ cs := List.dropWhile_suffix isBlank
  exact hback.isInfix.trans hfront.isInfix

/-- Only blanks are taken away. -/
theorem mem_trimChars {cs : List Char} {c : Char} (hc : c ∈ cs) (h : isBlank c = false) :
    c ∈ trimChars cs := by
  have hkept : ∀ {ds : List Char}, c ∈ ds → c ∈ ds.dropWhile isBlank := by
    intro ds hds
    rw [← List.takeWhile_append_dropWhile (p := isBlank) (l := ds), List.mem_append] at hds
    refine hds.resolve_left fun hfront => ?_
    rw [List.mem_takeWhile_imp hfront] at h
    exact absurd h (by decide)
  rw [trimChars, trimEnd, List.mem_reverse]
  exact hkept (List.mem_reverse.mpr (hkept hc))

/-- A text with a character that is not blank is not blank. -/
theorem isBlankText_of_mem {s : String} {c : Char} (hc : c ∈ s.toList) (h : isBlank c = false) :
    isBlankText s = false := by
  rw [isBlankText, trim, String.isEmpty_eq_false_iff]
  simpa using List.ne_nil_of_mem (mem_trimChars hc h)

end Outreach.Text
