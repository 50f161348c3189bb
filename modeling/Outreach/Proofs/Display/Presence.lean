import Outreach.Message.Render
import Outreach.Proofs.Display.Rounded
import Outreach.Proofs.Message.Blocks
import Outreach.Proofs.Record.Layers

/-!
# Shown and Raw Values Are Absent Together

Blocks look at raw values and placeholders show display values. The two agree on what is absent. An
absent value has no number at its front, whichever separator is taken out of it, so it is shown as it
is. A number that is shown has a digit or the sign for infinity, and a percentage has what made it
one, so a value that is present stays so.

## Main results

* `Display.leadingNumber?_of_isAbsent`: no number is read from an absent value.
* `Display.showField_of_isAbsent`: an absent value is shown as it is.
* `Display.isAbsent_showField`: **what is shown is absent exactly if the value is.**
* `Display.apply_agrees`: **blocks and placeholders agree on presence.**
-/

namespace Outreach.Display

variable {p : Display} {value : String}

/-! ### Absent values -/

/-- No number is read from what is left of an absent value. -/
theorem leadingNumber?_of_isAbsent {cs : List Char} (h : isAbsent value = true)
    (hsub : ∀ c ∈ cs, c ∈ value.toList) : leadingNumber? cs = none := by
  refine WrittenNumber.leadingNumber?_eq_none fun c hc => ?_
  rcases forall_mem_of_isAbsent h c (hsub c hc) with hblank | rfl
  · constructor
    · rw [← Bool.not_eq_true]
      intro hdigit
      exact absurd (hblank.symm.trans (Text.isBlank_of_isDigit hdigit)) (by decide)
    · rintro rfl
      exact absurd hblank (by decide)
  · decide

/-- **An absent value is shown as it is.** -/
theorem showField_of_isAbsent (name : String) (h : isAbsent value = true) :
    p.showField name value = value := by
  rw [showField]
  split
  · refine showAmount_of_none (leadingNumber?_of_isAbsent h fun c hc => ?_)
    rw [ungroup, String.toList_ofList] at hc
    exact List.mem_of_mem_filter hc
  · split
    · rw [showPercentage, leadingNumber?_of_isAbsent h fun c hc => hc]
      exact ite_self _
    · rfl

/-! ### Values that are present -/

/-- A value with a digit in it is there. -/
theorem isAbsent_eq_false_of_isDigit {c : Char} (hc : c ∈ value.toList)
    (hdigit : c.isDigit = true) : isAbsent value = false := by
  refine isAbsent_eq_false_of_mem hc (Text.isBlank_of_isDigit hdigit) ?_
  rintro rfl
  exact absurd hdigit (by decide)

/-- A number that is shown is present. -/
theorem isAbsent_of_isShown {x : Binary64} (h : p.IsShown x value.toList) :
    isAbsent value = false := by
  generalize hchars : value.toList = cs at h
  cases h with
  | infinite negative =>
      refine isAbsent_eq_false_of_mem (c := '∞') ?_ (by decide) (by decide)
      rw [hchars]
      exact List.mem_append_right _ List.mem_cons_self
  | @finite _ _ first rest a _ hthrees _ =>
      obtain ⟨d, hd⟩ := List.exists_mem_of_ne_nil _ hthrees.ne_nil
      have hdigit : d.isDigit = true :=
        a.whole_digits d (hthrees.flatten ▸ List.mem_append_left _ hd)
      refine isAbsent_eq_false_of_isDigit ?_ hdigit
      rw [hchars]
      exact List.mem_append_left _ (List.mem_append_right _ (List.mem_append_left _ hd))

/-- An amount that is shown is present. -/
theorem isAbsent_showAmount (h : isAbsent value = false) :
    isAbsent (p.showAmount value) = false := by
  cases hnumber : leadingNumber? (p.ungroup value).toList with
  | none =>
      rw [showAmount_of_none hnumber]
      exact h
  | some x =>
      have hshown := p.isShown_showNumber x
      rw [showAmount_of_some hnumber]
      exact isAbsent_of_isShown (by rwa [String.toList_ofList])

/-- A number is present with any suffix. -/
theorem isAbsent_append_of_leadingNumber? (h : (leadingNumber? value.toList).isSome = true)
    (suffix : String) : isAbsent (value ++ suffix) = false := by
  rw [← Bool.not_eq_true]
  intro habsent
  have hnone : leadingNumber? value.toList = none := leadingNumber?_of_isAbsent habsent fun c hc => by
    rw [String.toList_append]
    exact List.mem_append_left _ hc
  rw [hnone] at h
  exact absurd h (by decide)

/-- A percentage that is shown is present. -/
theorem isAbsent_showPercentage (h : isAbsent value = false) :
    isAbsent (p.showPercentage value) = false := by
  rw [showPercentage]
  split
  · exact h
  · split
    · rename_i hnumber
      exact isAbsent_append_of_leadingNumber? hnumber p.percentSuffix
    · exact h

/-- **What is shown is absent exactly if the value is.** -/
theorem isAbsent_showField (p : Display) (name value : String) :
    isAbsent (p.showField name value) = isAbsent value := by
  cases h : isAbsent value with
  | true => rw [showField_of_isAbsent name h, h]
  | false =>
      rw [showField]
      split
      · exact isAbsent_showAmount h
      · split
        · exact isAbsent_showPercentage h
        · exact h

/-! ### Messages -/

open Message

/-- The display copy of a record shows the value of each field. -/
theorem get?_apply (p : Display) (r : Record) (key : String) :
    (p.apply r).get? key = (r.get? key).map (p.showField key) :=
  r.get?_mapValues p.showField key

/-- **Blocks and placeholders agree on presence.** The display copy of a record has its names, and a
value is absent in it exactly if the raw value is; an absent one is the same in both. So where a block
stays because a field is present, the placeholder of the field shows something, and the placeholder of
a field that is absent or missing shows what it would show of the raw record. -/
theorem apply_agrees (p : Display) (r : Record) :
    (p.apply r).keys = r.keys ∧
    (∀ key value, r.get? key = some value → ∃ shown, (p.apply r).get? key = some shown ∧
      isAbsent shown = isAbsent value ∧ (isAbsent value = true → shown = value)) ∧
    (∀ b : Block, b.expected = none → b.Stays r →
      ∃ shown : String, (Slot.token b.key).fill (p.apply r) = shown.toList ∧
        Text.trim shown ≠ "" ∧ Text.trim shown ≠ "無") ∧
    ∀ name, (∀ value, r.get? (String.ofList name) = some value → isAbsent value = true) →
      (Slot.token name).fill (p.apply r) = (Slot.token name).fill r := by
  have hshown : ∀ {key value : String}, r.get? key = some value →
      (p.apply r).get? key = some (p.showField key value) := fun hvalue => by
    rw [get?_apply, hvalue, Option.map_some]
  refine ⟨Record.keys_mapValues _ r, fun key value hvalue => ?_, fun b hform hstays => ?_,
    fun name habsent => ?_⟩
  · exact ⟨_, hshown hvalue, isAbsent_showField p key value, showField_of_isAbsent key⟩
  · obtain ⟨value, hvalue, hpresent⟩ := (Block.stays_iff_of_expected_eq_none hform).mp hstays
    refine ⟨p.showField (String.ofList b.key) value, ?_, ?_⟩
    · rw [Slot.fill, hshown hvalue]
    · rw [← isAbsent_eq_false_iff, isAbsent_showField, hpresent]
  · rw [Slot.fill, Slot.fill, get?_apply]
    cases hvalue : r.get? (String.ofList name) with
    | none => rfl
    | some value => exact congrArg String.toList (showField_of_isAbsent _ (habsent value hvalue))

end Outreach.Display
