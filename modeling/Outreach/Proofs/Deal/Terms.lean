import Outreach.Deal.Terms
import Outreach.Proofs.Record.Layers

/-!
# Terms and Their Records

The record of some terms has exactly the ten fields of a deal. Reading terms from a record takes
what the record has, and fails on nothing but the choice for the hand controller.

## Main results

* `Terms.get?_toRecord`, `Terms.get?_toRecord_eq_none`: what the record of terms gives.
* `Terms.ofRecord_eq_ok`: the terms that are read from a record.
* `Terms.ofRecord_eq_error_iff`: **the only way in which terms cannot be read**.
-/

namespace Outreach

/-- The text of a choice has no blanks at its ends. -/
theorem SendHandle.trim_text (choice : SendHandle) : Text.trim choice.text = choice.text := by
  cases choice <;> decide

/-- Two choices with the same text are the same. -/
theorem SendHandle.text_injective {c c' : SendHandle} (h : c.text = c'.text) : c = c' := by
  cases c <;> cases c' <;> first | rfl | exact absurd h (by decide)

/-- A text names a choice exactly if, trimmed, it is the word for it. -/
theorem SendHandle.ofText?_eq_some_iff {text : String} {choice : SendHandle} :
    ofText? text = some choice ↔ Text.trim text = choice.text := by
  have hdistinct : no.text ≠ yes.text := by decide
  rw [ofText?]
  by_cases hyes : Text.trim text = yes.text
  · rw [if_pos hyes, hyes]
    cases choice with
    | yes => simp
    | no => simpa using hdistinct.symm
  · rw [if_neg hyes]
    by_cases hno : Text.trim text = no.text
    · rw [if_pos hno, hno]
      cases choice with
      | yes => simpa using hdistinct
      | no => simp
    · rw [if_neg hno]
      cases choice with
      | yes => simpa using hyes
      | no => simpa using hno

namespace Terms

variable {t base : Terms} {r : Record} {key : String}

/-- The record of terms gives the text of each field. -/
theorem get?_toRecord (t : Terms) (f : Field) : t.toRecord.get? f.name = some (t.get f) := by
  rw [toRecord, Record.get?_ofList]
  cases f <;> rfl

/-- It has no other fields. -/
theorem get?_toRecord_eq_none (hkey : key ∉ Field.all.map Field.name) :
    t.toRecord.get? key = none := by
  rw [toRecord, Record.get?_ofList, List.lookup_eq_none_iff]
  intro e he
  obtain ⟨f, hf, rfl⟩ := List.mem_map.mp (List.mem_reverse.mp he)
  rw [bne_iff_ne]
  rintro rfl
  exact hkey (List.mem_map_of_mem hf)

/-- The terms that are read from a record have its texts, and the choice that it names. -/
theorem ofRecord_eq_ok (h : ofRecord r base = .ok t) :
    (∀ f, f ≠ Field.sendHandle → t.get f = (r.get? f.name).getD (base.get f)) ∧
      ∀ text, r.get? Field.sendHandle.name = some text →
        SendHandle.ofText? text = some t.sendHandle := by
  rw [ofRecord] at h
  cases hsend : r.get? Field.sendHandle.name with
  | none =>
      rw [hsend] at h
      obtain rfl := Except.ok.inj h
      refine ⟨fun f hf => ?_, fun text htext => absurd htext (by simp)⟩
      cases f <;> first | rfl | exact absurd rfl hf
  | some text =>
      rw [hsend] at h
      cases hchoice : SendHandle.ofText? text with
      | none => simp [hchoice, throw, throwThe, MonadExceptOf.throw, bind, Except.bind] at h
      | some choice =>
          simp only [hchoice] at h
          obtain rfl := Except.ok.inj h
          refine ⟨fun f hf => ?_, fun text' htext' => ?_⟩
          · cases f <;> first | rfl | exact absurd rfl hf
          · obtain rfl := Option.some.inj htext'
            exact hchoice

/-- **Terms cannot be read only if the choice for the hand controller is neither of its words.** -/
theorem ofRecord_eq_error_iff {failure : Failure} :
    ofRecord r base = .error failure ↔ ∃ text, r.get? Field.sendHandle.name = some text ∧
      SendHandle.ofText? text = none ∧ failure = .unknownSendHandle text := by
  rw [ofRecord]
  cases r.get? Field.sendHandle.name with
  | none => simp [bind, Except.bind, pure, Except.pure]
  | some text =>
      cases hchoice : SendHandle.ofText? text with
      | none =>
          simp [hchoice, throw, throwThe, MonadExceptOf.throw, bind, Except.bind, eq_comm]
      | some choice => simp [hchoice, bind, Except.bind, pure, Except.pure]

/-- Terms have what is required if the two names are not blank. -/
theorem checkRequired_eq_ok_iff : t.checkRequired = .ok () ↔
    Text.isBlankText t.contactPerson = false ∧ Text.isBlankText t.kolName = false := by
  rw [checkRequired]
  split
  · rename_i hblank
    constructor
    · intro h
      exact absurd h (by simp [throw, throwThe, MonadExceptOf.throw])
    · rintro ⟨hcontact, hkol⟩
      exact absurd hblank (by simp [hcontact, hkol])
  · rename_i hfilled
    rw [Bool.or_eq_true, not_or, Bool.not_eq_true, Bool.not_eq_true] at hfilled
    exact ⟨fun _ => hfilled, fun _ => rfl⟩

end Terms

end Outreach
