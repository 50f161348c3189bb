import Outreach.Commands.Generate
import Outreach.Proofs.Deal.Terms

/-!
# Terms and Records Say the Same

Terms are a typed view of the ten fields of a deal, and flattening them loses nothing. Reading terms
from a record over a base is laying the fields of a deal that the record has over the record of the
base, as long as the record names no unknown choice for the hand controller. All that is known about
reading terms follows from this one equation between records.

## Main results

* `Terms.toRecord_injective`: terms are known by their record.
* `Terms.ofRecord_eq_ok_iff`: **reading terms is laying fields over a base**.
* `Terms.ofRecord_toRecord`: flattened terms are read back, over any base.
* `Terms.ofRecord_merge`: a base that is laid under the record as well changes nothing.
* `Terms.ofRecord_agrees`: **the typed view and the record agree.**
-/

namespace Outreach

/-! ### The fields of a deal -/

/-- A value of a field as terms keep it: the choice for the hand controller loses the blanks at its
ends. -/
def Field.tidied (key value : String) : String :=
  if key = sendHandle.name then Text.trim value else value

/-- The other fields are kept as they are. -/
theorem Field.tidied_of_ne {f : Field} (hf : f ≠ sendHandle) (value : String) :
    tidied f.name value = value :=
  if_neg fun h => hf (by cases f <;> first | rfl | exact absurd h (by decide))

namespace Record

/-- The **fields of a deal** in a record, as terms keep them. -/
def dealFields (r : Record) : Record :=
  (r.retain (Field.all.map Field.name)).mapValues Field.tidied

/-- A record **names an unknown choice** if it has a choice for the hand controller that is,
trimmed, neither of the two words. -/
def NamesUnknownChoice (r : Record) : Prop :=
  ∃ text, r.get? Field.sendHandle.name = some text ∧ Text.trim text ≠ "是" ∧ Text.trim text ≠ "否"

variable {r : Record} {key : String}

/-- Among the fields of a deal, each has the value of the record, tidied as its field asks for. -/
theorem get?_dealFields (r : Record) (f : Field) :
    r.dealFields.get? f.name = (r.get? f.name).map (Field.tidied f.name) := by
  have hknown : (Field.all.map Field.name).contains f.name = true := by cases f <;> decide
  rw [dealFields, get?_mapValues, get?_retain, if_pos hknown]

/-- A name that belongs to no field of a deal is left out. -/
theorem get?_dealFields_eq_none (hkey : key ∉ Field.all.map Field.name) :
    r.dealFields.get? key = none := by
  rw [dealFields, get?_mapValues, get?_retain, if_neg (by simpa using hkey), Option.map_none]

/-- Of three records that are laid over one another, two can be laid over one another first. -/
theorem merge_merge (r s u : Record) : (r.merge s).merge u = r.merge (s.merge u) :=
  ext_get? fun key => by simp only [get?_merge, Option.or_assoc]

/-- A field that is written over two records is written over the upper one. -/
theorem set_merge (r s : Record) (key value : String) :
    (r.merge s).set key value = r.merge (s.set key value) := by
  refine ext_get? fun k => ?_
  simp only [get?_set, get?_merge]
  split
  · rfl
  · rfl

end Record

/-- Names that are laid over two records are laid over the upper one. -/
theorem MessageOptions.withNames_merge (o : MessageOptions) (r s : Record) :
    o.withNames (r.merge s) = r.merge (o.withNames s) := by
  rw [withNames, withNames]
  cases o.contact <;> cases o.kol <;> simp only [Option.elim, Record.set_merge]

/-- A text names no choice exactly if, trimmed, it is neither of the two words. -/
theorem SendHandle.ofText?_eq_none_iff {text : String} :
    ofText? text = none ↔ Text.trim text ≠ "是" ∧ Text.trim text ≠ "否" := by
  rw [Option.eq_none_iff_forall_ne_some]
  simp only [ne_eq, ofText?_eq_some_iff]
  constructor
  · exact fun h => ⟨h yes, h no⟩
  · rintro ⟨hyes, hno⟩ (_ | _)
    · exact hyes
    · exact hno

namespace Terms

variable {t u base : Terms} {r s : Record}

/-! ### Flattening -/

/-- Terms are the same if they have the same value in every field. -/
theorem ext_get (h : ∀ f, t.get f = u.get f) : t = u := by
  obtain ⟨⟩ := t
  obtain ⟨⟩ := u
  exact (mk.injEq ..).mpr ⟨h .contactPerson, h .kolName, h .profitShare, h .guaranteedMinimum,
    h .bonusAmount, h .performanceThreshold, h .profitShareBonus, h .fanOffer, h .endDate,
    SendHandle.text_injective (h .sendHandle)⟩

/-- **Terms are known by their record.** -/
theorem toRecord_injective (h : t.toRecord = u.toRecord) : t = u := by
  refine ext_get fun f => Option.some.inj ?_
  rw [← get?_toRecord, ← get?_toRecord, h]

/-- The record of some terms names no unknown choice. -/
theorem not_namesUnknownChoice_toRecord (t : Terms) : ¬ t.toRecord.NamesUnknownChoice := by
  rintro ⟨text, htext, hyes, hno⟩
  rw [get?_toRecord] at htext
  obtain rfl : t.sendHandle.text = text := Option.some.inj htext
  rw [SendHandle.trim_text] at hyes hno
  cases hchoice : t.sendHandle with
  | yes => exact hyes (congrArg SendHandle.text hchoice)
  | no => exact hno (congrArg SendHandle.text hchoice)

/-- The text of a field is kept as it is. -/
theorem tidied_get (t : Terms) (f : Field) : Field.tidied f.name (t.get f) = t.get f := by
  by_cases hf : f = .sendHandle
  · subst hf
    exact t.sendHandle.trim_text
  · exact Field.tidied_of_ne hf _

/-- Records that are laid over those of terms are the record of terms if they are so field by
field. -/
theorem toRecord_eq_merge_dealFields_iff :
    t.toRecord = base.toRecord.merge r.dealFields ↔
      ∀ f, t.get f = ((r.get? f.name).map (Field.tidied f.name)).getD (base.get f) := by
  have hget : ∀ f : Field, (base.toRecord.merge r.dealFields).get? f.name =
      some (((r.get? f.name).map (Field.tidied f.name)).getD (base.get f)) := by
    intro f
    rw [Record.get?_merge, Record.get?_dealFields, get?_toRecord]
    cases r.get? f.name <;> rfl
  constructor
  · intro h f
    rw [← Option.some.injEq, ← hget, ← h, get?_toRecord]
  · refine fun h => Record.ext_get? fun key => ?_
    by_cases hkey : key ∈ Field.all.map Field.name
    · obtain ⟨f, -, rfl⟩ := List.mem_map.mp hkey
      rw [hget, get?_toRecord, h]
    · rw [Record.get?_merge, Record.get?_dealFields_eq_none hkey, get?_toRecord_eq_none hkey,
        get?_toRecord_eq_none hkey, Option.none_or]

/-! ### Reading -/

/-- Terms are not read exactly if the record names an unknown choice. -/
theorem exists_ofRecord_eq_error_iff :
    (∃ failure, ofRecord r base = .error failure) ↔ r.NamesUnknownChoice := by
  simp only [ofRecord_eq_error_iff, SendHandle.ofText?_eq_none_iff]
  constructor
  · rintro ⟨_, text, htext, hunknown, -⟩
    exact ⟨text, htext, hunknown⟩
  · rintro ⟨text, htext, hunknown⟩
    exact ⟨_, text, htext, hunknown, rfl⟩

/-- The choice that is read is that of the record, trimmed, or else that of the base. -/
theorem get_sendHandle_of_ofRecord (h : ofRecord r base = .ok t) :
    t.get .sendHandle =
      ((r.get? Field.sendHandle.name).map Text.trim).getD (base.get .sendHandle) := by
  cases hsend : r.get? Field.sendHandle.name with
  | none =>
      rw [ofRecord, hsend] at h
      obtain rfl := Except.ok.inj h
      rfl
  | some text => exact (SendHandle.ofText?_eq_some_iff.mp ((ofRecord_eq_ok h).2 text hsend)).symm

/-- Terms that are read have the record of the base with the fields of the deal laid over it. -/
theorem toRecord_of_ofRecord (h : ofRecord r base = .ok t) :
    t.toRecord = base.toRecord.merge r.dealFields := by
  refine toRecord_eq_merge_dealFields_iff.mpr fun f => ?_
  by_cases hf : f = .sendHandle
  · subst hf
    exact get_sendHandle_of_ofRecord h
  · have hkept : Field.tidied f.name = id := funext (Field.tidied_of_ne hf)
    rw [(ofRecord_eq_ok h).1 f hf, hkept, Option.map_id_fun, id_eq]

/-- **Reading terms is laying fields over a base**, for a record that names no unknown choice. -/
theorem ofRecord_eq_ok_iff :
    ofRecord r base = .ok t ↔
      ¬ r.NamesUnknownChoice ∧ t.toRecord = base.toRecord.merge r.dealFields := by
  constructor
  · refine fun h => ⟨fun hunknown => ?_, toRecord_of_ofRecord h⟩
    obtain ⟨failure, herror⟩ := exists_ofRecord_eq_error_iff.mpr hunknown
    exact absurd (h.symm.trans herror) (by simp)
  · rintro ⟨hknown, ht⟩
    cases hread : ofRecord r base with
    | error failure => exact absurd (exists_ofRecord_eq_error_iff.mp ⟨failure, hread⟩) hknown
    | ok u => rw [toRecord_injective (ht.trans (toRecord_of_ofRecord hread).symm)]

/-- **Flattened terms are read back**, over any base. -/
theorem ofRecord_toRecord (t base : Terms) : ofRecord t.toRecord base = .ok t := by
  refine ofRecord_eq_ok_iff.mpr ⟨t.not_namesUnknownChoice_toRecord, ?_⟩
  refine toRecord_eq_merge_dealFields_iff.mpr fun f => ?_
  rw [get?_toRecord, Option.map_some, Option.getD_some, tidied_get]

/-- A record without fields of a deal leaves the base as it is. -/
theorem ofRecord_of_get?_eq_none (h : ∀ f : Field, r.get? f.name = none) :
    ofRecord r base = .ok base := by
  refine ofRecord_eq_ok_iff.mpr ⟨?_, toRecord_eq_merge_dealFields_iff.mpr fun f => ?_⟩
  · rintro ⟨text, htext, -⟩
    rw [h .sendHandle] at htext
    exact absurd htext (by simp)
  · rw [h, Option.map_none, Option.getD_none]

/-- **A base that is laid under the record as well changes nothing.** -/
theorem ofRecord_merge (r : Record) (base : Terms) :
    ofRecord (base.toRecord.merge r) base = ofRecord r base := by
  have hget : ∀ f : Field, (base.toRecord.merge r).get? f.name =
      some ((r.get? f.name).getD (base.get f)) := by
    intro f
    rw [Record.get?_merge, get?_toRecord]
    cases r.get? f.name <;> rfl
  cases hread : ofRecord r base with
  | error failure =>
      obtain ⟨text, htext, hchoice, rfl⟩ := ofRecord_eq_error_iff.mp hread
      refine ofRecord_eq_error_iff.mpr ⟨text, ?_, hchoice, rfl⟩
      rw [hget, htext, Option.getD_some]
  | ok t =>
      obtain ⟨hknown, ht⟩ := ofRecord_eq_ok_iff.mp hread
      rw [toRecord_eq_merge_dealFields_iff] at ht
      refine ofRecord_eq_ok_iff.mpr ⟨?_, toRecord_eq_merge_dealFields_iff.mpr fun f => ?_⟩
      · rintro ⟨text, htext, hunknown⟩
        rw [hget, Option.some.injEq] at htext
        cases hsend : r.get? Field.sendHandle.name with
        | none =>
            rw [hsend, Option.getD_none] at htext
            exact base.not_namesUnknownChoice_toRecord
              ⟨text, htext ▸ base.get?_toRecord .sendHandle, hunknown⟩
        | some word =>
            rw [hsend, Option.getD_some] at htext
            exact hknown ⟨text, htext ▸ hsend, hunknown⟩
      · rw [ht, hget, Option.map_some, Option.getD_some]
        cases r.get? f.name with
        | none => exact (base.tidied_get f).symm
        | some value => rfl

/-- **The typed view and the record agree.** Terms are not read from a record exactly if its choice
for the hand controller is, trimmed, neither of the two words, and the failure quotes it. Otherwise
terms are read, and their record is that of the base with the fields of the deal laid over it, where
the choice is trimmed. So flattened terms are read back over any base, a record without fields of a
deal leaves the base as it is, and a base may be laid under the record before terms are read, as it
is when a message is put together. -/
theorem ofRecord_agrees (r : Record) (base : Terms) :
    (∀ failure, ofRecord r base = .error failure ↔
      ∃ text, r.get? "sendHandle" = some text ∧ (Text.trim text ≠ "是" ∧ Text.trim text ≠ "否") ∧
        failure = .unknownSendHandle text) ∧
    (¬ r.NamesUnknownChoice → ∃ t, ofRecord r base = .ok t ∧
      t.toRecord = base.toRecord.merge r.dealFields) ∧
    (∀ t : Terms, ofRecord t.toRecord base = .ok t) ∧
    ((∀ f : Field, f.name ∉ r.keys) → ofRecord r base = .ok base) ∧
    ofRecord (base.toRecord.merge r) base = ofRecord r base ∧
    ∀ (o : MessageOptions) (preset given : Record),
      ofRecord (o.withNames ((base.toRecord.merge preset).merge given)) base =
        ofRecord (o.withNames (preset.merge given)) base := by
  refine ⟨fun failure => ?_, fun hknown => ?_, fun t => ofRecord_toRecord t base, fun hkeys => ?_,
    ofRecord_merge r base, fun o preset given => ?_⟩
  · rw [ofRecord_eq_error_iff]
    simp only [SendHandle.ofText?_eq_none_iff]
    rfl
  · cases hread : ofRecord r base with
    | error failure => exact absurd (exists_ofRecord_eq_error_iff.mp ⟨failure, hread⟩) hknown
    | ok t => exact ⟨t, rfl, toRecord_of_ofRecord hread⟩
  · exact ofRecord_of_get?_eq_none fun f => Record.get?_eq_none_iff.mpr (hkeys f)
  · rw [Record.merge_merge, MessageOptions.withNames_merge, ofRecord_merge]

end Terms

end Outreach
