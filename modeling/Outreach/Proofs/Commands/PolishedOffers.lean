import Outreach.Proofs.Commands.Messages
import Outreach.Proofs.Message.Blocks
import Outreach.Proofs.Polish.Outcome

/-!
# Polished Offers in Messages

A message with polishing has the record of the message without, but for the fan offer, which is
replaced by what it is polished to. An offer that can be polished is present, and so is the fixed
phrase with it. The words of the service are taken as they come unless they are blank: a service that
answers with the word for a field left out makes the offer absent, and the blocks on it drop out.

## Main results

* `Polish.IsPolished.isAbsent_iff`: when a polished offer is absent.
* `MessageOptions.exists_of_completeFields`: the record of a message with polishing.
* `Polish.isAbsent_polish_iff`: **when polishing makes an offer disappear.**
* `Polish.polish_loses_offer`: a reply that does.
-/

namespace Outreach

variable {w v : World} {d : DataDirectory} {o : MessageOptions} {s : Polish.Settings}
  {fields : Record} {offer text words : String}

namespace Polish

/-! ### Polished offers -/

/-- The words that are suggested are those of one reply. -/
theorem Suggests.unique {other : String} (h : Suggests s w offer words)
    (h' : Suggests s w offer other) : other = words := by
  obtain ⟨key, -, hkey, -⟩ := id h
  have hheard := ((suggests_iff hkey).mp h).1
  have hheard' := ((suggests_iff hkey).mp h').1
  exact Except.ok.inj (hheard'.symm.trans hheard)

/-- The service **suggests to leave the offer out**: its words are the word for a field left out. -/
def SuggestsNone (s : Settings) (w : World) (offer : String) : Prop :=
  ∃ words, Suggests s w offer words ∧ Text.trim words = "無"

/-- An offer that is long enough is present. -/
theorem isAbsent_of_not_isTooShort {minimum : Nat} (h : ¬ IsTooShort offer minimum) :
    isAbsent offer = false :=
  isAbsent_eq_false_iff.mpr ⟨fun hempty => h (.inl hempty), fun hmark => h (.inr (.inl hmark))⟩

/-- The fixed phrase is present with any offer. -/
theorem isAbsent_fallback (offer : String) : isAbsent (fallback offer) = false := by
  refine isAbsent_eq_false_of_mem (c := '為') ?_ (by decide) (by decide)
  rw [toList_fallback]
  exact List.mem_append_left _ (by decide)

/-- **A polished offer is absent exactly if the service suggests to leave it out.** -/
theorem IsPolished.isAbsent_iff (h : IsPolished s w offer text) :
    isAbsent text = true ↔ SuggestsNone s w offer := by
  cases h with
  | @words words hwords =>
      rw [Outreach.isAbsent_iff, Text.trim_trim]
      constructor
      · rintro (hempty | hmark)
        · obtain ⟨-, -, -, -, -, hfilled⟩ := hwords
          exact absurd hempty hfilled
        · exact ⟨words, hwords, hmark⟩
      · rintro ⟨other, hother, hmark⟩
        obtain rfl := hwords.unique hother
        exact .inr hmark
  | fallback hunaided =>
      rw [isAbsent_fallback]
      constructor
      · intro h
        exact absurd h (by decide)
      · rintro ⟨words, hwords, -⟩
        exact absurd hwords (hunaided words)

end Polish

/-! ### The record of a message -/

/-- A message with polishing has the record of the one without, but for the fan offer. -/
theorem MessageOptions.exists_of_completeFields (hpolish : o.polish = true)
    (h : w.runTask (o.completeFields d s) = (.ok fields, v)) :
    ∃ plain offer text,
      w.runTask ({ o with polish := false }.completeFields d s) = (.ok plain, w) ∧
      plain.get? Field.fanOffer.name = some offer ∧
      w.runTask (Polish.polish s offer) = (.ok text, v) ∧
      fields = plain.set Field.fanOffer.name text := by
  obtain ⟨plain, terms, hplain, hterms, hcheck, h⟩ := runTask_completeFields_eq_ok_iff.mp h
  rw [if_pos hpolish] at h
  obtain ⟨text, u, htext, h⟩ := World.runTask_bind_eq_ok.mp h
  obtain ⟨hfields, rfl⟩ := Prod.mk.inj h
  obtain ⟨preset, file, -, -, hlayered⟩ := isLayered_of_fields hplain
  obtain ⟨offer, hoffer⟩ := hlayered.exists_get? .fanOffer
  have hterm : terms.fanOffer = offer := by
    have hget := (Terms.ofRecord_eq_ok hterms).1 .fanOffer (by decide)
    rw [hoffer] at hget
    exact hget
  refine ⟨plain, offer, text, ?_, hoffer, hterm ▸ htext, (Except.ok.inj hfields).symm⟩
  exact runTask_completeFields_eq_ok_iff.mpr ⟨plain, terms, hplain, hterms, hcheck, rfl⟩

namespace Polish

open Message.Block (stays_iff_of_expected_eq_none)

/-- **When polishing makes an offer disappear.** An offer that is long enough is polished to a text
that is absent exactly if the service suggests to leave it out. In a message with polishing the text
takes the place of the offer and nothing else changes, so of the blocks that stay if there is an offer,
all would stay without polishing, and they do stay unless the service suggests to leave it out. -/
theorem isAbsent_polish_iff (s : Settings) (w : World) :
    (∀ offer, ¬ IsTooShort offer s.minimumLength.toNat →
      ∃ text v, w.runTask (polish s offer) = (.ok text, v) ∧
        (isAbsent text = true ↔ SuggestsNone s w offer)) ∧
    ∀ (o : MessageOptions) (d : DataDirectory) (fields : Record) (v : World), o.polish = true →
      w.runTask (o.completeFields d s) = (.ok fields, v) →
      ∃ plain offer text,
        w.runTask ({ o with polish := false }.completeFields d s) = (.ok plain, w) ∧
        plain.get? Field.fanOffer.name = some offer ∧
        ¬ IsTooShort offer s.minimumLength.toNat ∧
        w.runTask (polish s offer) = (.ok text, v) ∧
        fields = plain.set Field.fanOffer.name text ∧
        ∀ b : Message.Block, b.key = Field.fanOffer.name.toList → b.expected = none →
          b.Stays plain ∧ (b.Stays fields ↔ ¬ SuggestsNone s w offer) := by
  constructor
  · intro offer hlong
    obtain ⟨text, v, hrun, hpolished, -⟩ := exists_runTask_polish hlong
    exact ⟨text, v, hrun, hpolished.isAbsent_iff⟩
  · intro o d fields v hpolish h
    obtain ⟨plain, offer, text, hplain, hoffer, htext, rfl⟩ :=
      o.exists_of_completeFields hpolish h
    have hlong : ¬ IsTooShort offer s.minimumLength.toNat := fun hshort => by
      rw [runTask_polish_of_isTooShort hshort] at htext
      exact absurd htext (by simp)
    have habsent : isAbsent text = true ↔ SuggestsNone s w offer := by
      obtain ⟨text', v', hrun, hpolished, -⟩ := exists_runTask_polish hlong
      obtain ⟨⟨rfl⟩, -⟩ := Prod.mk.inj (htext.symm.trans hrun)
      exact hpolished.isAbsent_iff
    refine ⟨plain, offer, text, hplain, hoffer, hlong, htext, rfl, fun b hkey hform => ?_⟩
    have hname : String.ofList b.key = Field.fanOffer.name := by rw [hkey, String.ofList_toList]
    rw [stays_iff_of_expected_eq_none hform, stays_iff_of_expected_eq_none hform, hname, hoffer,
      Record.get?_set, if_pos rfl, ← habsent, Bool.not_eq_true]
    simp [isAbsent_of_not_isTooShort hlong]

/-- A reply that reports success with the word for a field left out. -/
def noneReply : Reply where
  status := 200
  body := String.toUTF8
    "\x7b\"candidates\":[\x7b\"content\":\x7b\"parts\":[\x7b\"text\":\" 無\\n\"\x7d]\x7d\x7d]\x7d"

/-- A world with a key for the service, which answers whatever it is asked with `noneReply`. -/
def noneWorld : World :=
  { (default : World) with environment := [("API_KEY", "k")], service := fun _ => .ok noneReply }

/-- A message with polishing in `noneWorld`. -/
theorem isAbsent_polish_iff_message :
    let w := noneWorld
    let o : MessageOptions :=
      { preset := none, template := none, contact := some "C", kol := some "K", polish := true,
        source := ⟨none, ["fanOffer=抽免單三名"]⟩ }
    let d : DataDirectory := ⟨"d"⟩
    let s : Settings := {}
    ¬ IsTooShort "抽免單三名" s.minimumLength.toNat ∧
    (∃ text v, w.runTask (polish s "抽免單三名") = (.ok text, v) ∧
      (isAbsent text = true ↔ SuggestsNone s w "抽免單三名")) ∧
    ∃ fields v, o.polish = true ∧ w.runTask (o.completeFields d s) = (.ok fields, v) ∧
      ∃ plain offer text,
        w.runTask ({ o with polish := false }.completeFields d s) = (.ok plain, w) ∧
        plain.get? Field.fanOffer.name = some offer ∧
        ¬ IsTooShort offer s.minimumLength.toNat ∧
        w.runTask (polish s offer) = (.ok text, v) ∧
        fields = plain.set Field.fanOffer.name text ∧
        ∀ b : Message.Block, b.key = Field.fanOffer.name.toList → b.expected = none →
          b.Stays plain ∧ (b.Stays fields ↔ ¬ SuggestsNone s w offer) := by
  intro w o d s
  have hlong : ¬ IsTooShort "抽免單三名" s.minimumLength.toNat := by decide
  refine ⟨hlong, (isAbsent_polish_iff s w).1 _ hlong, ?_⟩
  have hdone : (w.runTask (o.completeFields d s)).1.isOk = true := by decide +kernel
  rcases h : w.runTask (o.completeFields d s) with ⟨f | fields, v⟩
  · rw [h] at hdone
    exact absurd hdone (by simp [Except.isOk, Except.toBool])
  · exact ⟨fields, v, rfl, rfl, (isAbsent_polish_iff s w).2 o d fields v rfl h⟩

/-- An offer that is long enough, in `noneWorld`. It is polished to the word for a field left out,
which is absent, so a block on the offer that would stay without polishing drops out. -/
theorem polish_loses_offer :
    let b : Message.Block := ⟨Field.fanOffer.name.toList, none, "X".toList⟩
    ¬ IsTooShort "抽免單三名" ({} : Settings).minimumLength.toNat ∧
      (noneWorld.runTask (polish {} "抽免單三名")).1 = .ok "無" ∧ isAbsent "無" = true ∧
      b.Stays (Record.ofList [(Field.fanOffer.name, "抽免單三名")]) ∧
      ¬ b.Stays (Record.ofList [(Field.fanOffer.name, "無")]) := by
  decide +kernel

end Polish

end Outreach
