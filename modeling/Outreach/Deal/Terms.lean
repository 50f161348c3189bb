import Outreach.Calendar
import Outreach.Deal.Field
import Outreach.Failure

/-!
# Deal Terms

The typed view of a deal: one text per field and a proper choice for the hand controller. Records
are read into terms over a base that supplies what is missing, and terms flatten back into
records.
-/

namespace Outreach

/-- Whether a hand controller is sent along with the offer: the one field of a deal with a choice
instead of a text. -/
inductive SendHandle where
  | yes
  | no
  deriving DecidableEq, Repr

namespace SendHandle

/-- The word for a choice, as it stands in records and messages. -/
def text : SendHandle → String
  | yes => "是"
  | no => "否"

/-- The choice that a text names, blanks at its ends aside. Any other text names none. -/
def ofText? (s : String) : Option SendHandle :=
  let word := Text.trim s
  if word = yes.text then some yes else if word = no.text then some no else none

end SendHandle

/-- The **terms** of a deal: its ten fields, with a choice in place of a text for the hand
controller. -/
structure Terms where
  contactPerson : String
  kolName : String
  profitShare : String
  guaranteedMinimum : String
  bonusAmount : String
  performanceThreshold : String
  profitShareBonus : String
  fanOffer : String
  endDate : String
  sendHandle : SendHandle
  deriving DecidableEq, Repr

namespace Terms

/-- The text of a field, for the hand controller the word for the choice. -/
def get (t : Terms) : Field → String
  | .contactPerson => t.contactPerson
  | .kolName => t.kolName
  | .profitShare => t.profitShare
  | .guaranteedMinimum => t.guaranteedMinimum
  | .bonusAmount => t.bonusAmount
  | .performanceThreshold => t.performanceThreshold
  | .profitShareBonus => t.profitShareBonus
  | .fanOffer => t.fanOffer
  | .endDate => t.endDate
  | .sendHandle => t.sendHandle.text

/-- The terms before anything is filled in: a share of 15, nothing else agreed, ending today. -/
def initial (today : Date) : Terms where
  contactPerson := ""
  kolName := ""
  profitShare := "15"
  guaranteedMinimum := noneMark
  bonusAmount := noneMark
  performanceThreshold := noneMark
  profitShareBonus := noneMark
  fanOffer := noneMark
  endDate := today.text
  sendHandle := .yes

/-- The record of all ten fields, each with its text, an empty one included. -/
def toRecord (t : Terms) : Record :=
  Record.ofList (Field.all.map fun f => (f.name, t.get f))

/-- Read the terms of a record; `base` supplies the fields that the record lacks. It fails only
on a hand-controller choice that is neither of the two words. -/
def ofRecord (r : Record) (base : Terms) : Except Failure Terms := do
  let pick (f : Field) : String := (r.get? f.name).getD (base.get f)
  let sendHandle ←
    match r.get? Field.sendHandle.name with
    | none => pure base.sendHandle
    | some text =>
      match SendHandle.ofText? text with
      | some choice => pure choice
      | none => throw (.unknownSendHandle text)
  return {
    contactPerson := pick .contactPerson
    kolName := pick .kolName
    profitShare := pick .profitShare
    guaranteedMinimum := pick .guaranteedMinimum
    bonusAmount := pick .bonusAmount
    performanceThreshold := pick .performanceThreshold
    profitShareBonus := pick .profitShareBonus
    fanOffer := pick .fanOffer
    endDate := pick .endDate
    sendHandle }

/-- A message needs a contact person and the name of a KOL. -/
def checkRequired (t : Terms) : Except Failure Unit :=
  if Text.isBlankText t.contactPerson || Text.isBlankText t.kolName then
    throw .requiredFieldsBlank
  else
    pure ()

end Terms

end Outreach
