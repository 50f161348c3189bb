import Outreach.Record
import Outreach.Text.Blank

/-!
# Deal Fields

The ten fields that a deal fills in, the names under which templates refer to them, and the word
that says that a field is left out on purpose.
-/

namespace Outreach

/-- The word for a field that is left out on purpose. Around it blanks do not matter. -/
def noneMark : String := "無"

/-- A value is **absent** when it is blank or, trimmed, the word for a field left out. -/
def isAbsent (value : String) : Bool :=
  let value := Text.trim value
  value.isEmpty || value == noneMark

/-- A **field** of a deal. Records may have other fields as well, which only templates use. -/
inductive Field where
  | contactPerson
  | kolName
  | profitShare
  | guaranteedMinimum
  | bonusAmount
  | performanceThreshold
  | profitShareBonus
  | fanOffer
  | endDate
  | sendHandle
  deriving DecidableEq, Repr

namespace Field

/-- The name of a field in records and templates, as files and assignments spell it. -/
def name : Field → String
  | contactPerson => "contactPerson"
  | kolName => "kolName"
  | profitShare => "profitShare"
  | guaranteedMinimum => "guaranteedMinimum"
  | bonusAmount => "bonusAmount"
  | performanceThreshold => "performanceThreshold"
  | profitShareBonus => "profitShareBonus"
  | fanOffer => "fanOffer"
  | endDate => "endDate"
  | sendHandle => "sendHandle"

/-- All fields, in the order of the form. Records list them by name all the same. -/
def all : List Field :=
  [contactPerson, kolName, profitShare, guaranteedMinimum, bonusAmount, performanceThreshold,
    profitShareBonus, fanOffer, endDate, sendHandle]

/-- The fields that a preset stores: all but the two that name people, which belong to one
message only. -/
def stored : List Field :=
  [profitShare, guaranteedMinimum, bonusAmount, performanceThreshold, profitShareBonus, endDate,
    fanOffer, sendHandle]

/-- Fields that hold an amount of money, which the default policy shows grouped. -/
def amounts : List Field :=
  [guaranteedMinimum, bonusAmount, performanceThreshold]

/-- Fields that hold a percentage, which the default policy shows with a sign. -/
def percentages : List Field :=
  [profitShare, profitShareBonus]

end Field

end Outreach
