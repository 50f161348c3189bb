import Outreach.Deal.Terms
import Outreach.Json.Reader

/-!
# Deal Terms in JSON

Deal terms are read from a JSON value with the ten fields of a deal as its parts. The choice for
the hand controller is one of its two words, or an object that holds nothing but that word with a
`null`.
-/

namespace Outreach

/-- The choice that is written exactly as its word, without blanks around it. -/
def SendHandle.ofWord? (word : String) : Option SendHandle :=
  if word = yes.text then some yes else if word = no.text then some no else none

/-- The choice of a JSON form: its word as a string, or as the only name of an object with nothing
under it. -/
def SendHandle.ofJson? : Json → Option SendHandle
  | .string (some word) => ofWord? word
  | .object [(some word, .null)] => ofWord? word
  | _ => none

namespace Terms

/-- The terms of a JSON form. All ten fields must be there, by their names or by their places in
an array. -/
def ofJson? (json : Json) : Option Terms :=
  match json.fields? (Field.all.map Field.name) with
  | some [some contactPerson, some kolName, some profitShare, some guaranteedMinimum,
      some bonusAmount, some performanceThreshold, some profitShareBonus, some fanOffer,
      some endDate, some sendHandle] => do
    return {
      contactPerson := ← contactPerson.text?
      kolName := ← kolName.text?
      profitShare := ← profitShare.text?
      guaranteedMinimum := ← guaranteedMinimum.text?
      bonusAmount := ← bonusAmount.text?
      performanceThreshold := ← performanceThreshold.text?
      profitShareBonus := ← profitShareBonus.text?
      fanOffer := ← fanOffer.text?
      endDate := ← endDate.text?
      sendHandle := ← SendHandle.ofJson? sendHandle }
  | _ => none

/-- The terms of a JSON text, if it is one and has the form of terms. -/
def ofJsonText? (text : String) : Option Terms :=
  (Json.ofText? text).bind ofJson?

end Terms

end Outreach
