import Outreach.Deal.Field
import Outreach.Failure
import Outreach.Polish.Service

/-!
# Polishing Fan Offers

An offer that is long enough is sent to a language model to be put in warmer words. Whatever goes
wrong on the way, a fixed phrase with the offer takes the place of the model's words.
-/

namespace Outreach.Polish

/-- Refuse an offer that is absent or has fewer characters than the settings ask for, blanks at its
ends aside. -/
def checkOffer (offer : String) (minimum : Nat) : Except Failure Unit :=
  if isAbsent offer || (Text.trim offer).length < minimum then throw (.offerTooShort minimum)
  else pure ()

/-- The words that ask the model to polish an offer, with the offer in quotes at their end. -/
def prompt (offer : String) : String :=
  s!"請將以下粉絲優惠活動內容，潤飾成更自然、更吸引人的語氣，直接回傳潤飾後的文字即可，不要包含任何前言或結語。原文：「{offer}」"

/-- The fixed phrase with an offer, for when the model has nothing to say. -/
def fallback (offer : String) : String :=
  s!"為您的粉絲提供特別優惠：{offer}"

/-- What an offer becomes once the model has answered: its words without blanks at the ends, or
the fixed phrase if they are blank or none came. -/
def settle (offer : String) : Except Fault String → String
  | .ok text => if Text.isBlankText text then fallback offer else Text.trim text
  | .error _ => fallback offer

/-- Polish an offer through a client, which posts one message. Whatever comes back, there is a
text. -/
def polishWith (client : Client) (offer : String) : Program String := do
  return settle offer (← client.generate (prompt offer))

/-- Polish an offer through the service of the settings. Only an offer that is too short fails;
without a key the fixed phrase is taken. -/
def polish (s : Settings) (offer : String) : Task String := do
  Task.ofExcept (checkOffer offer s.minimumLength.toNat)
  let offer := Text.trim offer
  Task.ofProgram do
    match ← Client.ofSettings s with
    | .error _ => return fallback offer
    | .ok client => polishWith client offer

end Outreach.Polish
