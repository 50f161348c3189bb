import Outreach.Calendar
import Outreach.Deal.Field
import Outreach.Edit
import Outreach.FreshId

/-!
# Presets

A preset is a named part of a deal: texts for some of its fields. Presets are kept in a list in the
order in which they were added. The built-in ones run to the end of the season.
-/

namespace Outreach

/-- A **preset**: fields of a record that are kept under an id and a name, to start messages from.
-/
structure Preset where
  id : String
  name : String
  data : Record
  deriving DecidableEq

namespace Preset

/-- The fan offer of the built-in preset for fans, on four lines. -/
def comboOffer : String :=
  String.intercalate "\n"
    ["🔹抽免單（3 名）",
     "🔹單品售價 1,649（優於官網）",
     "🔹手把 + DOCK 充電轉接組獨家組 2,790（官網原價 3,180）",
     "🔺補充：組合的充電轉接器支援 NS1 代主機，本次調查發現各通路購買 ZA 的客群有 60-70% 使用 Switch 1 代主機，所以推出此組合，目前反應很不錯"]

/-- The preset of some fields with their texts. Fields that are not given are not in its record. -/
def ofFields (id name : String) (fields : List (Field × String)) : Preset :=
  ⟨id, name, Record.ofList (fields.map fun (f, text) => (f.name, text))⟩

/-- The built-in presets in the year of a date, on which the end of the season depends. -/
def builtIn (today : Date) : List Preset :=
  [ofFields "A" "方案A：分潤20%"
      [(.profitShare, "20"), (.guaranteedMinimum, noneMark), (.bonusAmount, noneMark),
       (.performanceThreshold, noneMark), (.profitShareBonus, "25"),
       (.endDate, today.seasonEnd), (.fanOffer, noneMark)],
   ofFields "B" "方案B：分潤15%+保底25000"
      [(.profitShare, "15"), (.guaranteedMinimum, "25000"), (.bonusAmount, noneMark),
       (.performanceThreshold, noneMark), (.profitShareBonus, "20"),
       (.endDate, today.seasonEnd), (.fanOffer, noneMark)],
   ofFields "C" "方案C：分潤10%+加碼10000"
      [(.profitShare, "10"), (.guaranteedMinimum, noneMark), (.bonusAmount, "10000"),
       (.performanceThreshold, "150000"), (.profitShareBonus, "15"),
       (.endDate, today.seasonEnd), (.fanOffer, noneMark)],
   ofFields "THRESHOLD_TEMPLATE" "門檻達標模板"
      [(.profitShare, "15"), (.performanceThreshold, "200000"), (.profitShareBonus, "20"),
       (.endDate, today.seasonEnd)],
   ofFields "FAN_OFFER_COMBO" "粉絲優惠模板：組合優惠"
      [(.endDate, today.seasonEnd), (.fanOffer, comboOffer)]]

end Preset

/-- A **collection of presets**, in the order in which they were added. -/
structure Presets where
  list : List Preset
  deriving DecidableEq

namespace Presets

/-- The built-in collection in the year of a date, which stands for a store file that is missing. -/
def builtIn (today : Date) : Presets :=
  ⟨Preset.builtIn today⟩

/-- The ids, in order. One that was written by hand may occur twice. -/
def ids (s : Presets) : List String :=
  s.list.map Preset.id

/-- The first preset with an id, if there is one. -/
def find? (s : Presets) (id : String) : Option Preset :=
  s.list.find? (·.id == id)

/-- The preset with an id, or the failure that there is none. -/
def get (s : Presets) (id : String) : Except Failure Preset :=
  match s.find? id with
  | some p => .ok p
  | none => .error (.presetNotFound id)

/-- Add the storable fields of a record as a preset at the end. -/
def add (s : Presets) (clock : Nat) (name : String) (fields : Record) : Outcome Presets Preset :=
  Edit.of s do
    let name := Text.trim name
    if name.isEmpty then throw .presetNameBlank
    let data := fields.retain (Field.stored.map Field.name)
    let preset : Preset := ⟨freshId (← getThe Presets).ids clock, name, data⟩
    modify fun s => { s with list := s.list ++ [preset] }
    return preset

/-- Take out the first preset with an id and give it back. If there is none, nothing is changed. -/
def delete (s : Presets) (id : String) : Outcome Presets Preset := Edit.of s do
  match (← getThe Presets).find? id with
  | none => throw (.presetToDeleteNotFound id)
  | some removed =>
    modify fun s => { s with list := s.list.eraseP (·.id == id) }
    return removed

end Presets

end Outreach
