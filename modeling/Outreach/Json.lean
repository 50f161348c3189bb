import Outreach.Number.Binary64

/-!
# JSON Values

The values that stores and service replies are made of. A string may be written with escapes that
pair up to no character; such a string is kept as `none`, and only readers that look at it refuse
it. Objects keep their members in the order in which they were written, repeated keys included.

## Main definitions

* `Json.fields?`: the way in which a value with named parts is read.
* `Json.inRange`: the numbers that can be held.
* `Json.isStrict`: every string is text, every number can be held, and the nesting is limited.
-/

namespace Outreach

/-- A **JSON value**. Numbers are kept as they are written, and members in the order in which they
stand. -/
inductive Json where
  | null
  | bool (b : Bool)
  | number (n : Numeral)
  /-- A string; `none` if its escapes do not spell characters. -/
  | string (s : Option String)
  | array (items : List Json)
  | object (members : List (Option String × Json))

namespace Json

instance : Inhabited Json := ⟨null⟩

/-- The value of a text, as every writer of a store makes it: a string whose characters are known.
-/
def ofString (s : String) : Json :=
  string (some s)

/-- The text of a string. A string whose escapes spell no characters has none, and neither has any
other value. -/
def text? : Json → Option String
  | string s => s
  | _ => none

/-- The items of an array. Any other value has none. -/
def items? : Json → Option (List Json)
  | array items => some items
  | _ => none

/-- The members of an object, if all its keys are text. -/
def members? : Json → Option (List (String × Json))
  | object members => members.mapM fun (key, value) => key.map (·, value)
  | _ => none

/-- The value under a name that stands at most once among members; `none` if it is repeated. -/
def uniqueMember? (members : List (String × Json)) (name : String) : Option (Option Json) :=
  match members.filter (·.1 == name) with
  | [] => some none
  | [(_, value)] => some (some value)
  | _ => none

/-- The **named parts** of a value, in the order of `names`. In an object each name may stand
once, may be missing, and stands beside any others. An array gives all parts by their places. -/
def fields? (names : List String) : Json → Option (List (Option Json))
  | array items => if items.length = names.length then some (items.map some) else none
  | json => json.members?.bind fun members => names.mapM (uniqueMember? members)

/-- The value under a name in an object, the last one if it is repeated; `null` in place of what is
not there. -/
def get (name : String) : Json → Json
  | object members => ((members.reverse.find? (·.1 == some name)).map (·.2)).getD null
  | _ => null

/-- The item at a place of an array; `null` in place of what is not there. -/
def item (i : Nat) : Json → Json
  | array items => items[i]?.getD null
  | _ => null

/-- The leading digits of a number that fit in 64 bits, with the power of ten that they count. -/
def leadingDigits (significand : Nat) (exponent : Int) : Nat × Int :=
  if h : significand < UInt64.size then (significand, exponent)
  else leadingDigits (significand / 10) (exponent + 1)
termination_by significand
decreasing_by
  have : 0 < UInt64.size := by decide
  omega

/-- Whether a number can be held. It is made from its leading digits and a power of ten, both
rounded to the 64-bit binary format; their product must not round to infinity, and the power must be
finite unless the digits are zero. -/
def inRange (n : Numeral) : Bool :=
  let (digits, exponent) := leadingDigits n.significand n.exponent
  if digits = 0 || exponent < 0 then true
  else
    match Binary64.ofNumeral ⟨false, digits, 0⟩, Binary64.ofNumeral ⟨false, 1, exponent⟩ with
    | .finite _ m i, .finite _ n j =>
      (m * twoPow i) * (n * twoPow j) < Binary64.overflow * Binary64.unit
    | _, _ => false

mutual

/-- Whether arrays and objects nest at most `depth` deep, all strings are text and all numbers can
be held. -/
def isStrict (depth : Nat) : Json → Bool
  | null => true
  | bool _ => true
  | number n => inRange n
  | string s => s.isSome
  | array items => 0 < depth && areStrict (depth - 1) items
  | object members => 0 < depth && membersAreStrict (depth - 1) members

/-- Whether all items of an array are strict at a depth. -/
def areStrict (depth : Nat) : List Json → Bool
  | [] => true
  | item :: items => item.isStrict depth && areStrict depth items

/-- Whether all keys of an object are text and all its values are strict at a depth. -/
def membersAreStrict (depth : Nat) : List (Option String × Json) → Bool
  | [] => true
  | (key, value) :: members => key.isSome && value.isStrict depth && membersAreStrict depth members

end

end Json

end Outreach
