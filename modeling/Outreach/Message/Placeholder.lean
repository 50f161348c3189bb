import Outreach.Record

/-!
# Placeholders

A *token* is an opening brace, a name without braces and a closing brace. A token whose name is a
field of the record stands for the text of the field; every other token, and every brace that is
part of none, stands for itself. Substituted texts are not read again.

## Main results

* `length_dropWhile_not_brace`: what follows a name is no longer than the text it was read from.
-/

namespace Outreach.Message

/-- An opening or a closing brace. Neither can stand in the name of a token. -/
def isBrace (c : Char) : Bool :=
  c == '\x7b' || c == '\x7d'

/-- A **slot** of a text: a character of its own, or a token. -/
inductive Slot where
  | char (c : Char)
  | token (name : List Char)
  deriving DecidableEq, Repr

namespace Slot

/-- The text that a slot is written as: the character, or the name of a token in braces. -/
def source : Slot → List Char
  | char c => [c]
  | token name => '\x7b' :: name ++ ['\x7d']

/-- The text that a slot stands for: the value under its name. A token whose name the record lacks
stands for itself. -/
def fill (values : Record) : Slot → List Char
  | char c => [c]
  | token name =>
    match values.get? (String.ofList name) with
    | some value => value.toList
    | none => source (token name)

end Slot

/-- What is left from the next brace on is no longer than the text. -/
theorem length_dropWhile_not_brace (cs : List Char) :
    (cs.dropWhile (!isBrace ·)).length ≤ cs.length :=
  (List.dropWhile_sublist _).length_le

/-- The slots of a text, read from left to right. An opening brace starts a token exactly when the
next brace is a closing one. -/
def slots : List Char → List Slot
  | [] => []
  | c :: cs =>
    if c == '\x7b' then
      match h : cs.dropWhile (!isBrace ·) with
      | [] => .char c :: slots cs
      | brace :: rest =>
        if brace == '\x7d' then .token (cs.takeWhile (!isBrace ·)) :: slots rest
        else .char c :: slots cs
    else .char c :: slots cs
termination_by cs => cs.length
decreasing_by
  · simp
  · have := length_dropWhile_not_brace cs
    simp only [h, List.length_cons] at this ⊢
    omega
  · simp
  · simp

/-- A text with the tokens that name fields replaced by the texts of the fields. -/
def substituteSlots (values : Record) (cs : List Char) : List Char :=
  (slots cs).flatMap (Slot.fill values)

/-- A string with the tokens that name fields replaced by the texts of the fields. -/
def substitutePlaceholders (text : String) (values : Record) : String :=
  String.ofList (substituteSlots values text.toList)

end Outreach.Message
