import Outreach.Number.Binary64
import Outreach.Text.Blank

/-!
# The Leading Number of a Text

Field values are free text, such as `25000 元`. What counts as their number is the longest numeral
at the front, blanks aside; the word `Infinity` is one too.
-/

namespace Outreach

/-- The rest of a text after a word at its front. -/
def dropWord? : List Char → List Char → Option (List Char)
  | [], rest => some rest
  | _ :: _, [] => none
  | w :: ws, c :: cs => if w = c then dropWord? ws cs else none

/-- The number at the front of a text, behind blanks and a sign: the word for infinity, or the
longest numeral that stands there. -/
def leadingNumber? (cs : List Char) : Option Binary64 :=
  let (negative, rest) := Numeral.readSign (Text.trimStart cs)
  if (dropWord? "Infinity".toList rest).isSome then some (.infinite negative)
  else (Numeral.readUnsigned negative rest).map fun (numeral, _) => Binary64.ofNumeral numeral

end Outreach
