import Outreach.Failure
import Outreach.Record
import Outreach.Text.Blank

/-!
# Assignments

Fields given one by one in the form `KEY=VALUE`. The key ends at the first equals sign and is
trimmed; the value is all that follows, blanks and further equals signs included.
-/

namespace Outreach

/-- A text cut at its first equals sign. The value may hold further ones. -/
def splitAtEquals (cs : List Char) : Option (List Char × List Char) :=
  match cs.dropWhile (· != '=') with
  | [] => none
  | _ :: value => some (cs.takeWhile (· != '='), value)

/-- The key and the value that an assignment gives. The key is trimmed and must not be empty; the
value is taken as it is. -/
def readAssignment (text : String) : Except Failure (String × String) :=
  match splitAtEquals text.toList with
  | none => throw (.notAnAssignment text)
  | some (key, value) =>
    let key := Text.trimChars key
    if key.isEmpty then throw (.emptyAssignmentKey text)
    else pure (String.ofList key, String.ofList value)

namespace Record

/-- Carry out one assignment, which replaces the text under its key or adds a field. -/
def assign (r : Record) (text : String) : Except Failure Record := do
  let (key, value) ← readAssignment text
  return r.set key value

/-- Carry out assignments in order, up to the first that does not read as one. -/
def assignAll (r : Record) (texts : List String) : Except Failure Record :=
  texts.foldlM assign r

end Record

end Outreach
