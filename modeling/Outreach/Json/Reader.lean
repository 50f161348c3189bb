import Outreach.Json.Token

/-!
# Reading JSON

Tokens are read from left to right. The arrays and objects that stand open are kept in a list of
*frames*, the innermost first; a value that is complete goes into the innermost frame.
-/

namespace Outreach.Json

/-- A **frame**: an array or object that stands open, with what it holds so far, the last first. -/
inductive Frame where
  | array (before : List Json)
  /-- An object whose next value belongs to `key`. -/
  | object (before : List (Option String × Json)) (key : Option String)

/-- The value of a token that is one by itself: anything but a bracket, a comma or a colon. -/
def Token.scalar? : Token → Option Json
  | null => some .null
  | bool b => some (.bool b)
  | number n => some (.number n)
  | string s => some (.string s)
  | _ => none

mutual

/-- Read on where a value has to start. A bracket opens a frame, unless it is closed again at
once. -/
def readValue (frames : List Frame) : List Token → Option Json
  | .beginArray :: .endArray :: ts => readAfter frames (.array []) ts
  | .beginArray :: ts => readValue (.array [] :: frames) ts
  | .beginObject :: .endObject :: ts => readAfter frames (.object []) ts
  | .beginObject :: .string key :: .colon :: ts => readValue (.object [] key :: frames) ts
  | t :: ts =>
    match t.scalar? with
    | some value => readAfter frames value ts
    | none => none
  | [] => none

/-- Read on after a value is complete: it ends the text, or goes into the frame that is open. -/
def readAfter (frames : List Frame) (value : Json) : List Token → Option Json
  | [] => if frames.isEmpty then some value else none
  | t :: ts =>
    match frames, t with
    | .array before :: frames, .comma => readValue (.array (value :: before) :: frames) ts
    | .array before :: frames, .endArray => readAfter frames (.array (value :: before).reverse) ts
    | .object before key :: frames, .comma =>
      match ts with
      | .string next :: .colon :: ts =>
        readValue (.object ((key, value) :: before) next :: frames) ts
      | _ => none
    | .object before key :: frames, .endObject =>
      readAfter frames (.object ((key, value) :: before).reverse) ts
    | _, _ => none

end

/-- The value that a text is, if it is one value with nothing but blanks around it. -/
def ofText? (text : String) : Option Json :=
  (tokens? text.toList).bind (readValue [])

end Outreach.Json
