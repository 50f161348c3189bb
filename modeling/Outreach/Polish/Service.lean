import Outreach.Json.Reader
import Outreach.Json.Writer
import Outreach.Polish.Settings
import Outreach.Program
import Outreach.Text.Blank
import Outreach.Text.Utf8

/-!
# The Polishing Service

A language model behind a web service. A client holds the key of the service; a prompt is posted in
JSON, and the words of the model stand at a fixed place in the JSON of the reply.
-/

namespace Outreach.Polish

/-- Why the service gave no words, with what is known of the cause. No fault is a failure of a
command, since a fixed phrase takes the place of the words. -/
inductive Fault where
  /-- The environment variable of the key is not set, or blank. -/
  | keyMissing (variableName : String)
  /-- No reply came. -/
  | unreachable (reason : String)
  /-- The reply reports an error. -/
  | refused (status : Nat) (text : String)
  /-- The reply is not a JSON value. -/
  | replyNotJson (detail : String)
  /-- The reply holds no words at the place for them. -/
  | noContent
  deriving DecidableEq, Repr

/-- A **client** of the service: the key, the address without slashes at its end, and the name of
the model. -/
structure Client where
  key : String
  baseUrl : String
  model : String
  deriving DecidableEq, Repr

namespace Client

/-- A text without the slashes at its end, so that the path of a request can be put behind it. -/
def trimSlashes (s : String) : String :=
  String.ofList (s.toList.reverse.dropWhile (· == '/')).reverse

/-- The client with a key, for the service and the model of the settings. -/
def ofKey (s : Settings) (key : String) : Client :=
  ⟨key, trimSlashes s.baseUrl, s.model⟩

/-- The client with the key that the environment holds under the variable of the settings. A blank
key counts as none. -/
def ofSettings (s : Settings) : Program (Except Fault Client) := do
  let key ← Program.request (.readVariable s.keyVariable)
  match key.filter (!Text.isBlankText ·) with
  | none => return .error (.keyMissing s.keyVariable)
  | some key => return .ok (ofKey s key)

/-- The address that a client posts to, with the model in its path and the key behind it. -/
def address (c : Client) : String :=
  s!"{c.baseUrl}/models/{c.model}:generateContent?key={c.key}"

/-- The body of a prompt: the prompt as the only part of what the user says. -/
def body (prompt : String) : Json :=
  .object [(some "contents", .array [
    .object [
      (some "parts", .array [.object [(some "text", .ofString prompt)]]),
      (some "role", .ofString "user")]])]

/-- The posting of a prompt: where it goes to, and its body as a JSON text. -/
def posting (c : Client) (prompt : String) : Posting :=
  ⟨c.address, (body prompt).toText⟩

end Client

/-- Arrays and objects of a reply nest at most so deep. A deeper reply counts as one that is no
JSON value. -/
def replyDepth : Nat := 127

/-- The words at the place for them in the JSON of a reply. -/
def contentOf? (json : Json) : Option String :=
  ((((((json.get "candidates").item 0).get "content").get "parts").item 0).get "text").text?

/-- The words of the model in a reply, if its status reports success, it is a JSON value, and
words stand at their place. -/
def interpret (r : Reply) : Except Fault String :=
  let text := Text.ofBytes r.body
  if r.status < 200 || 300 ≤ r.status then .error (.refused r.status text)
  else
    match (Json.ofText? text).filter (Json.isStrict replyDepth) with
    | none => .error (.replyNotJson "the text is not an acceptable JSON value")
    | some json =>
      match contentOf? json with
      | none => .error .noContent
      | some words => .ok words

/-- Ask the model: post the prompt once and make words of the reply. There is no second attempt. -/
def Client.generate (c : Client) (prompt : String) : Program (Except Fault String) := do
  match ← Program.request (.post (c.posting prompt)) with
  | .error reason => return .error (.unreachable reason)
  | .ok reply => return interpret reply

end Outreach.Polish
