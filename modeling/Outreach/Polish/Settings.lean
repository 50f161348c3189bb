/-!
# Polish Settings

How the service that polishes fan offers is reached, and how long an offer must be.
-/

namespace Outreach.Polish

/-- The **settings** of the service, each with the default that holds where a file does not name
it. -/
structure Settings where
  /-- The name of the language model. -/
  model : String := "gemini-2.5-flash"
  /-- The address of the service. -/
  baseUrl : String := "https://generativelanguage.googleapis.com/v1beta"
  /-- The environment variable that holds the key of the service. -/
  keyVariable : String := "API_KEY"
  /-- How many seconds to wait for a reply. -/
  timeoutSeconds : UInt64 := 30
  /-- The fewest characters of an offer that is worth polishing. -/
  minimumLength : UInt64 := 5
  deriving DecidableEq, Repr

instance : Inhabited Settings := ⟨{}⟩

end Outreach.Polish
