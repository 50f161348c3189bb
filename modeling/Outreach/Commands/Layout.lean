/-!
# Layout of Lists

Lists are printed in columns. A text that is shorter than its column is filled up with spaces, and a
longer one pushes the rest of its line to the right.
-/

namespace Outreach

/-- A text with spaces behind it up to a number of characters. -/
def padRight (width : Nat) (s : String) : String :=
  s ++ String.ofList (List.replicate (width - s.length) ' ')

/-- Lines of a text, each with a line feed at its end, the last one too. -/
def unlines (lines : List String) : String :=
  String.join (lines.map (· ++ "\n"))

end Outreach
