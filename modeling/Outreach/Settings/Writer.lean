import Outreach.Settings
import Outreach.Yaml.Scalar.Writer

/-!
# Writing Settings

Settings are written with every part on a line of its own, two spaces below the name of its section;
the items of a list follow on lines that start with dashes.
-/

namespace Outreach.Settings

/-- The column of the further lines of a value: two levels below the outermost. -/
def valueIndent : Nat := 4

/-- A written value with the end of its line, which the last break of the value may be. -/
def endLine (written : List Char) : List Char :=
  if written.getLast?.any Yaml.isBreak then written else written ++ ['\n']

/-- The line of a part: its name behind a margin, and the written value with the end of its line. -/
def line (name : String) (written : List Char) : List Char :=
  "  ".toList ++ name.toList ++ ": ".toList ++ endLine written

/-- The line of a part that is a text, in the style that the text needs. -/
def textLine (name value : String) : List Char :=
  line name (Yaml.writeScalar valueIndent value.toList)

/-- The line of a part that is a number, by its decimal digits. -/
def wholeLine (name : String) (value : UInt64) : List Char :=
  line name (Nat.toDigits 10 value.toNat)

/-- The lines of a part that is a list of texts, one item a line. An empty list is written as two
brackets. -/
def listLines (name : String) (values : List String) : List Char :=
  if values.isEmpty then line name ['[', ']']
  else
    "  ".toList ++ name.toList ++ ":\n".toList ++
      values.flatMap fun value =>
        "  - ".toList ++ endLine (Yaml.writeScalar valueIndent value.toList)

/-- The text of settings: two sections, with all parts of each in a fixed order. -/
def toText (s : Settings) : String :=
  String.ofList <|
    "format:\n".toList
      ++ line "grouping_separator" (Yaml.writeQuoted valueIndent [s.display.groupingSeparator])
      ++ textLine "percent_suffix" s.display.percentSuffix
      ++ wholeLine "max_fraction_digits" s.display.maxFractionDigits
      ++ listLines "number_fields" s.display.numberFields
      ++ listLines "percent_fields" s.display.percentFields
      ++ "polish:\n".toList
      ++ textLine "model" s.polish.model
      ++ textLine "base_url" s.polish.baseUrl
      ++ textLine "api_key_env" s.polish.keyVariable
      ++ wholeLine "timeout_secs" s.polish.timeoutSeconds
      ++ wholeLine "min_chars" s.polish.minimumLength

end Outreach.Settings
