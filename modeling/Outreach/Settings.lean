import Outreach.Display
import Outreach.Polish.Settings

/-!
# Settings

The settings of a data directory: how values are displayed and how offers are polished. Every part
has a default. Settings are acceptable if every part can be used; of several faults the first in
the order of `Settings.check` is reported.
-/

namespace Outreach

/-- The **settings** of a data directory, for what is shown and for polishing. The defaults hold
where there is no file. -/
structure Settings where
  display : Display := {}
  polish : Polish.Settings := {}
  deriving DecidableEq, Repr

instance : Inhabited Settings := ⟨{}⟩

/-- Whether a separator could be read as part of a number: a digit or the decimal point. The signs
of a number are not asked for. -/
def Settings.isReserved (separator : Char) : Bool :=
  separator.isDigit || separator == '.'

/-- Accept settings, or report their first fault, in a fixed order: what concerns the display
first, then polishing. -/
def Settings.check (s : Settings) : Except Failure Unit := do
  if s.display.percentSuffix.isEmpty then throw .percentSuffixEmpty
  if isReserved s.display.groupingSeparator then
    throw (.separatorReserved s.display.groupingSeparator)
  if Failure.fractionDigitLimit < s.display.maxFractionDigits.toNat then
    throw (.tooManyFractionDigits s.display.maxFractionDigits.toNat)
  if s.polish.timeoutSeconds = 0 then throw .timeoutZero
  if Text.isBlankText s.polish.keyVariable then throw .keyVariableBlank
  if Text.isBlankText s.polish.model then throw .modelBlank

end Outreach
