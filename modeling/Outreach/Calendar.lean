/-!
# Dates

Dates of the Gregorian calendar, the date of an instant, and the two ways in which a date is
written: in full, and as the end of the season that a built-in preset runs to.
-/

namespace Outreach

/-- A **date** of the Gregorian calendar, which is taken to run back before its first year. -/
structure Date where
  year : Int
  month : Nat
  day : Nat
  deriving DecidableEq, Repr

namespace Date

/-- Milliseconds in a day. -/
def dayMillis : Nat := 86400000

/-- The date of the `n`-th day after 1 March of year 0, or before it if `n` is negative.

Years are counted from March, so that a leap day ends its year. An era of 400 years has 146097
days, a century of it 36524, four years 1461 and a common year 365. -/
def ofMarchDay (n : Int) : Date :=
  let era := n / 146097
  let dayOfEra := (n % 146097).toNat
  let yearOfEra := (dayOfEra - dayOfEra / 1460 + dayOfEra / 36524 - dayOfEra / 146096) / 365
  let dayOfYear := dayOfEra - (365 * yearOfEra + yearOfEra / 4 - yearOfEra / 100)
  let month := (5 * dayOfYear + 2) / 153
  let day := dayOfYear - (153 * month + 2) / 5 + 1
  let year := yearOfEra + era * 400
  if month < 10 then ⟨year, month + 3, day⟩ else ⟨year + 1, month - 9, day⟩

/-- The date of an instant, in milliseconds since the start of 1970 by the clock that gives the
date. -/
def ofUnixMillis (ms : Int) : Date :=
  ofMarchDay (ms / dayMillis + 719468)

/-- A number in decimal digits, filled up with zeros in front to `width` digits. -/
def zeroPadded (width n : Nat) : String :=
  let digits := Nat.toDigits 10 n
  String.ofList (List.replicate (width - digits.length) '0' ++ digits)

/-- A date in full: four digits of the year, with a sign before years outside 0 to 9999, and two
each of month and day. -/
def text (d : Date) : String :=
  let sign := if d.year < 0 then "-" else if 9999 < d.year then "+" else ""
  sign ++ zeroPadded 4 d.year.natAbs ++ "-" ++ zeroPadded 2 d.month ++ "-" ++ zeroPadded 2 d.day

/-- The last day of the season in the year of a date: 30 November. -/
def seasonEnd (d : Date) : String :=
  s!"{d.year}-11-30"

end Date

end Outreach
