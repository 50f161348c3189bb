/-!
# Fresh Ids

Presets and templates that users add are named after the clock: the milliseconds at which they were
added, moved on by one as long as that id is taken.
-/

namespace Outreach

/-- The first number from `n` on whose decimal text is not taken, or the last one looked at. -/
def firstFree (taken : List String) (n : Nat) : Nat → Nat
  | 0 => n
  | tries + 1 => if taken.contains (toString n) then firstFree taken (n + 1) tries else n

/-- An id that is not taken, from the clock on. Among one more numbers than there are ids one is
free, so no more have to be looked at. -/
def freshId (taken : List String) (clock : Nat) : String :=
  toString (firstFree taken clock taken.length)

end Outreach
