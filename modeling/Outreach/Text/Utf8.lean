/-!
# Reading Damaged UTF-8

Replies of a service come as bytes that need not be encoded text. They are read byte by byte; the
longest start of a character that the next byte cannot continue becomes one replacement character.
-/

namespace Outreach.Text

/-- The character that stands for bytes that spell none. -/
def replacementChar : Char := '\ufffd'

/-- Where a reader stands: between characters, or within one whose value so far is known, with the
number of bytes that are missing and the range in which the next one has to lie. -/
inductive Utf8State where
  | between
  | within (value missing low high : Nat)
  deriving DecidableEq, Repr

namespace Utf8State

/-- Read a byte between characters: one of a single byte is complete, a leading byte opens one,
and any other byte spells none. -/
def start (b : Nat) : List Char × Utf8State :=
  if b < 0x80 then ([Char.ofNat b], between)
  else if b < 0xC2 then ([replacementChar], between)
  else if b < 0xE0 then ([], within (b - 0xC0) 1 0x80 0xBF)
  else if b < 0xF0 then
    let low := if b = 0xE0 then 0xA0 else 0x80
    let high := if b = 0xED then 0x9F else 0xBF
    ([], within (b - 0xE0) 2 low high)
  else if b < 0xF5 then
    let low := if b = 0xF0 then 0x90 else 0x80
    let high := if b = 0xF4 then 0x8F else 0xBF
    ([], within (b - 0xF0) 3 low high)
  else ([replacementChar], between)

/-- Read a byte: the characters that are complete, and where the reader stands afterwards. -/
def feed (s : Utf8State) (b : Nat) : List Char × Utf8State :=
  match s with
  | between => start b
  | within value missing low high =>
    if low ≤ b ∧ b ≤ high then
      let value := value * 64 + (b - 0x80)
      if missing ≤ 1 then ([Char.ofNat value], between)
      else ([], within value (missing - 1) 0x80 0xBF)
    else
      let (chars, s) := start b
      (replacementChar :: chars, s)

/-- The characters of bytes from a state on. What is cut off at the end spells one replacement
character. -/
def read (s : Utf8State) : List Nat → List Char
  | [] =>
    match s with
    | between => []
    | within .. => [replacementChar]
  | b :: bs =>
    let (chars, s) := s.feed b
    chars ++ s.read bs

end Utf8State

/-- The text of bytes, with replacement characters where they spell none. So every reply has a
text. -/
def ofBytes (bytes : ByteArray) : String :=
  String.ofList (Utf8State.between.read (bytes.toList.map UInt8.toNat))

end Outreach.Text
