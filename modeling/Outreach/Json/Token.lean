import Outreach.Json

/-!
# JSON Tokens

A JSON text is cut into tokens: brackets, commas, colons and scalars, with blanks between them.
Two scalars may touch here; the grammar never lets one follow another.

## Main results

* `Json.Token.length_read?`: a token takes at least one character.
-/

namespace Outreach.Json

/-- A **part of a string**: a character, or four hexadecimal digits after a backslash and a `u`,
which give a unit of the 16-bit encoding. -/
inductive StringPart where
  | char (c : Char)
  | unit (n : Nat)
  deriving DecidableEq, Repr

namespace StringPart

/-- The character that two units of the 16-bit encoding pair up to. -/
def pair? (high low : Nat) : Option Char :=
  if 0xD800 ≤ high && high < 0xDC00 && 0xDC00 ≤ low && low < 0xE000 then
    some (Char.ofNat (0x10000 + (high - 0xD800) * 0x400 + (low - 0xDC00)))
  else none

/-- The characters that parts spell; a unit that only occurs in pairs has to stand in one. -/
def spell? : List StringPart → Option (List Char)
  | [] => some []
  | char c :: parts => (spell? parts).map (c :: ·)
  | unit high :: unit low :: parts =>
    if 0xD800 ≤ high && high < 0xE000 then
      (pair? high low).bind fun c => (spell? parts).map (c :: ·)
    else (spell? (unit low :: parts)).map (Char.ofNat high :: ·)
  | unit n :: parts =>
    if 0xD800 ≤ n && n < 0xE000 then none else (spell? parts).map (Char.ofNat n :: ·)

end StringPart

/-- The value of a hexadecimal digit, in either case of letters. -/
def hexDigit? (c : Char) : Option Nat :=
  if c.isDigit then some (c.toNat - '0'.toNat)
  else if 'a' ≤ c ∧ c ≤ 'f' then some (c.toNat - 'a'.toNat + 10)
  else if 'A' ≤ c ∧ c ≤ 'F' then some (c.toNat - 'A'.toNat + 10)
  else none

/-- The value of four hexadecimal digits, the first one counting most. -/
def hexUnit? (a b c d : Char) : Option Nat := do
  return ((← hexDigit? a) * 16 + (← hexDigit? b)) * 256 + (← hexDigit? c) * 16 + (← hexDigit? d)

/-- The character that a letter after a backslash stands for, for the eight escapes of one letter.
-/
def shortEscape? : Char → Option Char
  | '"' => some '"'
  | '\\' => some '\\'
  | '/' => some '/'
  | 'b' => some '\x08'
  | 'f' => some '\x0c'
  | 'n' => some '\n'
  | 'r' => some '\r'
  | 't' => some '\t'
  | _ => none

/-- The parts of a string after its opening quote, with the rest after the closing one. Control
characters stand in no string. -/
def readParts? : List Char → Option (List StringPart × List Char)
  | [] => none
  | '"' :: rest => some ([], rest)
  | '\\' :: 'u' :: a :: b :: c :: d :: rest =>
    match hexUnit? a b c d, readParts? rest with
    | some n, some (parts, rest) => some (.unit n :: parts, rest)
    | _, _ => none
  | '\\' :: e :: rest =>
    match shortEscape? e, readParts? rest with
    | some c, some (parts, rest) => some (.char c :: parts, rest)
    | _, _ => none
  | c :: rest =>
    if c == '\\' || c.toNat < 0x20 then none
    else (readParts? rest).map fun (parts, rest) => (.char c :: parts, rest)

/-- The digits at the front of a text, at least one, with the rest. -/
def readDigits? (cs : List Char) : Option (List Char × List Char) :=
  match cs.takeWhile Char.isDigit with
  | [] => none
  | digits => some (digits, cs.dropWhile Char.isDigit)

/-- The digits before the point, with the rest; no zero stands in front of others. -/
def readWhole? (cs : List Char) : Option (List Char × List Char) :=
  match readDigits? cs with
  | some ('0' :: _ :: _, _) => none
  | read => read

/-- The digits after the point, with the rest; none if there is no point. -/
def readFraction? : List Char → Option (List Char × List Char)
  | '.' :: rest => readDigits? rest
  | cs => some ([], cs)

/-- The number without a sign at the front of a text, with the rest. A letter `e` without digits
behind it is left over, and starts no token. -/
def readUnsigned? (negative : Bool) (cs : List Char) : Option (Numeral × List Char) :=
  match readWhole? cs with
  | none => none
  | some (whole, cs) =>
    match readFraction? cs with
    | none => none
    | some (fraction, cs) =>
      let (exponent, rest) := Numeral.readExponent cs
      some (⟨negative, Numeral.natOfDigits (whole ++ fraction), exponent - fraction.length⟩, rest)

/-- The number at the front of a text, with the rest. -/
def readNumber? : List Char → Option (Numeral × List Char)
  | '-' :: rest => readUnsigned? true rest
  | cs => readUnsigned? false cs

/-- A **token** of a JSON text. Strings and numbers are read here, values from tokens. -/
inductive Token where
  | beginArray
  | endArray
  | beginObject
  | endObject
  | comma
  | colon
  | null
  | bool (b : Bool)
  | number (n : Numeral)
  | string (s : Option String)
  deriving DecidableEq, Repr

/-- The blanks of the format: space, line feed, tabulator and carriage return, and no others. -/
def isSpace (c : Char) : Bool :=
  c == ' ' || c == '\n' || c == '\t' || c == '\r'

namespace Token

/-- The token at the front of a text, with the rest. -/
def read? : List Char → Option (Token × List Char)
  | '[' :: rest => some (beginArray, rest)
  | ']' :: rest => some (endArray, rest)
  | '\x7b' :: rest => some (beginObject, rest)
  | '\x7d' :: rest => some (endObject, rest)
  | ',' :: rest => some (comma, rest)
  | ':' :: rest => some (colon, rest)
  | 'n' :: 'u' :: 'l' :: 'l' :: rest => some (null, rest)
  | 't' :: 'r' :: 'u' :: 'e' :: rest => some (bool true, rest)
  | 'f' :: 'a' :: 'l' :: 's' :: 'e' :: rest => some (bool false, rest)
  | '"' :: rest =>
    (readParts? rest).map fun (parts, rest) =>
      (string ((StringPart.spell? parts).map String.ofList), rest)
  | cs => (readNumber? cs).map fun (n, rest) => (number n, rest)

end Token

/-- Reading the parts of a string up to its quote leaves less than there was. -/
theorem length_readParts? {cs rest : List Char} {parts : List StringPart}
    (h : readParts? cs = some (parts, rest)) : rest.length < cs.length := by
  fun_induction readParts? cs generalizing parts rest with
  | case1 => simp at h
  | case2 => simp_all
  | case3 a b c d cs n p r hr _ ih =>
    obtain ⟨-, rfl⟩ : _ ∧ r = rest := by simpa using h
    have := ih hr
    simp only [List.length_cons]
    omega
  | case4 => simp at h
  | case5 e cs _ c p r hr _ ih =>
    obtain ⟨-, rfl⟩ : _ ∧ r = rest := by simpa using h
    have := ih hr
    simp only [List.length_cons]
    omega
  | case6 => simp at h
  | case7 => simp at h
  | case8 c cs _ _ _ _ ih =>
    obtain ⟨⟨p, r⟩, hr, he⟩ := Option.map_eq_some_iff.1 h
    obtain ⟨-, rfl⟩ : _ ∧ r = rest := by simpa using he
    have := ih hr
    simp only [List.length_cons]
    omega

/-- Reading digits leaves less than there was, since at least one is read. -/
theorem length_readDigits? {cs digits rest : List Char} (h : readDigits? cs = some (digits, rest)) :
    rest.length < cs.length := by
  unfold readDigits? at h
  split at h
  · simp at h
  · rename_i ds hne
    obtain ⟨-, rfl⟩ : _ ∧ cs.dropWhile Char.isDigit = rest := by simpa using h
    have hlen := congrArg List.length
      (List.takeWhile_append_dropWhile (p := Char.isDigit) (l := cs))
    have := List.length_pos_iff.2 (fun he => hne he)
    simp only [List.length_append] at hlen
    omega

/-- Reading a number without its sign leaves less than there was. -/
theorem length_readUnsigned? {negative : Bool} {cs rest : List Char} {n : Numeral}
    (h : readUnsigned? negative cs = some (n, rest)) : rest.length < cs.length := by
  unfold readUnsigned? at h
  split at h
  · simp at h
  · rename_i whole afterWhole hw
    have h1 : afterWhole.length < cs.length := by
      unfold readWhole? at hw
      split at hw
      · simp at hw
      · exact length_readDigits? hw
    split at h
    · simp at h
    · rename_i fraction afterFraction hf
      have h2 : afterFraction.length ≤ afterWhole.length := by
        unfold readFraction? at hf
        split at hf
        · have := length_readDigits? hf
          simp only [List.length_cons]
          omega
        · simp_all
      obtain ⟨-, rfl⟩ : _ ∧ (Numeral.readExponent afterFraction).2 = rest := by simpa using h
      have := Numeral.length_readExponent afterFraction
      omega

/-- Reading a number leaves less than there was, so tokens are read in finitely many steps. -/
theorem length_readNumber? {cs rest : List Char} {n : Numeral}
    (h : readNumber? cs = some (n, rest)) : rest.length < cs.length := by
  unfold readNumber? at h
  split at h
  · have := length_readUnsigned? h
    simp only [List.length_cons]
    omega
  · exact length_readUnsigned? h

/-- A token takes at least one character. -/
theorem Token.length_read? {cs rest : List Char} {t : Token} (h : read? cs = some (t, rest)) :
    rest.length < cs.length := by
  unfold read? at h
  split at h
  case h_10 =>
    obtain ⟨⟨p, r⟩, hr, he⟩ := Option.map_eq_some_iff.1 h
    obtain ⟨-, rfl⟩ : _ ∧ r = rest := by simpa using he
    have := length_readParts? hr
    simp only [List.length_cons]
    omega
  case h_11 =>
    obtain ⟨⟨p, r⟩, hr, he⟩ := Option.map_eq_some_iff.1 h
    obtain ⟨-, rfl⟩ : _ ∧ r = rest := by simpa using he
    exact length_readNumber? hr
  all_goals
    obtain ⟨-, rfl⟩ : _ ∧ _ = rest := by simpa using h
    simp only [List.length_cons]
    omega

/-- The tokens of a text, if it has no others between its blanks. -/
def tokens? (cs : List Char) : Option (List Token) :=
  match cs with
  | [] => some []
  | c :: cs =>
    if isSpace c then tokens? cs
    else
      match h : Token.read? (c :: cs) with
      | none => none
      | some (t, rest) => (tokens? rest).map (t :: ·)
termination_by cs.length
decreasing_by
  · simp
  · exact Token.length_read? h

end Outreach.Json
