import Outreach.Proofs.Json.Grammar

/-!
# How Objects of Strings Are Written

A JSON text leaves some choice to its writer: which blanks stand between the tokens, and which
characters of a string are written as escapes. For objects whose members are strings the choices are
data here. Every text that reads as such an object is written in one of these ways.

## Main definitions

* `WrittenString`, `WrittenMember`, `WrittenObject`: strings, members and objects with all the
  choices of their writer.

## Main results

* `exists_parts_of_readParts?`: the parts of a string and how they are written.
* `exists_writtenObject`: **every text of an object of strings is a written object**.
* `WrittenObject.ofText?_text`: a written object reads as its fields.
-/

namespace Outreach.Json

/-! ### Written objects -/

/-- Blanks between two tokens, of which there may be none. -/
structure Blanks where
  chars : List Char
  isSpace : ∀ c ∈ chars, Json.isSpace c = true

/-- How a part of a string is **spelled**: as it is, behind a backslash, or in four digits. -/
inductive StringPart.IsSpelled : List Char → StringPart → Prop
  | char {c : Char} : c ≠ '"' → c ≠ '\\' → 0x20 ≤ c.toNat → IsSpelled [c] (.char c)
  | letter {e c : Char} : shortEscape? e = some c → IsSpelled ['\\', e] (.char c)
  | unit {a b c d : Char} {n : Nat} : hexUnit? a b c d = some n →
      IsSpelled ['\\', 'u', a, b, c, d] (.unit n)

/-- A part of a string as it is written: a character by itself, or an escape. -/
structure WrittenPart where
  chars : List Char
  part : StringPart
  isSpelled : part.IsSpelled chars

/-- A **string as it is written**, with its text. A text has several spellings, by escapes. -/
structure WrittenString where
  parts : List WrittenPart
  text : String
  spells : StringPart.spell? (parts.map WrittenPart.part) = some text.toList

/-- The characters between the quotes. -/
def WrittenString.inner (s : WrittenString) : List Char :=
  s.parts.flatMap WrittenPart.chars

/-- A string with its quotes. -/
def WrittenString.chars (s : WrittenString) : List Char :=
  '"' :: (s.inner ++ ['"'])

/-- A **member as it is written**: a name, a colon and a value, with blanks around them. -/
structure WrittenMember where
  front : Blanks
  name : WrittenString
  beforeColon : Blanks
  afterColon : Blanks
  value : WrittenString
  back : Blanks

/-- A member with its blanks. -/
def WrittenMember.chars (m : WrittenMember) : List Char :=
  m.front.chars ++ m.name.chars ++ m.beforeColon.chars ++
    ':' :: (m.afterColon.chars ++ m.value.chars ++ m.back.chars)

/-- The field that a member is. -/
def WrittenMember.field (m : WrittenMember) : String × String :=
  (m.name.text, m.value.text)

/-- What stands between the braces of an object: blanks alone, or members. -/
inductive WrittenMembers where
  | blank (blanks : Blanks)
  | cons (first : WrittenMember) (others : List WrittenMember)

/-- The members one by one. -/
def WrittenMembers.list : WrittenMembers → List WrittenMember
  | blank _ => []
  | cons first others => first :: others

/-- Members with commas between them. -/
def WrittenMembers.chars : WrittenMembers → List Char
  | blank blanks => blanks.chars
  | cons first others => first.chars ++ others.flatMap fun m => ',' :: m.chars

/-- An **object of strings as it is written**, with the blanks around it. -/
structure WrittenObject where
  before : Blanks
  members : WrittenMembers
  after : Blanks

/-- The characters of a written object. -/
def WrittenObject.chars (o : WrittenObject) : List Char :=
  o.before.chars ++ '\x7b' :: (o.members.chars ++ '\x7d' :: o.after.chars)

/-- The text of a written object. -/
def WrittenObject.text (o : WrittenObject) : String :=
  String.ofList o.chars

/-- The fields of a written object. -/
def WrittenObject.fields (o : WrittenObject) : List (String × String) :=
  o.members.list.map WrittenMember.field

/-- The object whose members are the fields, each with its text as a string. -/
def ofFields (fields : List (String × String)) : Json :=
  object (fields.map fun (name, text) => (some name, ofString text))

/-- Objects of strings are the same only if they were made of the same fields. -/
theorem ofFields_injective {fields fields' : List (String × String)}
    (h : ofFields fields = ofFields fields') : fields = fields' := by
  refine (List.map_inj_right ?_).mp (object.inj h)
  intro e e' he
  obtain ⟨hname, htext⟩ := Prod.mk.inj he
  exact Prod.ext (Option.some.inj hname) (Option.some.inj (string.inj htext))

/-! ### Strings -/

/-- **The parts of a string** and how they are written. -/
theorem exists_parts_of_readParts? {cs rest : List Char} {parts : List StringPart}
    (h : readParts? cs = some (parts, rest)) :
    ∃ ws : List WrittenPart, ws.map WrittenPart.part = parts ∧
      cs = ws.flatMap WrittenPart.chars ++ '"' :: rest := by
  fun_induction readParts? cs generalizing parts rest with
  | case1 => simp at h
  | case2 cs =>
      obtain ⟨rfl, rfl⟩ : [] = parts ∧ cs = rest := by simpa using h
      exact ⟨[], rfl, rfl⟩
  | case3 a b c d cs n ps r hr hunit ih =>
      obtain ⟨rfl, rfl⟩ : .unit n :: ps = parts ∧ r = rest := by simpa using h
      obtain ⟨ws, rfl, hcs⟩ := ih hr
      exact ⟨⟨_, _, .unit hunit⟩ :: ws, rfl, by simp [hcs]⟩
  | case4 => simp at h
  | case5 e cs _ c ps r hr hletter ih =>
      obtain ⟨rfl, rfl⟩ : .char c :: ps = parts ∧ r = rest := by simpa using h
      obtain ⟨ws, rfl, hcs⟩ := ih hr
      exact ⟨⟨_, _, .letter hletter⟩ :: ws, rfl, by simp [hcs]⟩
  | case6 => simp at h
  | case7 => simp at h
  | case8 c cs hquote hunit hletter hplain ih =>
      obtain ⟨⟨ps, r⟩, hr, he⟩ := Option.map_eq_some_iff.mp h
      obtain ⟨rfl, rfl⟩ : .char c :: ps = parts ∧ r = rest := by simpa using he
      obtain ⟨ws, rfl, hcs⟩ := ih hr
      simp only [Bool.or_eq_true, beq_iff_eq, decide_eq_true_eq, not_or, Nat.not_lt] at hplain
      exact ⟨⟨_, _, .char hquote hplain.1 hplain.2⟩ :: ws, rfl, by simp [hcs]⟩

/-! ### Tokens -/

/-- The character of a token that is no more than it. -/
def Token.sign? : Token → Option Char
  | beginArray => some '['
  | endArray => some ']'
  | beginObject => some '\x7b'
  | endObject => some '\x7d'
  | comma => some ','
  | colon => some ':'
  | _ => none

/-- A token that is a sign was read from that one character. -/
theorem eq_of_read?_sign {cs rest : List Char} {t : Token} {c : Char} (hsign : t.sign? = some c)
    (h : Token.read? cs = some (t, rest)) : cs = c :: rest := by
  unfold Token.read? at h
  split at h
  case h_10 =>
    obtain ⟨_, -, he⟩ := Option.map_eq_some_iff.mp h
    obtain ⟨rfl, -⟩ := Prod.mk.inj he
    simp [Token.sign?] at hsign
  case h_11 =>
    obtain ⟨_, -, he⟩ := Option.map_eq_some_iff.mp h
    obtain ⟨rfl, -⟩ := Prod.mk.inj he
    simp [Token.sign?] at hsign
  all_goals
    obtain ⟨rfl, rfl⟩ := Prod.mk.inj (Option.some.inj h)
    simp [Token.sign?] at hsign
  all_goals exact hsign ▸ rfl

/-- A string that is text is written. -/
theorem exists_writtenString {cs rest : List Char} {text : String}
    (h : Token.read? cs = some (.string (some text), rest)) :
    ∃ s : WrittenString, s.text = text ∧ cs = s.chars ++ rest := by
  unfold Token.read? at h
  split at h
  case h_10 cs =>
    obtain ⟨⟨parts, rest'⟩, hread, he⟩ := Option.map_eq_some_iff.mp h
    obtain ⟨hstring, rfl⟩ := Prod.mk.inj he
    obtain ⟨ws, rfl, rfl⟩ := exists_parts_of_readParts? hread
    obtain ⟨chars, hspell, rfl⟩ := Option.map_eq_some_iff.mp (Token.string.inj hstring)
    exact ⟨⟨ws, String.ofList chars, by rw [hspell, String.toList_ofList]⟩, rfl, by
      simp [WrittenString.chars, WrittenString.inner]⟩
  case h_11 =>
    obtain ⟨_, -, he⟩ := Option.map_eq_some_iff.mp h
    simp at he
  all_goals simp at h

/-- Tokens have blanks in front of them. -/
theorem exists_blanks_of_tokens? {cs : List Char} {t : Token} {ts : List Token}
    (h : tokens? cs = some (t :: ts)) :
    ∃ (bs : Blanks) (us rest : List Char), cs = bs.chars ++ us ∧ Token.read? us = some (t, rest) ∧
      tokens? rest = some ts := by
  induction cs with
  | nil => simp [tokens?] at h
  | cons c cs ih =>
      rw [tokens?] at h
      split at h
      · rename_i hspace
        obtain ⟨bs, us, rest, rfl, hread, hrest⟩ := ih h
        exact ⟨⟨c :: bs.chars, List.forall_mem_cons.mpr ⟨hspace, bs.isSpace⟩⟩, us, rest, rfl, hread,
          hrest⟩
      · split at h
        · simp at h
        · rename_i u rest hread
          obtain ⟨us, hrest, hts⟩ := Option.map_eq_some_iff.mp h
          obtain ⟨rfl, rfl⟩ := List.cons_eq_cons.mp hts
          exact ⟨⟨[], by simp⟩, c :: cs, rest, rfl, hread, hrest⟩

/-- What holds no tokens is blank. -/
theorem exists_blanks_of_tokens?_nil {cs : List Char} (h : tokens? cs = some []) :
    ∃ bs : Blanks, cs = bs.chars := by
  refine ⟨⟨cs, ?_⟩, rfl⟩
  induction cs with
  | nil => simp
  | cons c cs ih =>
      rw [tokens?] at h
      split at h
      · rename_i hspace
        exact List.forall_mem_cons.mpr ⟨hspace, ih h⟩
      · split at h
        · simp at h
        · simp at h

/-- A token of one character, with the blanks in front of it. -/
theorem exists_blanks_of_sign {cs : List Char} {t : Token} {c : Char} {ts : List Token}
    (hsign : t.sign? = some c) (h : tokens? cs = some (t :: ts)) :
    ∃ (bs : Blanks) (rest : List Char), cs = bs.chars ++ c :: rest ∧ tokens? rest = some ts := by
  obtain ⟨bs, us, rest, rfl, hread, hrest⟩ := exists_blanks_of_tokens? h
  exact ⟨bs, rest, by rw [eq_of_read?_sign hsign hread], hrest⟩

/-- A string that is text, with the blanks in front of it. -/
theorem exists_blanks_of_string {cs : List Char} {text : String} {ts : List Token}
    (h : tokens? cs = some (.string (some text) :: ts)) :
    ∃ (bs : Blanks) (s : WrittenString) (rest : List Char), s.text = text ∧
      cs = bs.chars ++ s.chars ++ rest ∧ tokens? rest = some ts := by
  obtain ⟨bs, us, rest, rfl, hread, hrest⟩ := exists_blanks_of_tokens? h
  obtain ⟨s, htext, rfl⟩ := exists_writtenString hread
  exact ⟨bs, s, rest, htext, by simp, hrest⟩

/-! ### Objects -/

/-- A member, up to the token of one character behind it. -/
theorem exists_writtenMember {cs : List Char} {field : String × String} {t : Token} {c : Char}
    {ts : List Token} (hsign : t.sign? = some c)
    (h : tokens? cs =
      some (.string (some field.1) :: .colon :: .string (some field.2) :: t :: ts)) :
    ∃ (m : WrittenMember) (rest : List Char), m.field = field ∧ cs = m.chars ++ c :: rest ∧
      tokens? rest = some ts := by
  obtain ⟨front, name, afterName, hname, rfl, hcolon⟩ := exists_blanks_of_string h
  obtain ⟨beforeColon, behindColon, rfl, hvalue⟩ := exists_blanks_of_sign (c := ':') rfl hcolon
  obtain ⟨afterColon, value, afterValue, htext, rfl, hend⟩ := exists_blanks_of_string hvalue
  obtain ⟨back, rest, rfl, hrest⟩ := exists_blanks_of_sign hsign hend
  refine ⟨⟨front, name, beforeColon, afterColon, value, back⟩, rest, ?_, ?_, hrest⟩
  · rw [WrittenMember.field, hname, htext]
  · simp [WrittenMember.chars]

/-- The members of an object of strings, up to the brace behind them. -/
theorem exists_writtenMembers {cs : List Char} {field : String × String}
    {fields : List (String × String)}
    (h : tokens? cs = some (.string (some field.1) :: .colon :: .string (some field.2) ::
      (memberTokens (fields.map fun (name, text) => (some name, ofString text)) ++
        [.endObject]))) :
    ∃ (first : WrittenMember) (others : List WrittenMember) (rest : List Char),
      (first :: others).map WrittenMember.field = field :: fields ∧
      cs = (WrittenMembers.cons first others).chars ++ '\x7d' :: rest ∧ tokens? rest = some [] := by
  induction fields generalizing cs field with
  | nil =>
      obtain ⟨m, rest, hfield, rfl, hrest⟩ := exists_writtenMember (c := '\x7d') rfl h
      exact ⟨m, [], rest, by simp [hfield], by simp [WrittenMembers.chars], hrest⟩
  | cons next fields ih =>
      rw [List.map_cons, memberTokens] at h
      obtain ⟨m, behindComma, hfield, rfl, hnext⟩ := exists_writtenMember (c := ',') rfl h
      obtain ⟨first, others, rest, hfields, rfl, hrest⟩ := ih hnext
      refine ⟨m, first :: others, rest, ?_, ?_, hrest⟩
      · rw [List.map_cons, hfield, hfields]
      · simp [WrittenMembers.chars]

/-- **Every text of an object of strings is a written object.** -/
theorem exists_writtenObject {text : String} {fields : List (String × String)}
    (h : ofText? text = some (ofFields fields)) :
    ∃ o : WrittenObject, o.text = text ∧ o.fields = fields := by
  rw [ofText?_eq_some_iff] at h
  rw [← String.ofList_toList (s := text)]
  cases fields with
  | nil =>
      obtain ⟨before, behindOpen, hcs, hopen⟩ := exists_blanks_of_sign (c := '\x7b') rfl h
      obtain ⟨blanks, behindClose, rfl, hclose⟩ := exists_blanks_of_sign (c := '\x7d') rfl hopen
      obtain ⟨after, rfl⟩ := exists_blanks_of_tokens?_nil hclose
      exact ⟨⟨before, .blank blanks, after⟩, congrArg String.ofList hcs.symm, rfl⟩
  | cons field fields =>
      obtain ⟨before, behindOpen, hcs, hopen⟩ := exists_blanks_of_sign (c := '\x7b') rfl h
      obtain ⟨first, others, behindClose, hfields, rfl, hclose⟩ := exists_writtenMembers hopen
      obtain ⟨after, rfl⟩ := exists_blanks_of_tokens?_nil hclose
      exact ⟨⟨before, .cons first others, after⟩, congrArg String.ofList hcs.symm, hfields⟩

/-! ### Written objects are read -/

/-- The parts of a written string are read up to its closing quote, whatever follows it. -/
theorem readParts?_written (ws : List WrittenPart) (rest : List Char) :
    readParts? (ws.flatMap WrittenPart.chars ++ '"' :: rest) =
      some (ws.map WrittenPart.part, rest) := by
  induction ws with
  | nil => rfl
  | cons w ws ih =>
      obtain ⟨chars, part, isSpelled⟩ := w
      rw [List.flatMap_cons, List.append_assoc]
      cases isSpelled with
      | char hquote hslash hcontrol =>
          rw [List.singleton_append, readParts?_cons hquote hslash (Nat.not_lt.mpr hcontrol), ih]
          rfl
      | letter hletter =>
          rw [List.cons_append, List.singleton_append, readParts?_shortEscape hletter, ih]
          rfl
      | unit hunit =>
          simp only [List.cons_append, List.nil_append]
          rw [readParts?_unit hunit, ih]
          rfl

/-- A written string reads as one token with its text. -/
theorem WrittenString.readsAs (s : WrittenString) : ReadsAs s.chars [.string (some s.text)] := by
  refine readsAs_of_read? fun rest => ?_
  have hread := readParts?_written s.parts rest
  rw [chars, List.cons_append, List.append_assoc, Token.read?, List.singleton_append, inner, hread]
  simp [s.spells]

/-- Blanks read as no token at all. -/
theorem Blanks.readsAs (bs : Blanks) : ReadsAs bs.chars [] :=
  readsAs_blanks bs.isSpace

/-- A sign reads as its own token. -/
theorem readsAs_sign {t : Token} {c : Char} (h : t.sign? = some c) : ReadsAs [c] [t] := by
  refine readsAs_of_read? fun rest => ?_
  cases t <;> simp [Token.sign?] at h <;> subst h <;> rfl

/-- A written member reads as its name, a colon and its value, whatever blanks stand between them.
-/
theorem WrittenMember.readsAs (m : WrittenMember) :
    ReadsAs m.chars (openMember (some m.name.text, ofString m.value.text)) := by
  have hcolon : ReadsAs [':'] [.colon] := readsAs_sign rfl
  have := ((m.front.readsAs.append m.name.readsAs).append m.beforeColon.readsAs).append
    (hcolon.append ((m.afterColon.readsAs.append m.value.readsAs).append m.back.readsAs))
  simpa [chars, openMember, ofString, tokens] using this

/-- Written members within braces read as the tokens of the object that they spell. -/
theorem WrittenMembers.readsAs (ms : WrittenMembers) :
    ReadsAs ('\x7b' :: (ms.chars ++ ['\x7d']))
      (ofFields (ms.list.map WrittenMember.field)).tokens := by
  have hopen : ReadsAs ['\x7b'] [.beginObject] := readsAs_sign rfl
  have hclose : ReadsAs ['\x7d'] [.endObject] := readsAs_sign rfl
  have hcomma : ReadsAs [','] [.comma] := readsAs_sign rfl
  cases ms with
  | blank blanks =>
      have := hopen.append (blanks.readsAs.append hclose)
      simpa [chars, list, ofFields, tokens] using this
  | cons first others =>
      have hothers : ReadsAs (others.flatMap fun m => ',' :: m.chars)
          (memberTokens ((others.map WrittenMember.field).map
            fun (name, text) => (some name, ofString text))) := by
        induction others with
        | nil =>
            rw [List.map_nil, List.map_nil, memberTokens]
            exact readsAs_nil
        | cons m others ih =>
            have := (hcomma.append m.readsAs).append ih
            simpa [memberTokens, openMember, WrittenMember.field] using this
      have := hopen.append ((first.readsAs.append hothers).append hclose)
      simpa [chars, list, ofFields, tokens, openMember, WrittenMember.field] using this

/-- **A written object reads as its fields.** -/
theorem WrittenObject.ofText?_text (o : WrittenObject) :
    ofText? o.text = some (ofFields o.fields) := by
  have htokens := ((o.before.readsAs.append o.members.readsAs).append o.after.readsAs) []
  rw [ofText?_eq_some_iff, text, String.toList_ofList, fields]
  simpa [chars, tokens?] using htokens

end Outreach.Json
