import Outreach.Proofs.Json.Spelling
import Outreach.Proofs.Number.Digits
import Outreach.Proofs.Yaml.Flow

/-!
# JSON Objects Read as YAML

JSON is meant to be a part of YAML. It is one up to what YAML has narrower rules for: the characters
of a text, the escapes of the 16-bit encoding, the line and the length of a name, and tabs where a
line could start a key. A written object that keeps to these rules is *portable*, and the scan finds
its members in it.

## Main definitions

* `WrittenObject.IsPortable`: what YAML asks for beyond the rules of JSON.

## Main results

* `isPiece_of_isSpelled`: both formats read a part of a string alike.
* `WrittenObject.tokens?_chars`: **a portable object as tokens of YAML**.
-/

namespace Outreach.Json

open Yaml (IsPiece quotedEntry quotedTokens flowTokens)
open Yaml.Scan (BraceYields quotedPieces)

/-! ### Portable objects -/

/-- A string is **portable** if its characters may occur within a line of a YAML text, and none of
its escapes is one half of a pair. -/
structure WrittenString.IsPortable (s : WrittenString) : Prop where
  chars : ∀ c ∈ s.inner, Yaml.isAllowed c = true ∧ Yaml.isBreak c = false
  units : ∀ w ∈ s.parts, ∀ n, w.part = .unit n → ¬ (0xD800 ≤ n ∧ n < 0xE000)

/-- A member is portable if its strings are, and if its colon stands on the line of its name and not
too far from it. -/
structure WrittenMember.IsPortable (m : WrittenMember) : Prop where
  name : m.name.IsPortable
  value : m.value.IsPortable
  line : ∀ c ∈ m.beforeColon.chars, Yaml.isBreak c = false
  short : Yaml.byteLength (m.name.chars ++ m.beforeColon.chars) ≤ Yaml.Scan.keyLimit

/-- An object is portable if its members are. No tab may stand in front of it, nor on a later line
behind it. -/
structure WrittenObject.IsPortable (o : WrittenObject) : Prop where
  members : ∀ m ∈ o.members.list, m.IsPortable
  before : '\t' ∉ o.before.chars
  after : '\t' ∉ o.after.chars.dropWhile (!Yaml.isBreak ·)

/-! ### Strings -/

/-- The character that a part stands for by itself. -/
def StringPart.alone : StringPart → Char
  | char c => c
  | unit n => Char.ofNat n

/-- A character that is read as a hexadecimal digit stands for a number below sixteen. -/
theorem lt_of_hexDigit? {d : Char} {n : Nat} (h : hexDigit? d = some n) : n < 16 := by
  unfold hexDigit? at h
  split at h
  · rename_i hd
    have := Numeral.lt_ten_of_isDigit hd
    obtain rfl := Option.some.inj h
    omega
  · split at h
    · rename_i hd
      have hlow : 97 ≤ d.toNat := hd.1
      have hhigh : d.toNat ≤ 102 := hd.2
      have hletter : 'a'.toNat = 97 := rfl
      obtain rfl := Option.some.inj h
      omega
    · split at h
      · rename_i hd
        have hlow : 65 ≤ d.toNat := hd.1
        have hhigh : d.toNat ≤ 70 := hd.2
        have hletter : 'A'.toNat = 65 := rfl
        obtain rfl := Option.some.inj h
        omega
      · simp at h

/-- A unit is written in digits that both formats read alike. -/
theorem hexNumber?_of_hexUnit? {a b c d : Char} {n : Nat} (h : hexUnit? a b c d = some n) :
    Yaml.hexNumber? 0 [a, b, c, d] = some n ∧ n < 0x10000 := by
  have hdigit : ∀ {x : Char} {v : Nat}, hexDigit? x = some v → Yaml.hexValue? x = some v := id
  simp only [hexUnit?, Option.bind_eq_bind, Option.bind_eq_some_iff, Option.pure_def,
    Option.some.injEq] at h
  obtain ⟨i, hi, j, hj, k, hk, l, hl, rfl⟩ := h
  have hi' := lt_of_hexDigit? hi
  have hj' := lt_of_hexDigit? hj
  have hk' := lt_of_hexDigit? hk
  have hl' := lt_of_hexDigit? hl
  constructor
  · simp [Yaml.hexNumber?, hdigit hi, hdigit hj, hdigit hk, hdigit hl]
    omega
  · omega

/-- Each short escape of JSON stands for the same character in YAML. -/
theorem escapedChar?_of_shortEscape? {e c : Char} (h : shortEscape? e = some c) :
    Yaml.escapedChar? e = some c := by
  unfold shortEscape? at h
  split at h <;> first | (obtain rfl := Option.some.inj h; rfl) | simp at h

/-- A part of a portable string is a piece of a YAML text between double quotes. -/
theorem isPiece_of_isSpelled {cs : List Char} {part : StringPart} (h : part.IsSpelled cs)
    (hbreak : ∀ c ∈ cs, Yaml.isBreak c = false)
    (hunit : ∀ n, part = .unit n → ¬ (0xD800 ≤ n ∧ n < 0xE000)) : IsPiece cs part.alone := by
  cases h with
  | char hquote hslash _ => exact .char (hbreak _ List.mem_cons_self) hquote hslash
  | letter hletter => exact .letter (escapedChar?_of_shortEscape? hletter)
  | @unit a b c d n hdigits =>
      obtain ⟨hnumber, hlt⟩ := hexNumber?_of_hexUnit? hdigits
      have hvalid : n.isValidChar := by
        have := hunit n rfl
        simp only [Nat.isValidChar]
        omega
      have hchar : Yaml.charOfNumber? n = some (Char.ofNat n) := by
        rw [Yaml.charOfNumber?, Char.ofNat, dif_pos hvalid, dif_pos hvalid]
      have hcount : Yaml.escapeDigits? 'u' = some [a, b, c, d].length := rfl
      exact .digits rfl hcount hnumber hchar

/-- Parts that are no halves of pairs spell their characters one by one. -/
theorem spell?_eq_map (parts : List StringPart)
    (h : ∀ p ∈ parts, ∀ n, p = .unit n → ¬ (0xD800 ≤ n ∧ n < 0xE000)) :
    StringPart.spell? parts = some (parts.map StringPart.alone) := by
  induction parts with
  | nil => rfl
  | cons p parts ih =>
      have hparts := ih fun q hq => h q (List.mem_cons_of_mem p hq)
      cases p with
      | char c => simp [StringPart.spell?, hparts, StringPart.alone]
      | unit n => simp [spell?_unit (h _ List.mem_cons_self n rfl), hparts, StringPart.alone]

/-- The pieces of a string. -/
def WrittenString.pieces (s : WrittenString) : List (List Char × Char) :=
  s.parts.map fun w => (w.chars, w.part.alone)

/-- The pieces of a written string, put in quotes, are the string as it is written. -/
theorem WrittenString.quotedPieces_pieces (s : WrittenString) :
    quotedPieces s.pieces = s.chars := by
  simp [quotedPieces, pieces, chars, inner, List.flatMap_map]

variable {s : WrittenString}

/-- Each piece of a portable string is one that a double-quoted scalar can consist of. -/
theorem WrittenString.IsPortable.isPiece (h : s.IsPortable) : ∀ w ∈ s.pieces, IsPiece w.1 w.2 := by
  intro w hw
  obtain ⟨w, hmem, rfl⟩ := List.mem_map.mp hw
  exact isPiece_of_isSpelled w.isSpelled
    (fun c hc => (h.chars c (List.mem_flatMap.mpr ⟨w, hmem, hc⟩)).2) (h.units w hmem)

/-- A portable string is spelled by its pieces. -/
theorem WrittenString.IsPortable.map_pieces (h : s.IsPortable) :
    s.pieces.map Prod.snd = s.text.toList := by
  have hspell := spell?_eq_map (s.parts.map WrittenPart.part) fun p hp n hn => by
    obtain ⟨w, hw, rfl⟩ := List.mem_map.mp hp
    exact h.units w hw n hn
  rw [s.spells] at hspell
  rw [Option.some.inj hspell, WrittenString.pieces, List.map_map, List.map_map]
  rfl

/-! ### Tokens -/

/-- Blanks of JSON are spacing between the tokens of YAML. -/
theorem Blanks.isSpacing (bs : Blanks) : ∀ c ∈ bs.chars, Yaml.isSpacing c = true := by
  intro c hc
  have hspace := bs.isSpace c hc
  simp only [Json.isSpace, Bool.or_eq_true, beq_iff_eq] at hspace
  rcases hspace with ((rfl | rfl) | rfl) | rfl <;> rfl

/-- The texts of a member. -/
def WrittenMember.entry (m : WrittenMember) : List Char × List Char :=
  (m.name.text.toList, m.value.text.toList)

variable {tokens ts : List Yaml.Token} {rest : List Char}

/-- **A portable member**, up to what stands behind it. -/
theorem WrittenMember.IsPortable.yields {m : WrittenMember} (hm : m.IsPortable)
    (hrest : rest.head? ≠ some '\n')
    (h : BraceYields ((quotedTokens m.entry).reverse ++ tokens) false rest ts) :
    BraceYields tokens true (m.chars ++ rest) ts := by
  have hblank : ∀ c ∈ m.beforeColon.chars, Yaml.isBlank c = true := fun c hc => by
    simpa [Yaml.isSpacing, hm.line c hc] using m.beforeColon.isSpacing c hc
  have hback := h.spacing m.back.isSpacing hrest
  have hvalue : BraceYields (.value :: .scalar .doubleQuoted m.name.text.toList :: .key :: tokens)
      false (m.value.chars ++ (m.back.chars ++ rest)) ts := by
    rw [← m.value.quotedPieces_pieces]
    refine BraceYields.value hm.value.isPiece ?_
    rw [hm.value.map_pieces]
    exact hback
  have hafter := hvalue.spacing m.afterColon.isSpacing (by simp [WrittenString.chars])
  have hname : BraceYields tokens true (m.name.chars ++ (m.beforeColon.chars ++
      ':' :: (m.afterColon.chars ++ (m.value.chars ++ (m.back.chars ++ rest))))) ts := by
    rw [← m.name.quotedPieces_pieces]
    refine BraceYields.key hm.name.isPiece hblank ?_ ?_
    · rw [m.name.quotedPieces_pieces]
      exact hm.short
    · rw [hm.name.map_pieces]
      exact hafter
  have hfront := hname.spacing m.front.isSpacing (by simp [WrittenString.chars])
  simpa [WrittenMember.chars] using hfront

/-- The further members, up to the end of the text. -/
theorem yields_others {others : List WrittenMember} (h : ∀ m ∈ others, m.IsPortable) {bs : Blanks}
    (htab : '\t' ∉ bs.chars.dropWhile (!Yaml.isBreak ·)) (tokens : List Yaml.Token) :
    BraceYields tokens false ((others.flatMap fun m => ',' :: m.chars) ++ '\x7d' :: bs.chars)
      (tokens.reverse ++ ((others.map WrittenMember.entry).flatMap fun e =>
        .flowEntry :: quotedTokens e) ++ [.flowMappingEnd]) := by
  induction others generalizing tokens with
  | nil => simpa using BraceYields.end bs.isSpacing htab tokens false
  | cons m others ih =>
      have hrest := ih (fun n hn => h n (List.mem_cons_of_mem m hn))
        ((quotedTokens m.entry).reverse ++ .flowEntry :: tokens)
      have hhead : ((others.flatMap fun m => ',' :: m.chars) ++ '\x7d' :: bs.chars).head? ≠
          some '\n' := by
        cases others <;> simp
      have := BraceYields.comma ((h m List.mem_cons_self).yields hhead hrest) false
      simpa using this

/-- The members of an object, up to the end of the text. -/
theorem WrittenMembers.yields {ms : WrittenMembers} (h : ∀ m ∈ ms.list, m.IsPortable) {bs : Blanks}
    (htab : '\t' ∉ bs.chars.dropWhile (!Yaml.isBreak ·)) :
    BraceYields [.flowMappingStart] true (ms.chars ++ '\x7d' :: bs.chars)
      (.flowMappingStart :: (flowTokens (ms.list.map WrittenMember.entry) ++
        [.flowMappingEnd])) := by
  cases ms with
  | blank blanks =>
      have := (BraceYields.end bs.isSpacing htab [.flowMappingStart] true).spacing blanks.isSpacing
        (by simp)
      simpa [chars, list, flowTokens] using this
  | cons first others =>
      have hothers := yields_others (fun m hm => h m (List.mem_cons_of_mem first hm)) htab
        ((quotedTokens first.entry).reverse ++ [.flowMappingStart])
      have hhead : ((others.flatMap fun m => ',' :: m.chars) ++ '\x7d' :: bs.chars).head? ≠
          some '\n' := by
        cases others <;> simp
      have := (h first List.mem_cons_self).yields hhead hothers
      simpa [chars, list, flowTokens] using this

/-! ### Characters -/

/-- Blanks of JSON are allowed characters of YAML. -/
theorem Blanks.isAllowed (bs : Blanks) : ∀ c ∈ bs.chars, Yaml.isAllowed c = true := by
  intro c hc
  have hspace := bs.isSpace c hc
  simp only [Json.isSpace, Bool.or_eq_true, beq_iff_eq] at hspace
  rcases hspace with ((rfl | rfl) | rfl) | rfl <;> rfl

/-- A portable string is written in allowed characters, its quotes included. -/
theorem WrittenString.IsPortable.isAllowed (h : s.IsPortable) :
    ∀ c ∈ s.chars, Yaml.isAllowed c = true := by
  have hquote : Yaml.isAllowed '"' = true := by decide
  simp only [WrittenString.chars, List.forall_mem_cons, List.forall_mem_append, hquote, true_and]
  exact ⟨fun c hc => (h.chars c hc).1, by simp⟩

/-- A member whose strings are portable is written in allowed characters. -/
theorem WrittenMember.IsPortable.isAllowed {m : WrittenMember} (h : m.IsPortable) :
    ∀ c ∈ m.chars, Yaml.isAllowed c = true := by
  have hcolon : Yaml.isAllowed ':' = true := by decide
  simp only [WrittenMember.chars, List.forall_mem_cons, List.forall_mem_append, hcolon, true_and]
  exact ⟨⟨⟨m.front.isAllowed, h.name.isAllowed⟩, m.beforeColon.isAllowed⟩,
    ⟨m.afterColon.isAllowed, h.value.isAllowed⟩, m.back.isAllowed⟩

/-- Members whose strings are portable are written in allowed characters, with the commas between
them. -/
theorem WrittenMembers.isAllowed {ms : WrittenMembers} (h : ∀ m ∈ ms.list, m.IsPortable) :
    ∀ c ∈ ms.chars, Yaml.isAllowed c = true := by
  have hcomma : Yaml.isAllowed ',' = true := by decide
  cases ms with
  | blank blanks => exact blanks.isAllowed
  | cons first others =>
      intro c hc
      rcases List.mem_append.mp hc with hc | hc
      · exact (h first List.mem_cons_self).isAllowed c hc
      · obtain ⟨m, hm, hc⟩ := List.mem_flatMap.mp hc
        rcases List.mem_cons.mp hc with rfl | hc
        · exact hcomma
        · exact (h m (List.mem_cons_of_mem first hm)).isAllowed c hc

/-! ### Objects -/

variable {o : WrittenObject}

/-- A portable object is written in allowed characters, so the YAML reader accepts each of them. -/
theorem WrittenObject.IsPortable.isAllowed (h : o.IsPortable) :
    ∀ c ∈ o.chars, Yaml.isAllowed c = true := by
  have hbraces : Yaml.isAllowed '\x7b' = true ∧ Yaml.isAllowed '\x7d' = true := by decide
  simp only [WrittenObject.chars, List.forall_mem_cons, List.forall_mem_append, hbraces, true_and]
  exact ⟨o.before.isAllowed, WrittenMembers.isAllowed h.members, o.after.isAllowed⟩

/-- **A portable object as tokens of YAML.** -/
theorem WrittenObject.tokens?_chars (h : o.IsPortable) :
    Yaml.tokens? o.chars = some (.flowMappingStart ::
      (flowTokens (o.members.list.map WrittenMember.entry) ++ [.flowMappingEnd])) := by
  have hmarks : Yaml.marks? o.chars = some ((⟨0, 0, 0⟩ : Yaml.Place).marks o.chars) := by
    rw [Yaml.marks?, if_pos (List.all_eq_true.mpr h.isAllowed)]
    rfl
  rw [Yaml.tokens?, hmarks]
  exact Yaml.Scan.yields_start o.before.isSpacing h.before
    (WrittenMembers.yields h.members h.after) ⟨0, 0, 0⟩ _ (Nat.lt_succ_self _)

end Outreach.Json
