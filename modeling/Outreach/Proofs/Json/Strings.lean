import Outreach.Json.Token
import Outreach.Json.Writer

/-!
# Strings Read Back

A string is written character by character: as it is, behind a backslash, or as a unit of four
hexadecimal digits. Reading gives a part for each character written, and the parts spell the
string again, whatever characters it holds.

## Main results

* `hexUnit?_hexChar`: the two digits of a control character read back.
* `exists_part_writeChar`: a written character reads as one part that stands for it.
* `read?_writeString`: a written string is one token, whatever follows.
-/

namespace Outreach.Json

/-! ### Characters -/

/-- The character written for a hexadecimal digit is read back as that digit. -/
theorem hexDigit?_hexChar {n : Nat} (h : n < 16) : hexDigit? (hexChar n) = some n := by
  have hall : ∀ k : Fin 16, hexDigit? (hexChar k.val) = some k.val := by decide
  exact hall ⟨n, h⟩

/-- The digits of a number below 256 read back. -/
theorem hexUnit?_hexChar {n : Nat} (h : n < 256) :
    hexUnit? '0' '0' (hexChar (n / 16)) (hexChar (n % 16)) = some n := by
  have hzero : hexDigit? '0' = some 0 := rfl
  simp only [hexUnit?, hzero, hexDigit?_hexChar (show n / 16 < 16 by omega),
    hexDigit?_hexChar (show n % 16 < 16 by omega)]
  simp only [bind, Option.bind, pure, Option.some.injEq]
  omega

/-- A part **stands for** a character: it is the character, or the unit of one that is no half of a
pair. -/
def StringPart.StandsFor (c : Char) (p : StringPart) : Prop :=
  p = .char c ∨ (p = .unit c.toNat ∧ c.toNat < 0xD800)

/-- A character that is written as it is. -/
theorem readParts?_cons {c : Char} {rest : List Char} (hquote : c ≠ '"') (hslash : c ≠ '\\')
    (hcontrol : ¬ c.toNat < 0x20) :
    readParts? (c :: rest) =
      (readParts? rest).map fun (parts, rest) => (.char c :: parts, rest) := by
  rw [readParts?]
  · simp [hslash, hcontrol]
  all_goals simp_all

/-- A character that is written as a letter behind a backslash. -/
theorem readParts?_shortEscape {e c : Char} {rest : List Char} (h : shortEscape? e = some c) :
    readParts? ('\\' :: e :: rest) =
      (readParts? rest).map fun (parts, rest) => (.char c :: parts, rest) := by
  have hu : e ≠ 'u' := by
    rintro rfl
    simp [shortEscape?] at h
  rw [readParts?]
  · rw [h]
    rcases readParts? rest with - | ⟨parts, rest⟩ <;> rfl
  all_goals simp_all

/-- A character that is written as a unit. -/
theorem readParts?_unit {a b c d : Char} {n : Nat} {rest : List Char}
    (h : hexUnit? a b c d = some n) :
    readParts? ('\\' :: 'u' :: a :: b :: c :: d :: rest) =
      (readParts? rest).map fun (parts, rest) => (.unit n :: parts, rest) := by
  rw [readParts?, h]
  rcases readParts? rest with - | ⟨parts, rest⟩ <;> rfl

/-- A letter behind a backslash reads as one part that stands for a character. -/
theorem exists_part_shortEscape {e c : Char} (h : shortEscape? e = some c) :
    ∃ p : StringPart, p.StandsFor c ∧ ∀ rest,
      readParts? (['\\', e] ++ rest) =
        (readParts? rest).map fun (parts, rest) => (p :: parts, rest) :=
  ⟨.char c, .inl rfl, fun _ => readParts?_shortEscape h⟩

/-- A written character reads as one part that stands for it. -/
theorem exists_part_writeChar (c : Char) :
    ∃ p : StringPart, p.StandsFor c ∧ ∀ rest,
      readParts? (writeChar c ++ rest) =
        (readParts? rest).map fun (parts, rest) => (p :: parts, rest) := by
  fun_cases writeChar c with
  | case1 => exact exists_part_shortEscape rfl
  | case2 => exact exists_part_shortEscape rfl
  | case3 => exact exists_part_shortEscape rfl
  | case4 => exact exists_part_shortEscape rfl
  | case5 => exact exists_part_shortEscape rfl
  | case6 => exact exists_part_shortEscape rfl
  | case7 => exact exists_part_shortEscape rfl
  | case8 =>
      refine ⟨.unit c.toNat, .inr ⟨rfl, by omega⟩, fun rest => ?_⟩
      exact readParts?_unit (hexUnit?_hexChar (by omega))
  | case9 =>
      rename_i hquote hslash _ _ _ _ _ hcontrol
      exact ⟨.char c, .inl rfl, fun rest => readParts?_cons hquote hslash hcontrol⟩

/-! ### Strings -/

/-- A unit that is no half of a pair spells its own character. -/
theorem spell?_unit {n : Nat} (h : ¬ (0xD800 ≤ n ∧ n < 0xE000)) (parts : List StringPart) :
    StringPart.spell? (.unit n :: parts) =
      (StringPart.spell? parts).map (Char.ofNat n :: ·) := by
  have hpair : (0xD800 ≤ n && n < 0xE000) = false := by simpa using h
  match parts with
  | [] => simp [StringPart.spell?, hpair]
  | .char c :: parts => simp [StringPart.spell?, hpair]
  | .unit m :: parts => simp [StringPart.spell?, hpair]

/-- A part that stands for a character spells it. -/
theorem StringPart.StandsFor.spell? {c : Char} {p : StringPart} (h : p.StandsFor c)
    (parts : List StringPart) :
    StringPart.spell? (p :: parts) = (StringPart.spell? parts).map (c :: ·) := by
  rcases h with rfl | ⟨rfl, hc⟩
  · rfl
  · rw [spell?_unit (by omega), Char.ofNat_toNat]

/-- The parts of a written string spell the string. -/
theorem exists_parts_flatMap_writeChar (cs rest : List Char) :
    ∃ parts, readParts? (cs.flatMap writeChar ++ '"' :: rest) = some (parts, rest) ∧
      StringPart.spell? parts = some cs := by
  induction cs with
  | nil => exact ⟨[], rfl, rfl⟩
  | cons c cs ih =>
      obtain ⟨parts, hread, hspell⟩ := ih
      obtain ⟨p, hp, hwrite⟩ := exists_part_writeChar c
      refine ⟨p :: parts, ?_, ?_⟩
      · rw [List.flatMap_cons, List.append_assoc, hwrite, hread]
        rfl
      · rw [hp.spell?, hspell]
        rfl

/-- A written string is one token, whatever follows. -/
theorem read?_writeString (s : String) (rest : List Char) :
    Token.read? (writeString (some s) ++ rest) = some (.string (some s), rest) := by
  obtain ⟨parts, hread, hspell⟩ := exists_parts_flatMap_writeChar s.toList rest
  have hwrite : writeString (some s) ++ rest =
      '"' :: (s.toList.flatMap writeChar ++ '"' :: rest) := by
    change '"' :: s.toList.flatMap writeChar ++ ['"'] ++ rest = _
    simp
  rw [hwrite, Token.read?, hread]
  simp [hspell]

end Outreach.Json
