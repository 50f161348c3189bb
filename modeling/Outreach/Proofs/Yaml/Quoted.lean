import Mathlib.Algebra.Group.Nat.Defs
import Outreach.Proofs.Yaml.Places
import Outreach.Yaml.Scalar.Writer

/-!
# Text Between Double Quotes

Between double quotes a text is written piece by piece, each a character or an escape. As long as
no piece is a line break, blanks stay where they are, and reading the pieces gives back their
characters. Every character is written as such a piece.

## Main results

* `readQuoted_digits`: the digits of an escape.
* `readQuoted_pieces`: **text between double quotes reads back** from its pieces.
* `readQuoted_writeDouble`: so does every text as it is written.
-/

namespace Outreach.Yaml

/-- The letter of an escape is an allowed character and no line break, so an escape stays on its
line. -/
theorem inline_of_escapedChar {a c : Char} (h : escapedChar? a = some c) :
    isBreak a = false ∧ isAllowed a = true := by
  unfold escapedChar? at h
  split at h <;> first | exact ⟨rfl, rfl⟩ | simp at h

/-- The letter that announces hexadecimal digits is an allowed character and no line break. -/
theorem inline_of_escapeDigits {a : Char} {n : Nat} (h : escapeDigits? a = some n) :
    isBreak a = false ∧ isAllowed a = true := by
  unfold escapeDigits? at h
  split at h <;> first | exact ⟨rfl, rfl⟩ | simp at h

/-- A hexadecimal digit is a character within a line. -/
theorem inline_of_hexValue {d : Char} {n : Nat} (h : hexValue? d = some n) :
    isBreak d = false ∧ isAllowed d = true := by
  have hrange : 48 ≤ d.toNat ∧ d.toNat ≤ 102 := by
    unfold hexValue? at h
    split at h
    · rename_i hd
      simp only [Char.isDigit, Bool.and_eq_true, decide_eq_true_eq] at hd
      have hlow : 48 ≤ d.toNat := UInt32.le_iff_toNat_le.mp hd.1
      have hhigh : d.toNat ≤ 57 := UInt32.le_iff_toNat_le.mp hd.2
      omega
    · split at h
      · rename_i hd
        have hlow : 97 ≤ d.toNat := hd.1
        have hhigh : d.toNat ≤ 102 := hd.2
        omega
      · split at h
        · rename_i hd
          have hlow : 65 ≤ d.toNat := hd.1
          have hhigh : d.toNat ≤ 70 := hd.2
          omega
        · simp at h
  constructor
  · simp only [isBreak, Bool.or_eq_false_iff, beq_eq_false_iff_ne]
    omega
  · simp only [isAllowed, Bool.or_eq_true, Bool.and_eq_true, beq_iff_eq, decide_eq_true_eq]
    omega

/-! ### Steps of the reader -/

section Steps

variable {q : Quote} {g : Gap} {p : Place} {c : Char} {rest : List Char}

/-- No bound of a document stands where the reader is: it is within a line, or in front of a
character that bounds none. -/
def Inside (p : Place) (c : Char) : Prop :=
  0 < p.column ∨ (c ≠ '-' ∧ c ≠ '.')

/-- A character inside a document does not stand where a mark of the document's bounds could
begin. -/
theorem Inside.atDocumentBound (h : Inside p c) (s : Source) :
    atDocumentBound (p.mark c :: s) = false :=
  h.elim (fun h => atDocumentBound_of_column h s) fun h => atDocumentBound_of_char h.1 h.2 s

/-- A blank inside quotes is held back with the gap, since it counts only if more text follows on
the line. -/
theorem readQuoted_blank (hblank : isBlank c = true) :
    readQuoted q (.text g) (p.marks (c :: rest)) =
      readQuoted q (.text (g.addBlank c)) ((p.behind c).marks rest) := by
  have hinside : Inside p c := .inr (by
    simp only [isBlank, Bool.or_eq_true, beq_iff_eq] at hblank
    rcases hblank with rfl | rfl <;> decide)
  rw [Place.marks_cons (isKept_of_isBreak (isBreak_of_isBlank hblank)), readQuoted.eq_def]
  simp [hinside.atDocumentBound, hblank]

/-- A line break inside quotes is held back with the gap, to be folded once the next text comes. -/
theorem readQuoted_break (hbreak : isBreak c = true) (hkept : IsKept c) :
    readQuoted q (.text g) (p.marks (c :: rest)) =
      readQuoted q (.text (g.addBreak c)) ((p.behind c).marks rest) := by
  have hblank : isBlank c = false := by
    rw [Bool.eq_false_iff]
    intro hblank
    rw [isBreak_of_isBlank hblank] at hbreak
    exact absurd hbreak (by decide)
  have hinside : Inside p c := .inr (by
    rcases isBreak_iff.mp hbreak with rfl | rfl | rfl | rfl | rfl <;> decide)
  rw [Place.marks_cons hkept, readQuoted.eq_def]
  simp [hinside.atDocumentBound, hblank, hbreak]

/-- Any other character puts down the gap that was held back, then itself. -/
theorem readQuoted_char (hinside : Inside p c) (hblank : isBlank c = false)
    (hbreak : isBreak c = false) (hquote : c ≠ q.char) (hescape : q = .double → c ≠ '\\') :
    readQuoted q (.text g) (p.marks (c :: rest)) =
      putBefore (g.text ++ [c]) (readQuoted q (.text .none) ((p.behind c).marks rest)) := by
  have hescape' : ¬ (decide (q = .double) && c == '\\') = true := by simpa using hescape
  rw [Place.marks_cons (isKept_of_isBreak hbreak), readQuoted.eq_def]
  simp [hinside.atDocumentBound, hblank, hbreak, hquote, hescape']

/-- The quote that ends a text between double quotes. -/
theorem readQuoted_double_close :
    readQuoted .double (.text g) (p.marks ('"' :: rest)) =
      some (g.text, (p.behind '"').marks rest) := by
  have hinside : Inside p '"' := .inr (by decide)
  rw [Place.marks_cons (by decide), readQuoted.eq_def]
  simp [hinside.atDocumentBound, isBlank, isBreak, Quote.char]

/-- The quote that ends a text between single quotes; no other one follows it. -/
theorem readQuoted_single_close (hrest : rest.head? ≠ some '\'') :
    readQuoted .single (.text g) (p.marks ('\'' :: rest)) =
      some (g.text, (p.behind '\'').marks rest) := by
  have hinside : Inside p '\'' := .inr (by decide)
  rw [Place.marks_cons (by decide), readQuoted.eq_def]
  rcases rest with - | ⟨c, rest⟩
  · simp [hinside.atDocumentBound, isBlank, isBreak, Quote.char]
  · obtain ⟨s, hs⟩ := Place.exists_marks_cons (p.behind '\'') c rest
    have hc : unifyBreak c ≠ '\'' := by
      unfold unifyBreak
      split
      · decide
      · simpa using hrest
    rw [hs]
    simp [hinside.atDocumentBound, isBlank, isBreak, Quote.char, hc]

/-- A quote between single quotes is written twice. -/
theorem readQuoted_single_quote :
    readQuoted .single (.text g) (p.marks ('\'' :: '\'' :: rest)) =
      putBefore (g.text ++ ['\'']) (readQuoted .single (.text .none)
        ((p.after ['\'', '\'']).marks rest)) := by
  have hinside : Inside p '\'' := .inr (by decide)
  rw [Place.marks_cons (by decide), Place.marks_cons (by decide), readQuoted.eq_def]
  simp [hinside.atDocumentBound, isBlank, isBreak, Quote.char]

/-- A backslash with an escape letter is read as the character that the letter stands for. -/
theorem readQuoted_letter {a : Char} (ha : escapedChar? a = some c) :
    readQuoted .double (.text g) (p.marks ('\\' :: a :: rest)) =
      putBefore (g.text ++ [c])
        (readQuoted .double (.text .none) ((p.after ['\\', a]).marks rest)) := by
  have hinside : Inside p '\\' := .inr (by decide)
  have hbreak := (inline_of_escapedChar ha).1
  rw [Place.marks_cons (by decide), Place.marks_cons (isKept_of_isBreak hbreak), readQuoted.eq_def]
  simp [hinside.atDocumentBound, isBlank, isBreak_backslash, hbreak, Quote.char, ha]

/-- A backslash with a letter that announces digits puts down the gap and goes on to read the
digits. -/
theorem readQuoted_digitsMark {a : Char} {count : Nat} (ha : escapedChar? a = none)
    (hcount : escapeDigits? a = some count) :
    readQuoted .double (.text g) (p.marks ('\\' :: a :: rest)) =
      putBefore g.text
        (readQuoted .double (.digits count 0) ((p.after ['\\', a]).marks rest)) := by
  have hinside : Inside p '\\' := .inr (by decide)
  have hbreak := (inline_of_escapeDigits hcount).1
  rw [Place.marks_cons (by decide), Place.marks_cons (isKept_of_isBreak hbreak), readQuoted.eq_def]
  simp [hinside.atDocumentBound, isBlank, isBreak_backslash, hbreak, Quote.char, ha, hcount]

end Steps

/-! ### Between double quotes -/

/-- The number that hexadecimal digits behind others spell. -/
def hexNumber? (n : Nat) (ds : List Char) : Option Nat :=
  ds.foldlM (fun n d => (hexValue? d).map (n * 16 + ·)) n

/-- **The digits of an escape** give the character with their number. -/
theorem readQuoted_digits (q : Quote) {ds : List Char} {n v : Nat} {c : Char} (hne : ds ≠ [])
    (hnumber : hexNumber? v ds = some n) (hchar : charOfNumber? n = some c) (p : Place)
    (rest : List Char) :
    readQuoted q (.digits ds.length v) (p.marks (ds ++ rest)) =
      putBefore [c] (readQuoted q (.text .none) ((p.after ds).marks rest)) := by
  induction ds generalizing p v with
  | nil => exact absurd rfl hne
  | cons d ds ih =>
      obtain ⟨u, hd, hds⟩ : ∃ u, hexValue? d = some u ∧ hexNumber? (v * 16 + u) ds = some n := by
        rw [hexNumber?, List.foldlM_cons] at hnumber
        obtain ⟨w, hw, hds⟩ := Option.bind_eq_some_iff.mp hnumber
        obtain ⟨u, hd, rfl⟩ := Option.map_eq_some_iff.mp hw
        exact ⟨u, hd, hds⟩
      rw [List.cons_append, Place.marks_cons (isKept_of_isBreak ((inline_of_hexValue hd).1)),
        readQuoted]
      simp only [Place.mark, hd]
      rcases ds with - | ⟨e, ds⟩
      · obtain rfl : v * 16 + u = n := by simpa [hexNumber?] using hds
        simp [hchar]
      · simpa using ih (List.cons_ne_nil e ds) hds (p.behind d)

/-- A **piece** of a text between double quotes, and the character that it stands for. -/
inductive IsPiece : List Char → Char → Prop
  | char {c : Char} : isBreak c = false → c ≠ '"' → c ≠ '\\' → IsPiece [c] c
  | letter {a c : Char} : escapedChar? a = some c → IsPiece ['\\', a] c
  | digits {a c : Char} {ds : List Char} {n : Nat} : escapedChar? a = none →
      escapeDigits? a = some ds.length → hexNumber? 0 ds = some n → charOfNumber? n = some c →
      IsPiece ('\\' :: a :: ds) c

/-- A letter that announces hexadecimal digits announces at least one. -/
theorem escapeDigits_pos {a : Char} {n : Nat} (h : escapeDigits? a = some n) : 0 < n := by
  unfold escapeDigits? at h
  split at h
  · obtain rfl := Option.some.inj h; decide
  · obtain rfl := Option.some.inj h; decide
  · obtain rfl := Option.some.inj h; decide
  · simp at h

/-- Each digit of a number in hexadecimal is an allowed character and no line break. -/
theorem inline_of_mem_hexDigits {ds : List Char} {v n : Nat} (h : hexNumber? v ds = some n) :
    ∀ d ∈ ds, isBreak d = false ∧ isAllowed d = true := by
  induction ds generalizing v with
  | nil => simp
  | cons d ds ih =>
      rw [hexNumber?, List.foldlM_cons] at h
      obtain ⟨w, hw, hds⟩ := Option.bind_eq_some_iff.mp h
      obtain ⟨u, hd, rfl⟩ := Option.map_eq_some_iff.mp hw
      intro e he
      rcases List.mem_cons.mp he with rfl | he
      · exact inline_of_hexValue hd
      · exact ih hds e he

/-- A piece holds no break. -/
theorem IsPiece.isBreak_eq {w : List Char} {c : Char} (h : IsPiece w c) :
    ∀ d ∈ w, isBreak d = false := by
  cases h with
  | char hbreak => simpa using hbreak
  | letter ha => simpa [isBreak_backslash] using (inline_of_escapedChar ha).1
  | digits ha hcount hnumber hchar =>
      simpa [isBreak_backslash] using
        ⟨(inline_of_escapeDigits hcount).1, fun d hd => (inline_of_mem_hexDigits hnumber d hd).1⟩

/-- A blank added to a gap without line breaks is put at the end of the text that the gap stands
for. -/
theorem hasBreak_addBlank {g : Gap} (h : g.hasBreak = false) (c : Char) :
    (g.addBlank c).hasBreak = false ∧ (g.addBlank c).text = g.text ++ [c] := by
  cases g <;> simp_all [Gap.hasBreak, Gap.addBlank, Gap.text]

/-- Text between double quotes reads back from its pieces: one more piece. -/
theorem readQuoted_piece {w : List Char} {c : Char} (h : IsPiece w c) {g : Gap}
    (hg : g.hasBreak = false) {p : Place} (hp : 0 < p.column) {rest read : List Char} {s : Source}
    (hrest : ∀ g : Gap, g.hasBreak = false →
      readQuoted .double (.text g) ((p.after w).marks rest) = some (g.text ++ read, s)) :
    readQuoted .double (.text g) (p.marks (w ++ rest)) = some (g.text ++ c :: read, s) := by
  have hnone : readQuoted .double (.text .none) ((p.after w).marks rest) = some (read, s) :=
    hrest .none rfl
  cases h with
  | char hbreak hquote hmark =>
      by_cases hblank : isBlank c = true
      · obtain ⟨hg', htext⟩ := hasBreak_addBlank hg c
        rw [List.singleton_append, readQuoted_blank hblank]
        simpa [htext] using hrest (g.addBlank c) hg'
      · rw [Bool.not_eq_true] at hblank
        have hbehind : readQuoted .double (.text .none) ((p.behind c).marks rest) =
            some (read, s) := hnone
        rw [List.singleton_append, readQuoted_char (q := .double) (.inl hp) hblank hbreak hquote
          fun _ => hmark, hbehind]
        simp [putBefore]
  | letter ha =>
      rw [List.cons_append, List.singleton_append, readQuoted_letter ha, hnone]
      simp [putBefore]
  | @digits a _ ds n ha hcount hnumber hchar =>
      have hne : ds ≠ [] := List.ne_nil_of_length_pos (escapeDigits_pos hcount)
      have hplace : (p.after ['\\', a]).after ds = p.after ('\\' :: a :: ds) := by simp
      rw [List.cons_append, List.cons_append, readQuoted_digitsMark ha hcount,
        readQuoted_digits .double hne hnumber hchar, hplace, hnone]
      simp [putBefore]

/-- **Text between double quotes reads back** from its pieces. -/
theorem readQuoted_pieces {ws : List (List Char × Char)} (h : ∀ w ∈ ws, IsPiece w.1 w.2) {g : Gap}
    (hg : g.hasBreak = false) {p : Place} (hp : 0 < p.column) (rest : List Char) :
    readQuoted .double (.text g) (p.marks (ws.flatMap Prod.fst ++ '"' :: rest)) =
      some (g.text ++ ws.map Prod.snd,
        ((p.after (ws.flatMap Prod.fst)).behind '"').marks rest) := by
  induction ws generalizing p g with
  | nil => simp [readQuoted_double_close]
  | cons w ws ih =>
      have hw : IsPiece w.1 w.2 := h w List.mem_cons_self
      have hcolumn : 0 < (p.after w.1).column := by
        rw [Place.after_of_isBreak hw.isBreak_eq]
        exact Nat.lt_of_lt_of_le hp (Nat.le_add_right _ _)
      rw [List.flatMap_cons, List.append_assoc, Place.after_append, List.map_cons]
      exact readQuoted_piece hw hg hp fun g hg =>
        ih (fun v hv => h v (List.mem_cons_of_mem w hv)) hg hcolumn

/-! ### Escapes that are written -/

/-- A character that is printable is kept by the reader as it is. -/
theorem isKept_of_isPrintable {c : Char} (h : isPrintable c = true) : IsKept c := by
  constructor
  · rintro rfl
    exact absurd h (by decide)
  · rintro rfl
    exact absurd h (by decide)

/-- A character that is printable is allowed in a document. -/
theorem isAllowed_of_isPrintable {c : Char} (h : isPrintable c = true) : isAllowed c = true := by
  simp only [isPrintable, isAllowed, Bool.or_eq_true, Bool.and_eq_true, beq_iff_eq, decide_eq_true_eq,
    bne_iff_ne] at h ⊢
  omega

/-- The number of two rows of digits is the number of the second, begun with that of the first. -/
theorem hexNumber?_append (v : Nat) (ds es : List Char) :
    hexNumber? v (ds ++ es) = (hexNumber? v ds).bind (hexNumber? · es) :=
  List.foldlM_append

/-- Any count of zeros stands for zero, so that a number may be filled up with zeros in front. -/
theorem hexNumber?_zeros (count : Nat) : hexNumber? 0 (List.replicate count '0') = some 0 := by
  induction count with
  | zero => rfl
  | succ count ih => exact ih

/-- The digit written for a number below sixteen is read back as that number. -/
theorem hexValue?_digitChar {n : Nat} (h : n < 16) :
    hexValue? n.digitChar.toUpper = some n := by
  have hall : ∀ k : Fin 16, hexValue? k.val.digitChar.toUpper = some k.val := by decide
  exact hall ⟨n, h⟩

/-- The hexadecimal digits of a number spell it. -/
theorem hexNumber?_toDigits (n : Nat) :
    hexNumber? 0 ((Nat.toDigits 16 n).map Char.toUpper) = some n := by
  induction n using Nat.strongRecOn with
  | ind n ih =>
      have hlast : hexValue? (n % 16).digitChar.toUpper = some (n % 16) :=
        hexValue?_digitChar (Nat.mod_lt n (by decide))
      by_cases hn : n < 16
      · rw [Nat.toDigits_of_lt_base hn]
        rw [Nat.mod_eq_of_lt hn] at hlast
        simp [hexNumber?, hlast]
      · rw [Nat.toDigits_of_base_le (by decide) (by omega), List.map_append, hexNumber?_append,
          ih (n / 16) (by omega)]
        simp [hexNumber?, hlast]
        omega

/-- As many digits as are asked for spell a number that has no more. -/
theorem hexDigits_spec {width n : Nat} (hwidth : 0 < width) (h : n < 16 ^ width) :
    (hexDigits width n).length = width ∧ hexNumber? 0 (hexDigits width n) = some n := by
  have hlength : (Nat.toDigits 16 n).length ≤ width :=
    (Nat.length_toDigits_le_iff (by decide) hwidth).mpr h
  constructor
  · simp [hexDigits]
    omega
  · rw [hexDigits, hexNumber?_append, hexNumber?_zeros, Option.bind_some, hexNumber?_toDigits]

/-- The number of a character is that of a character, the same one. -/
theorem charOfNumber?_toNat (c : Char) : charOfNumber? c.toNat = some c := by
  have hvalid : c.toNat.isValidChar := c.valid
  rw [charOfNumber?, dif_pos hvalid]
  rfl

/-- The letter that a character is escaped with is read back as that character. -/
theorem escapedChar?_of_escapeLetter {c a : Char} (h : escapeLetter? c = some a) :
    escapedChar? a = some c := by
  unfold escapeLetter? at h
  split at h <;> first | (obtain rfl := Option.some.inj h; rfl) | simp at h

/-- An escape that is written is a piece. -/
theorem isPiece_writeEscape (c : Char) : IsPiece (writeEscape c) c := by
  unfold writeEscape
  split
  · rename_i a ha
    exact .letter (escapedChar?_of_escapeLetter ha)
  · dsimp only
    split
    · rename_i hn
      obtain ⟨hlength, hnumber⟩ := hexDigits_spec (show 0 < 2 by decide)
        (show c.toNat < 16 ^ 2 from Nat.lt_succ_of_le hn)
      exact .digits rfl (hlength.symm ▸ rfl) hnumber (charOfNumber?_toNat c)
    · split
      · rename_i hn
        obtain ⟨hlength, hnumber⟩ := hexDigits_spec (show 0 < 4 by decide)
          (show c.toNat < 16 ^ 4 from Nat.lt_succ_of_le hn)
        exact .digits rfl (hlength.symm ▸ rfl) hnumber (charOfNumber?_toNat c)
      · have hmax : c.toNat < 16 ^ 8 := by
          have hvalid := c.valid
          simp only [UInt32.isValidChar, Nat.isValidChar] at hvalid
          have htoNat : c.toNat = c.val.toNat := rfl
          omega
        obtain ⟨hlength, hnumber⟩ := hexDigits_spec (show 0 < 8 by decide) hmax
        exact .digits rfl (hlength.symm ▸ rfl) hnumber (charOfNumber?_toNat c)

/-- How a character is written between double quotes. -/
def writeDoubled (c : Char) : List Char :=
  if !isPrintable c || isBreak c || c == '"' || c == '\\' then writeEscape c else [c]

/-- What is written for a character in double quotes is one piece that stands for the character. -/
theorem isPiece_writeDoubled (c : Char) : IsPiece (writeDoubled c) c := by
  unfold writeDoubled
  split
  · exact isPiece_writeEscape c
  · rename_i h
    simp only [Bool.or_eq_true, Bool.not_eq_true', beq_iff_eq, not_or, Bool.not_eq_false,
      Bool.not_eq_true] at h
    exact .char h.1.1.2 h.1.2 h.2

/-- An escape has no characters that may not occur. -/
theorem IsPiece.all_isAllowed {w : List Char} {c : Char} (h : IsPiece ('\\' :: w) c) :
    ∀ d ∈ '\\' :: w, isAllowed d = true := by
  have hmark : isAllowed '\\' = true := by decide
  cases h with
  | char _ _ hne => exact absurd rfl hne
  | letter ha => simp [hmark, (inline_of_escapedChar ha).2]
  | digits ha hcount hnumber hchar =>
      simpa [hmark, (inline_of_escapeDigits hcount).2] using
        fun d hd => (inline_of_mem_hexDigits hnumber d hd).2

/-- A text written in double quotes consists of allowed characters, since all others are escaped. -/
theorem isAllowed_writeDouble (cs : List Char) : ∀ d ∈ writeDouble cs, isAllowed d = true := by
  have hquote : isAllowed '"' = true := by decide
  have hdoubled : ∀ c, ∀ d ∈ writeDoubled c, isAllowed d = true := by
    intro c
    unfold writeDoubled
    split
    · exact (isPiece_writeEscape c).all_isAllowed
    · rename_i h
      simp only [Bool.or_eq_true, Bool.not_eq_true', not_or, Bool.not_eq_false] at h
      simpa using isAllowed_of_isPrintable h.1.1.1
  intro d hd
  have hd : d = '"' ∨ ∃ c ∈ cs, d ∈ writeDoubled c := by
    simpa [writeDouble, writeDoubled, or_comm, or_assoc] using hd
  rcases hd with rfl | ⟨c, -, hd⟩
  · exact hquote
  · exact hdoubled c d hd

/-- **What is written between double quotes reads back.** -/
theorem readQuoted_writeDouble (cs : List Char) {p : Place} (hp : 0 < p.column) (rest : List Char) :
    readQuoted .double (.text .none) (p.marks ((writeDouble cs).tail ++ rest)) =
      some (cs, (p.after (writeDouble cs).tail).marks rest) := by
  have hpieces : ∀ w ∈ cs.map fun c => (writeDoubled c, c), IsPiece w.1 w.2 := by
    intro w hw
    obtain ⟨c, -, rfl⟩ := List.mem_map.mp hw
    exact isPiece_writeDoubled c
  have hread := readQuoted_pieces hpieces (g := .none) rfl hp rest
  have htail : (writeDouble cs).tail =
      (cs.map fun c => (writeDoubled c, c)).flatMap Prod.fst ++ ['"'] := by
    rw [List.flatMap_map]
    rfl
  have hchars : (cs.map fun c => (writeDoubled c, c)).map Prod.snd = cs := by
    simp [Function.comp_def]
  rw [hchars] at hread
  rw [htail]
  simpa [Gap.text] using hread

end Outreach.Yaml
