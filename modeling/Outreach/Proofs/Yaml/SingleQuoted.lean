import Outreach.Proofs.Yaml.Quoted

/-!
# Text Between Single Quotes

Between single quotes there are no escapes. A quote is written twice, and so is the first line feed
of a run of breaks, since a single one would read as a space. Blanks beside a break would be lost;
a text that has none there reads back.

## Main results

* `singleReads_of_admitsQuotes`: **text between single quotes reads back**.
-/

namespace Outreach.Yaml

/-- The state of a reader between single quotes in front of a text, and whether the text is written
behind a break: blanks do not stand in front of a break, and a run of breaks has been written so
that it reads back. -/
def GapFits (cs : List Char) : Bool → Gap → Prop
  | false, .none => True
  | false, .blanks _ => ∀ c ∈ cs.head?, isBreak c = false
  | true, .breaks first more => (first = ['\n'] → more ≠ []) ∧ cs.head? ≠ some ' '
  | _, _ => False

/-- The spaces in front of a line do not count. -/
theorem readQuoted_margin {first more rest : List Char} (indent : Nat) (p : Place) :
    readQuoted .single (.text (.breaks first more)) (p.marks (margin indent ++ rest)) =
      readQuoted .single (.text (.breaks first more)) ((p.after (margin indent)).marks rest) :=
  read_margin (fun _ _ _ => readQuoted_blank (by decide)) (Nat.le_refl _) rest

/-- How a character that is no break is written between single quotes. -/
def writeQuotable (c : Char) : List Char :=
  if c == '\'' then ['\'', '\''] else [c]

/-- What a character is written as within single quotes has no line break if the character is
none. -/
theorem isBreak_of_mem_writeQuotable {c : Char} (h : isBreak c = false) :
    ∀ d ∈ writeQuotable c, isBreak d = false := by
  unfold writeQuotable
  split
  · simp [isBreak_apostrophe]
  · simpa using h

/-- A character between single quotes that is no blank and no break ends the gap in front of it. -/
theorem readQuoted_writeQuotable {c : Char} (hblank : isBlank c = false) (hbreak : isBreak c = false)
    (g : Gap) {p : Place} (hp : 0 < p.column) (rest : List Char) :
    readQuoted .single (.text g) (p.marks (writeQuotable c ++ rest)) =
      putBefore (g.text ++ [c])
        (readQuoted .single (.text .none) ((p.after (writeQuotable c)).marks rest)) := by
  unfold writeQuotable
  by_cases hc : c = '\''
  · subst hc
    simpa using readQuoted_single_quote
  · simpa [hc] using readQuoted_char (q := .single) (.inl hp) hblank hbreak hc (by simp)

/-- The only blank that can be printed is the space. -/
theorem isBlank_of_isPrintable {c : Char} (h : isPrintable c = true) (hc : c ≠ ' ') :
    isBlank c = false := by
  have htab : c ≠ '\t' := by
    rintro rfl
    exact absurd h (by decide)
  simp [isBlank, hc, htab]

/-- A text has no such pair of neighbours if its first two characters are none and its rest has
none. -/
theorem hasPair_cons {p q : Char → Bool} {c : Char} {cs : List Char} :
    hasPair p q (c :: cs) = false ↔
      (p c = true → ∀ d ∈ cs.head?, q d = false) ∧ hasPair p q cs = false := by
  cases cs with
  | nil => simp [hasPair]
  | cons d cs => simp [hasPair]

/-- If a text may be written in single quotes, its rest may, and no space stands next to a break
at its front. -/
theorem admitsQuotes_cons {c : Char} {cs : List Char} (h : admitsQuotes (c :: cs) = true) :
    isPrintable c = true ∧ admitsQuotes cs = true ∧
      (isBreak c = true → cs.head? ≠ some ' ') ∧
      (c = ' ' → ∀ d ∈ cs.head?, isBreak d = false) := by
  simp only [admitsQuotes, Bool.and_eq_true, List.all_cons, Bool.not_eq_true', hasPair_cons] at h ⊢
  obtain ⟨⟨⟨hc, hcs⟩, hbreakSpace, hbreakSpace'⟩, hspaceBreak, hspaceBreak'⟩ := h
  refine ⟨hc, ⟨⟨hcs, hbreakSpace'⟩, hspaceBreak'⟩, fun hbreak hhead => ?_, fun hspace => ?_⟩
  · exact absurd (hbreakSpace hbreak ' ' (by simp [hhead])) (by decide)
  · exact hspaceBreak (by simp [isSpace, hspace])

/-- One more break behind others that have been written so that they read back. -/
theorem text_addBreak {first more : List Char} (h : first = ['\n'] → more ≠ []) (c : Char) :
    (Gap.breaks first (more ++ [c])).text = (Gap.breaks first more).text ++ [c] := by
  simp only [Gap.text]
  split
  · rename_i hfirst
    simp [h hfirst]
  · simp

/-- A text between single quotes **reads back**, from a line or from behind a break. -/
def SingleReads (indent : Nat) (cs : List Char) (afterBreak : Bool) : Prop :=
  ∀ {g : Gap} {p : Place}, GapFits cs afterBreak g → (afterBreak = false → 0 < p.column) →
    ∀ {rest : List Char}, rest.head? ≠ some '\'' →
      readQuoted .single (.text g)
          (p.marks (writeSingleBody indent afterBreak cs ++ '\'' :: rest)) =
        some (g.text ++ cs,
          ((p.after (writeSingleBody indent afterBreak cs)).behind '\'').marks rest)

/-- The empty text reads back between single quotes: what the gap held is all there is. -/
theorem singleReads_nil (indent : Nat) (afterBreak : Bool) : SingleReads indent [] afterBreak := by
  intro g p hg _ rest hrest
  cases afterBreak with
  | false => simp [writeSingleBody, readQuoted_single_close hrest]
  | true =>
      rcases g with - | _ | ⟨first, more⟩
      · exact hg.elim
      · exact hg.elim
      · simp [writeSingleBody, readQuoted_margin, readQuoted_single_close hrest]

/-- One more break in front. The first line feed of a run is written twice. -/
theorem SingleReads.consBreak {indent : Nat} {c : Char} {cs : List Char} {afterBreak : Bool}
    (hbreak : isBreak c = true) (hkept : IsKept c) (hspace : cs.head? ≠ some ' ')
    (h : SingleReads indent cs true) : SingleReads indent (c :: cs) afterBreak := by
  intro g p hg _ rest hrest
  rcases g with - | text | ⟨first, more⟩ <;> cases afterBreak
  · by_cases hfeed : c = '\n'
    · subst hfeed
      have hfits : GapFits cs true (.breaks ['\n'] ['\n']) := ⟨by simp, hspace⟩
      have hnext := h (p := (p.behind '\n').behind '\n') hfits (by simp) hrest
      have hwritten : writeSingleBody indent false ('\n' :: cs) =
          '\n' :: '\n' :: writeSingleBody indent true cs := by
        simp [writeSingleBody, hbreak]
      rw [hwritten, List.cons_append, List.cons_append, readQuoted_break hbreak hkept,
        readQuoted_break hbreak hkept]
      simpa [Gap.addBreak, Gap.text] using hnext
    · have hfits : GapFits cs true (.breaks [c] []) := ⟨by simp [hfeed], hspace⟩
      have hnext := h (p := p.behind c) hfits (by simp) hrest
      have hwritten : writeSingleBody indent false (c :: cs) =
          c :: writeSingleBody indent true cs := by
        simp [writeSingleBody, hbreak, hfeed]
      rw [hwritten, List.cons_append, readQuoted_break hbreak hkept]
      simpa [Gap.addBreak, Gap.text, hfeed] using hnext
  · exact hg.elim
  · exact absurd (hg c rfl) (by simp [hbreak])
  · exact hg.elim
  · exact hg.elim
  · have hfits : GapFits cs true (.breaks first (more ++ [c])) := ⟨by simp, hspace⟩
    have hnext := h (p := p.behind c) hfits (by simp) hrest
    have hwritten : writeSingleBody indent true (c :: cs) =
        c :: writeSingleBody indent true cs := by
      simp [writeSingleBody, hbreak]
    rw [hwritten, List.cons_append, readQuoted_break hbreak hkept]
    simpa [Gap.addBreak, text_addBreak hg.1] using hnext

/-- One more space in front, on the same line. -/
theorem SingleReads.consSpace {indent : Nat} {cs : List Char} {afterBreak : Bool}
    (hbreak : ∀ d ∈ cs.head?, isBreak d = false) (h : SingleReads indent cs false) :
    SingleReads indent (' ' :: cs) afterBreak := by
  intro g p hg _ rest hrest
  have hspace : isBlank ' ' = true := by decide
  have hwritten : writeSingleBody indent false (' ' :: cs) =
      ' ' :: writeSingleBody indent false cs := by
    simp [writeSingleBody, isBreak_space]
  have hplace : 0 < (p.behind ' ').column := by
    rw [Place.behind_of_isBreak (by decide)]
    exact Nat.succ_pos _
  rcases g with - | text | ⟨first, more⟩ <;> cases afterBreak
  · have hnext := h (g := .blanks [' ']) hbreak (fun _ => hplace) hrest
    rw [hwritten, List.cons_append, readQuoted_blank hspace]
    simpa [Gap.addBlank, Gap.text] using hnext
  · exact hg.elim
  · have hnext := h (g := .blanks (text ++ [' '])) hbreak (fun _ => hplace) hrest
    rw [hwritten, List.cons_append, readQuoted_blank hspace]
    simpa [Gap.addBlank, Gap.text] using hnext
  · exact hg.elim
  · exact hg.elim
  · exact absurd rfl hg.2

/-- One more character in front that is no blank and no break. -/
theorem SingleReads.consChar {indent : Nat} (hindent : 0 < indent) {c : Char} {cs : List Char}
    {afterBreak : Bool} (hblank : isBlank c = false) (hbreak : isBreak c = false)
    (h : SingleReads indent cs false) : SingleReads indent (c :: cs) afterBreak := by
  intro g p hg hp rest hrest
  have hinline : ∀ {p : Place}, 0 < p.column →
      readQuoted .single (.text g)
          (p.marks (writeQuotable c ++ (writeSingleBody indent false cs ++ '\'' :: rest))) =
        some (g.text ++ c :: cs, ((p.after
          (writeQuotable c ++ writeSingleBody indent false cs)).behind '\'').marks rest) := by
    intro p hp
    have hcolumn : 0 < (p.after (writeQuotable c)).column := by
      rw [Place.after_of_isBreak (isBreak_of_mem_writeQuotable hbreak)]
      exact Nat.lt_of_lt_of_le hp (Nat.le_add_right _ _)
    rw [readQuoted_writeQuotable hblank hbreak g hp, h (g := .none) trivial (fun _ => hcolumn) hrest]
    simp [putBefore, Gap.text]
  cases afterBreak with
  | false =>
      have hwritten : writeSingleBody indent false (c :: cs) =
          writeQuotable c ++ writeSingleBody indent false cs := by
        simp [writeSingleBody, hbreak, writeQuotable]
      rw [hwritten, List.append_assoc]
      exact hinline (hp rfl)
  | true =>
      rcases g with - | _ | ⟨first, more⟩
      · exact hg.elim
      · exact hg.elim
      · have hwritten : writeSingleBody indent true (c :: cs) =
            margin indent ++ (writeQuotable c ++ writeSingleBody indent false cs) := by
          simp [writeSingleBody, hbreak, writeQuotable]
        have hcolumn : 0 < (p.after (margin indent)).column := by
          rw [after_margin]
          exact Nat.lt_of_lt_of_le hindent (Nat.le_add_left _ _)
        rw [hwritten, List.append_assoc, List.append_assoc, readQuoted_margin, hinline hcolumn,
          Place.after_append p]

/-- **Text between single quotes reads back.** -/
theorem singleReads_of_admitsQuotes {indent : Nat} (hindent : 0 < indent) {cs : List Char}
    (h : admitsQuotes cs = true) (afterBreak : Bool) : SingleReads indent cs afterBreak := by
  induction cs generalizing afterBreak with
  | nil => exact singleReads_nil indent afterBreak
  | cons c cs ih =>
      obtain ⟨hc, hcs, hbreakSpace, hspaceBreak⟩ := admitsQuotes_cons h
      by_cases hbreak : isBreak c = true
      · exact SingleReads.consBreak hbreak (isKept_of_isPrintable hc) (hbreakSpace hbreak) (ih hcs true)
      · rw [Bool.not_eq_true] at hbreak
        by_cases hspace : c = ' '
        · subst hspace
          exact SingleReads.consSpace (hspaceBreak rfl) (ih hcs false)
        · exact SingleReads.consChar hindent (isBlank_of_isPrintable hc hspace) hbreak (ih hcs false)

/-- The spaces of a margin are allowed characters. -/
theorem isAllowed_margin (indent : Nat) : ∀ c ∈ margin indent, isAllowed c = true := by
  intro c hc
  rw [List.eq_of_mem_replicate hc]
  decide

/-- A printable text is written in allowed characters between single quotes, the margins of its
lines included. -/
theorem isAllowed_writeSingleBody (indent : Nat) {cs : List Char}
    (h : ∀ c ∈ cs, isPrintable c = true) (afterBreak : Bool) :
    ∀ c ∈ writeSingleBody indent afterBreak cs, isAllowed c = true := by
  have hfeed : isAllowed '\n' = true := by decide
  have hquote : isAllowed '\'' = true := by decide
  induction cs generalizing afterBreak with
  | nil =>
      cases afterBreak with
      | false => simp [writeSingleBody]
      | true => exact isAllowed_margin indent
  | cons c cs ih =>
      have hc := isAllowed_of_isPrintable (h c List.mem_cons_self)
      have hcs := ih fun d hd => h d (List.mem_cons_of_mem c hd)
      intro d hd
      simp only [writeSingleBody] at hd
      split at hd
      · rcases List.mem_append.mp hd with hd | hd
        · split at hd <;> simp at hd <;> simp [hd, hfeed, hc]
        · exact hcs true d hd
      · simp only [List.mem_append, or_assoc] at hd
        rcases hd with hd | hd | hd
        · split at hd
          · exact isAllowed_margin indent d hd
          · simp at hd
        · split at hd <;> simp at hd <;> simp [hd, hquote, hc]
        · exact hcs false d hd

end Outreach.Yaml
