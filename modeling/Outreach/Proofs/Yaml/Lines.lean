import Mathlib.Tactic.Tauto
import Outreach.Proofs.Yaml.SingleQuoted

/-!
# The Lines of a YAML Text

A scalar that is not quoted ends where the next line is indented too little. The reader then stands
at the first character of that line, where it would also have come by passing over the spaces in
front of it. So what is read next depends on the next line alone and not on how the scalar in front
of it was written.

## Main results

* `toToken_lineStart`: how the reader comes to the first character of a line.
* `readPlain_text`: **a text that is written plainly reads back**, and its line ends.
-/

namespace Outreach.Yaml

open Scan (toToken)

/-! ### The start of a line -/

/-- A character that is part of a token wherever it stands. -/
structure IsSolid (c : Char) : Prop where
  notBlank : isBlank c = false
  notBreak : isBreak c = false
  notComment : c ≠ '#'
  notMark : c ≠ byteOrderMark

/-- A text **goes on** with a line that is indented by at most so many spaces, or is over. -/
inductive GoesOn (most : Nat) : List Char → Prop
  | done : GoesOn most []
  | line {indent : Nat} {c : Char} (cs : List Char) : indent ≤ most → IsSolid c →
      GoesOn most (margin indent ++ c :: cs)

/-- Where the reader comes at the start of a line. -/
def lineStart (p : Place) (next : List Char) : Source :=
  (toToken false true false (p.marks next)).2

variable {inFlow keyAllowed : Bool} {p : Place}

/-- A space in front of a token is passed over. -/
theorem toToken_space (cs : List Char) :
    toToken inFlow keyAllowed false (p.marks (' ' :: cs)) =
      toToken inFlow keyAllowed false ((p.behind ' ').marks cs) := by
  rw [Place.marks_cons (by decide), toToken]
  simp [isBreak_space]

/-- The margin of a line is passed over. -/
theorem toToken_margin (indent : Nat) (cs : List Char) :
    toToken inFlow keyAllowed false (p.marks (margin indent ++ cs)) =
      toToken inFlow keyAllowed false ((p.after (margin indent)).marks cs) :=
  read_margin (fun _ cs _ => toToken_space cs) (Nat.le_refl _) cs

/-- A line break lets a key start, outside of brackets. -/
theorem toToken_newline (cs : List Char) :
    toToken inFlow keyAllowed false (p.marks ('\n' :: cs)) =
      toToken inFlow (keyAllowed || !inFlow) false ((p.behind '\n').marks cs) := by
  rw [Place.marks_cons (by decide), toToken]
  simp [isBreak_newline]

/-- A solid character is the start of a token, so nothing is passed over. -/
theorem toToken_solid {c : Char} (hc : IsSolid c) (inFlow keyAllowed : Bool) (p : Place)
    (cs : List Char) :
    toToken inFlow keyAllowed false (p.marks (c :: cs)) = (keyAllowed, p.marks (c :: cs)) := by
  obtain ⟨hspace, htab⟩ : c ≠ ' ' ∧ c ≠ '\t' := by
    simpa [isBlank] using hc.notBlank
  rw [Place.marks_cons (isKept_of_isBreak hc.notBreak), toToken]
  simp [hc.notBreak, hspace, htab, hc.notComment, hc.notMark]

/-- **The start of a line**: passing over the spaces leads to its first character, and no
further. -/
theorem toToken_lineStart {most : Nat} {next : List Char} (h : GoesOn most next) (p : Place) :
    toToken false true false (p.marks next) = (true, lineStart p next) ∧
      toToken false true false (lineStart p next) = (true, lineStart p next) := by
  cases h with
  | done => simp [lineStart, toToken]
  | line cs _ hc => simp [lineStart, toToken_margin, toToken_solid hc]

/-- A line starts behind its margin, at the first character that is solid. -/
theorem lineStart_margin {c : Char} (hc : IsSolid c) (indent : Nat) (cs : List Char) (p : Place) :
    lineStart p (margin indent ++ c :: cs) = (p.after (margin indent)).marks (c :: cs) := by
  rw [lineStart, toToken_margin, toToken_solid hc]

/-! ### Plain scalars -/

/-- A space of the margin is passed over in the middle of a plain text. -/
theorem readPlain_blank_breaks {indent : Nat} {first more cs : List Char} :
    readPlain ⟨false, indent⟩ (.breaks first more) (p.marks (' ' :: cs)) =
      readPlain ⟨false, indent⟩ (.breaks first more) ((p.behind ' ').marks cs) := by
  rw [Place.marks_cons (by decide), readPlain]
  simp [isBlank, Gap.hasBreak, Gap.addBlank]

/-- A plain scalar ends where the next line is indented too little. -/
theorem readPlain_nextLine {most indent : Nat} (hindent : most < indent) {next : List Char}
    (h : GoesOn most next) (hp : p.column = 0) (first more : List Char) :
    readPlain ⟨false, indent⟩ (.breaks first more) (p.marks next) =
      some ([], true, lineStart p next) := by
  cases h with
  | done => simp [readPlain, lineStart, toToken, Gap.hasBreak]
  | @line n c cs hn hc =>
      rw [lineStart_margin hc]
      have hcolumn : (p.after (margin n)).column < indent := by
        rw [after_margin, hp, Nat.zero_add]
        exact Nat.lt_of_le_of_lt hn hindent
      rw [read_margin (fun _ _ _ => readPlain_blank_breaks) (Nat.le_refl _),
        Place.marks_cons (isKept_of_isBreak hc.notBreak), readPlain]
      simp [hc.notBlank, hc.notBreak, Gap.hasBreak, hcolumn]

/-- No gap comes next in a source exactly if none comes next in its text. -/
theorem atGap_marks {cs : List Char} (h : ∀ c ∈ cs, isBreak c = false) (next : List Char)
    (p : Place) :
    atGap (p.marks (cs ++ '\n' :: next)) = gapNext cs := by
  cases cs with
  | nil =>
      rw [List.nil_append, Place.marks_cons (by decide)]
      simp [atGap, gapNext, isBreak_newline]
  | cons c cs =>
      rw [List.cons_append, Place.marks_cons (isKept_of_isBreak (h c List.mem_cons_self))]
      simp [atGap, gapNext]

/-- The blanks since the last word of a plain scalar: there are none behind a character that is no
blank. -/
def PlainGap (last : Char) : Gap → Prop
  | .none => True
  | .blanks _ => isBlank last = true
  | .breaks _ _ => False

/-- **A text that is written plainly reads back**, behind a character that is part of it. -/
theorem readPlain_behind {most indent : Nat} (hindent : most < indent) {next : List Char}
    (hnext : GoesOn most next) {cs : List Char} {last : Char} (hbreak : ∀ c ∈ cs, isBreak c = false)
    (htab : '\t' ∉ last :: cs) (hinner : hasInnerIndicator (last :: cs) = false)
    (hend : (last :: cs).getLast? ≠ some ' ') {g : Gap} (hg : PlainGap last g) {p : Place}
    (hp : indent ≤ p.column) :
    readPlain ⟨false, indent⟩ g (p.marks (cs ++ '\n' :: next)) =
      some (g.text ++ cs, true, lineStart ((p.after cs).behind '\n') next) := by
  induction cs generalizing p g last with
  | nil =>
      obtain rfl : g = .none := by
        cases g with
        | none => rfl
        | blanks text =>
            have hlast : isBlank last = true := hg
            have : last ≠ ' ' ∧ last ≠ '\t' := by
              constructor
              · simpa using hend
              · simpa using Ne.symm (by simpa using htab)
            simp [isBlank, this.1, this.2] at hlast
        | breaks first more => exact hg.elim
      have hline := readPlain_nextLine hindent hnext (p := p.behind '\n') rfl ['\n'] []
      rw [List.nil_append, Place.marks_cons (by decide), readPlain]
      simpa [isBlank, isBreak_newline, Gap.addBreak, Gap.text] using hline
  | cons c cs ih =>
      have hc := hbreak c List.mem_cons_self
      have hcs : ∀ d ∈ cs, isBreak d = false := fun d hd => hbreak d (List.mem_cons_of_mem c hd)
      have hplace : indent ≤ (p.behind c).column := by
        rw [Place.behind_of_isBreak hc]
        exact Nat.le_succ_of_le hp
      have htab' : '\t' ∉ c :: cs := fun hmem => htab (List.mem_cons_of_mem last hmem)
      have hend' : (c :: cs).getLast? ≠ some ' ' := by simpa using hend
      simp only [hasInnerIndicator, Bool.or_eq_false_iff] at hinner
      obtain ⟨⟨hcolon, hcomment⟩, hinner'⟩ := hinner
      have hgap := atGap_marks hcs next (p.behind c)
      have hread : ∀ {g : Gap}, PlainGap c g → _ := fun {g} hg =>
        ih hcs htab' hinner' hend' hg hplace
      rw [List.cons_append, Place.marks_cons (isKept_of_isBreak hc), readPlain]
      by_cases hblank : isBlank c = true
      · have hnobreak : g.hasBreak = false := by
          cases g with
          | none => rfl
          | blanks text => rfl
          | breaks first more => exact hg.elim
        have hg' : PlainGap c (g.addBlank c) ∧ (g.addBlank c).text = g.text ++ [c] := by
          cases g with
          | none => exact ⟨hblank, rfl⟩
          | blanks text => exact ⟨hblank, rfl⟩
          | breaks first more => exact hg.elim
        simpa [hblank, hnobreak, hg'.2] using hread hg'.1
      · rw [Bool.not_eq_true] at hblank
        have hnot : ¬ p.column < indent := Nat.not_lt.mpr hp
        have hbound := atDocumentBound_of_column (m := p.mark c)
          (Nat.lt_of_lt_of_le (Nat.zero_lt_of_lt hindent) hp)
          ((p.behind c).marks (cs ++ '\n' :: next))
        have hstop : (g != .none && c == '#') = false := by
          cases g with
          | none => rfl
          | blanks text =>
              have hlast : isBlank last = true := hg
              simpa [hlast] using hcomment
          | breaks first more => exact hg.elim
        have hvalue : (c == ':' && atGap ((p.behind c).marks (cs ++ '\n' :: next))) = false := by
          rw [hgap]
          exact hcolon
        have htext : readPlain ⟨false, indent⟩ .none
            ((p.behind c).marks (cs ++ '\n' :: next)) = some (cs, true, _) := hread trivial
        simp only [Place.mark_char, Place.mark_column, hblank, hc, hnot, hbound, htext, hstop, hvalue,
          Bool.false_and, Bool.not_false, Bool.true_and, decide_false, Bool.false_or, Bool.or_false,
          Bool.false_eq_true, if_false, Option.map_some, Place.after_cons]

/-- What a text that can be written plainly is: its first character starts a plain scalar, and no
further one ends it. -/
structure IsPlain (cs : List Char) : Prop where
  printable : ∀ c ∈ cs, isPrintable c = true
  notBreak : ∀ c ∈ cs, isBreak c = false
  inner : hasInnerIndicator cs = false
  leading : ∀ c ∈ cs.head?, isLeadingIndicator c = false ∧ c ≠ ' ' ∧
    ((c = '?' ∨ c = ':' ∨ c = '-') → gapNext cs.tail = false)
  notSpace : cs.getLast? ≠ some ' '
  ne_nil : cs ≠ []

/-- A text that may be written without quotes, and is not empty, is plain. -/
theorem isPlain_of_admitsPlain {cs : List Char} (h : admitsPlain cs = true) (hne : cs ≠ []) :
    IsPlain cs := by
  simp only [admitsPlain, hasIndicator, Bool.and_eq_true, Bool.not_eq_true', Bool.or_eq_false_iff,
    bne_iff_ne, List.all_eq_true, List.any_eq_false, Bool.not_eq_true] at h
  obtain ⟨⟨⟨⟨hprintable, hbreak⟩, ⟨⟨-, hinner⟩, hlead⟩⟩, hhead⟩, hlast⟩ := h
  refine ⟨hprintable, hbreak, hinner, fun c hc => ?_, hlast, hne⟩
  obtain ⟨cs, rfl⟩ : ∃ ds, cs = c :: ds := List.head?_eq_some_iff.mp hc
  simp only [Bool.or_eq_false_iff, Bool.and_eq_false_iff, beq_eq_false_iff_ne] at hlead
  refine ⟨hlead.1, fun hspace => hhead (congrArg some hspace), fun hindicator => ?_⟩
  rcases hlead.2 with hne | hgap
  · exact absurd hindicator (by tauto)
  · exact hgap

/-- A plain text has no tabulator, since all of its characters are printable. -/
theorem IsPlain.notTab {cs : List Char} (h : IsPlain cs) : '\t' ∉ cs := fun htab =>
  absurd (h.printable _ htab) (by decide)

/-- The first character of a plain scalar is part of it wherever it stands. -/
theorem IsPlain.isSolid {c : Char} {cs : List Char} (h : IsPlain (c :: cs)) : IsSolid c := by
  obtain ⟨hleading, hspace, -⟩ := h.leading c rfl
  have hprintable := h.printable c List.mem_cons_self
  refine ⟨isBlank_of_isPrintable hprintable hspace, h.notBreak c List.mem_cons_self, ?_, ?_⟩
  · rintro rfl
    exact absurd hleading (by decide)
  · rintro rfl
    exact absurd hprintable (by decide)

/-- **A text that is written plainly reads back**, and its line ends. -/
theorem IsPlain.readPlain_eq {cs : List Char} (h : IsPlain cs) {most indent : Nat}
    (hindent : most < indent) {next : List Char} (hnext : GoesOn most next) {p : Place}
    (hp : indent ≤ p.column) :
    readPlain ⟨false, indent⟩ .none (p.marks (cs ++ '\n' :: next)) =
      some (cs, true, lineStart ((p.after cs).behind '\n') next) := by
  obtain ⟨c, cs, rfl⟩ := List.exists_cons_of_ne_nil h.ne_nil
  have hc := h.leading c rfl
  -- the text reads as if it stood behind a letter
  have hinner : hasInnerIndicator ('a' :: c :: cs) = false := by
    have hcolon : (c == ':' && gapNext cs) = false := by
      by_cases hcolon : c = ':'
      · simpa [hcolon] using hc.2.2 (.inr (.inl hcolon))
      · simp [hcolon]
    have hletter : (isBlank 'a' || isBreak 'a') = false := by decide
    simp only [hasInnerIndicator, hcolon, hletter, h.inner, Bool.and_false, Bool.or_false]
  exact readPlain_behind hindent hnext h.notBreak (by simpa using h.notTab) hinner
    (by simpa using h.notSpace) (g := .none) trivial hp

end Outreach.Yaml
