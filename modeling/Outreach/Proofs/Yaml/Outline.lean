import Outreach.Proofs.Yaml.LineValues

/-!
# Texts of Two Levels

An *outline* is a text of two levels: sections whose entries are scalars and lists of scalars, each
entry on a line of its own. It is scanned entry by entry. Every key at a column ends what lies
deeper and goes on with the collection at that column, so the tokens are those of the sections in
order.

## Main results

* `Outline.tokens?_chars`: **an outline is cut into the tokens of its sections**.
-/

namespace Outreach.Yaml

open Scan (IsKey Writes atLine inLine keyTokens keptAt endsAt startsAt columnsAfterKey keptAt_of_le
  toToken)

/-- A scalar as it is **written**: its characters in some style, and the text that they stand for.
-/
structure Written where
  style : ScalarStyle
  chars : List Char
  /-- What it is written for. -/
  text : List Char

/-- The value of an entry: one scalar, or a list of them. -/
inductive Part where
  | scalar (w : Written)
  | list (items : List Written)

/-- A named part: a name, and its value behind a colon. -/
structure Entry where
  name : List Char
  part : Part

/-- A **section** of an outline: a name with its entries on further lines. -/
structure Section where
  name : List Char
  entries : List Entry

/-- A text of two levels: sections, and entries within them. -/
abbrev Outline := List Section

/-! ### Its text -/

/-- A scalar behind a space, with the end of its line. -/
def Written.line (w : Written) : List Char :=
  ' ' :: (w.chars ++ lineEnd w.chars)

/-- An item of a list, behind its dash on a line of its own. -/
def Written.item (w : Written) : List Char :=
  margin indentStep ++ '-' :: w.line

/-- A value behind the colon of its name: on the same line, or with its items on further ones. -/
def Part.lines : Part → List Char
  | .scalar w => w.line
  | .list [] => [' ', '[', ']', '\n']
  | .list items => '\n' :: items.flatMap Written.item

/-- The lines of an entry. -/
def Entry.lines (e : Entry) : List Char :=
  margin indentStep ++ (e.name ++ ':' :: e.part.lines)

/-- The lines of a section. -/
def Section.lines (s : Section) : List Char :=
  s.name ++ ':' :: '\n' :: s.entries.flatMap Entry.lines

/-- The text of an outline. -/
def Outline.chars (o : Outline) : List Char :=
  o.flatMap Section.lines

/-! ### Its tokens -/

/-- The token of a scalar. -/
def Written.token (w : Written) : Token :=
  .scalar w.style w.text

/-- The tokens of a value. -/
def Part.tokens : Part → List Token
  | .scalar w => [w.token]
  | .list [] => [.flowSequenceStart, .flowSequenceEnd]
  | .list items => items.flatMap fun w => [.blockEntry, w.token]

/-- The tokens of a name. -/
def nameTokens (name : List Char) : List Token :=
  [.key, .scalar .plain name, .value]

/-- The tokens of an entry. -/
def Entry.tokens (e : Entry) : List Token :=
  nameTokens e.name ++ e.part.tokens

/-- The tokens of a section. -/
def Section.tokens (s : Section) : List Token :=
  nameTokens s.name ++ .blockMappingStart :: s.entries.flatMap Entry.tokens ++ [.blockEnd]

/-- The tokens of an outline. -/
def Outline.tokens (o : Outline) : List Token :=
  .blockMappingStart :: o.flatMap Section.tokens ++ [.blockEnd]

/-! ### What can be read -/

/-- A scalar is **readable** if it is written in its style. -/
def Written.IsReadable (w : Written) : Prop :=
  Writes indentStep w.text w.style w.chars

/-- A value is readable if its scalars are. -/
def Part.IsReadable : Part → Prop
  | .scalar w => w.IsReadable
  | .list items => ∀ w ∈ items, w.IsReadable

/-- An entry is readable if its name and its value are. -/
structure Entry.IsReadable (e : Entry) : Prop where
  name : IsKey e.name
  part : e.part.IsReadable

/-- A section is readable if its name and its entries are. It has entries. -/
structure Section.IsReadable (s : Section) : Prop where
  name : IsKey s.name
  entries : ∀ e ∈ s.entries, e.IsReadable
  ne_nil : s.entries ≠ []

/-! ### Going on -/

/-- A dash is solid: it is no blank, no break and no mark of another meaning between tokens. -/
theorem isSolid_dash : IsSolid '-' :=
  ⟨by decide, by decide, by decide, by decide⟩

/-- A text that goes on at a column goes on at a deeper one. -/
theorem GoesOn.mono {m n : Nat} (h : m ≤ n) {next : List Char} (hgoes : GoesOn m next) :
    GoesOn n next := by
  cases hgoes with
  | done => exact .done
  | line cs hindent hc => exact .line cs (Nat.le_trans hindent h) hc

/-- A name starts a line. -/
theorem goesOn_name {name : List Char} (h : IsKey name) (column : Nat) (rest : List Char) :
    GoesOn column (margin column ++ (name ++ rest)) := by
  obtain ⟨c, cs, rfl⟩ := List.exists_cons_of_ne_nil h.ne_nil
  exact .line _ (Nat.le_refl _) (Scan.isSolid_of_isKeyChar (h.chars c List.mem_cons_self))

/-- A text goes on with the items of a list, since each of them starts a line with its dash. -/
theorem goesOn_items {most : Nat} (hmost : indentStep ≤ most) (items : List Written)
    {next : List Char} (hgoes : GoesOn most next) :
    GoesOn most (items.flatMap Written.item ++ next) := by
  cases items with
  | nil => exact hgoes
  | cons w items =>
      simp only [List.flatMap_cons, Written.item, List.append_assoc, List.cons_append]
      exact .line _ hmost isSolid_dash

/-- A text goes on with entries, since each of them starts a line with its name. -/
theorem goesOn_entries {entries : List Entry} (h : ∀ e ∈ entries, e.IsReadable) {next : List Char}
    (hgoes : GoesOn indentStep next) :
    GoesOn indentStep (entries.flatMap Entry.lines ++ next) := by
  cases entries with
  | nil => exact hgoes
  | cons e entries =>
      simp only [List.flatMap_cons, Entry.lines, List.append_assoc]
      exact goesOn_name (h e List.mem_cons_self).name _ _

/-- A text goes on with sections, since each of them starts a line with its name at the margin. -/
theorem goesOn_sections {o : Outline} (h : ∀ s ∈ o, s.IsReadable) : GoesOn 0 o.chars := by
  cases o with
  | nil => exact .done
  | cons s o =>
      simp only [Outline.chars, List.flatMap_cons, Section.lines, List.append_assoc]
      exact goesOn_name (h s List.mem_cons_self).name 0 _

/-! ### Scanning -/

/-- From the start of a line, wherever it is, a scan yields tokens. -/
def LineYields (columns : List Nat) (tokens : List Token) (next : List Char) (ts : List Token) :
    Prop :=
  ∀ p : Place, p.column = 0 → (atLine columns tokens p next).Yields ts

variable {columns : List Nat} {tokens ts : List Token} {next : List Char}

/-- A scalar on a line of its own, or behind its name. -/
theorem Written.yields {w : Written} (h : w.IsReadable) (hcolumns : columns.head? = some indentStep)
    (hgoes : GoesOn indentStep next) (hnext : LineYields columns (w.token :: tokens) next ts)
    (keyAllowed : Bool) {p : Place} (hp : indentStep ≤ p.column) :
    (inLine columns tokens keyAllowed p (w.line ++ next)).Yields ts := by
  have hscalar := hnext _ (Scan.after_lineEnd (p.behind ' ') w.chars).1
  have := Scan.Yields.scalar keyAllowed hcolumns hp h hgoes hscalar
  simpa [Written.line] using this

/-- The items of a list. -/
theorem LineYields.items {items : List Written} (h : ∀ w ∈ items, w.IsReadable)
    (hcolumns : columns.head? = some indentStep) (hgoes : GoesOn indentStep next)
    (hnext : LineYields columns
      ((items.flatMap fun w => [Token.blockEntry, w.token]).reverse ++ tokens) next ts) :
    LineYields columns tokens (items.flatMap Written.item ++ next) ts := by
  induction items generalizing tokens with
  | nil => exact hnext
  | cons w items ih =>
      have hrest := @ih (w.token :: .blockEntry :: tokens)
        (fun v hv => h v (List.mem_cons_of_mem w hv)) (by simpa using hnext)
      intro p hp
      have hplace : indentStep ≤ ((p.after (margin indentStep)).behind '-').column := by
        rw [Place.behind_of_isBreak (by decide), after_margin]
        simp
        omega
      have hscalar := Written.yields (h w List.mem_cons_self) hcolumns
        (goesOn_items (Nat.le_refl _) items hgoes) hrest true hplace
      have := Scan.Yields.dash hp hcolumns hscalar
      simpa [Written.item, Written.line] using this

/-- A value behind the colon of its name. -/
theorem Part.yields {part : Part} (h : part.IsReadable) (hcolumns : columns.head? = some indentStep)
    (hgoes : GoesOn indentStep next)
    (hnext : LineYields columns (part.tokens.reverse ++ tokens) next ts) {p : Place}
    (hp : indentStep ≤ p.column) :
    (inLine columns tokens false p (part.lines ++ next)).Yields ts := by
  rcases part with w | (- | ⟨w, items⟩)
  · exact Written.yields h hcolumns hgoes hnext false hp
  · exact Scan.Yields.emptyList (by simpa [hcolumns] using hp) hgoes (hnext _ rfl)
  · refine Scan.Yields.of_line (p := p.behind '\n')
      (goesOn_items (Nat.le_refl _) (w :: items) hgoes) (by simp) ?_
      (LineYields.items h hcolumns hgoes hnext _ rfl)
    exact (toToken_newline _).trans (toToken_lineStart
      (goesOn_items (Nat.le_refl _) (w :: items) hgoes) _).1

/-- What follows the colon of a name is a gap. -/
theorem Part.atGap_lines (part : Part) (next : List Char) (p : Place) :
    atGap (p.marks (part.lines ++ next)) = true := by
  rcases part with w | (- | ⟨w, items⟩) <;>
    simp only [Part.lines, Written.line, List.cons_append] <;>
    rw [Place.marks_cons (by decide)] <;> rfl

/-- **An entry**. The first one of a section starts the collection. -/
theorem LineYields.entry {e : Entry} (h : e.IsReadable)
    (hcolumns : ∀ n ∈ columns.head?, n ≤ indentStep) (hgoes : GoesOn indentStep next)
    (hnext : LineYields (columnsAfterKey indentStep columns)
      (e.tokens.reverse ++ (startsAt indentStep columns ++ tokens)) next ts) :
    LineYields columns tokens (e.lines ++ next) ts := by
  obtain ⟨hkept, hends⟩ := keptAt_of_le hcolumns
  have hhead : (columnsAfterKey indentStep columns).head? = some indentStep := by
    unfold columnsAfterKey
    split
    · assumption
    · rfl
  intro p hp
  have hplace : indentStep ≤ ((p.after (margin indentStep ++ e.name)).behind ':').column := by
    have hname : ∀ c ∈ e.name, isBreak c = false := fun c hc =>
      (Scan.isSolid_of_isKeyChar (h.name.chars c hc)).notBreak
    rw [Place.behind_of_isBreak (by decide), Place.after_append, Place.after_of_isBreak hname,
      after_margin]
    simp
    omega
  have htokens : LineYields (columnsAfterKey indentStep columns) (e.part.tokens.reverse ++
      ((nameTokens e.name).reverse ++ (startsAt indentStep columns ++ tokens))) next ts := by
    simpa [Entry.tokens] using hnext
  have hpart := Part.yields h.part hhead hgoes htokens hplace
  have := Scan.Yields.key columns tokens hp h.name indentStep (e.part.atGap_lines next)
    (by simpa [keyTokens, hkept, hends, nameTokens] using hpart)
  simpa [Entry.lines] using this

/-- The further entries of a section. -/
theorem LineYields.entries {entries : List Entry} (h : ∀ e ∈ entries, e.IsReadable)
    (hgoes : GoesOn indentStep next)
    (hnext : LineYields [indentStep, 0] ((entries.flatMap Entry.tokens).reverse ++ tokens) next ts) :
    LineYields [indentStep, 0] tokens (entries.flatMap Entry.lines ++ next) ts := by
  induction entries generalizing tokens with
  | nil => exact hnext
  | cons e entries ih =>
      have hrest := @ih (e.tokens.reverse ++ tokens) (fun f hf => h f (List.mem_cons_of_mem e hf))
        (by simpa using hnext)
      rw [List.flatMap_cons, List.append_assoc]
      exact LineYields.entry (h e List.mem_cons_self) (by simp)
        (goesOn_entries (fun f hf => h f (List.mem_cons_of_mem e hf)) hgoes) hrest

/-- The tokens of a section without its end, which the next section or the end of the text adds. -/
def Section.openTokens (s : Section) : List Token :=
  nameTokens s.name ++ .blockMappingStart :: s.entries.flatMap Entry.tokens

/-- **A section**. The first one starts the collection of the outline; a further one ends the one in
front of it. -/
theorem LineYields.section (columns : List Nat) (tokens : List Token) {s : Section}
    (h : s.IsReadable)
    (hcolumns : columnsAfterKey 0 (keptAt 0 columns) = [0]) (hgoes : GoesOn indentStep next)
    (hnext : LineYields [indentStep, 0]
      (s.openTokens.reverse ++ (startsAt 0 (keptAt 0 columns) ++ endsAt 0 columns ++ tokens))
      next ts) :
    LineYields columns tokens (s.lines ++ next) ts := by
  obtain ⟨name, entries⟩ := s
  obtain ⟨e, entries, rfl⟩ := List.exists_cons_of_ne_nil h.ne_nil
  have he := h.entries e List.mem_cons_self
  have hentries : ∀ f ∈ entries, f.IsReadable := fun f hf =>
    h.entries f (List.mem_cons_of_mem e hf)
  -- the name leads to the first entry, which starts the collection of the section
  have hfirst : LineYields [0] (keyTokens 0 columns name ++ tokens)
      ((e :: entries).flatMap Entry.lines ++ next) ts := by
    rw [List.flatMap_cons, List.append_assoc]
    refine LineYields.entry he (by simp) (goesOn_entries hentries hgoes)
      (LineYields.entries hentries hgoes ?_)
    simpa [Section.openTokens, keyTokens, nameTokens, startsAt, indentStep] using hnext
  have hline : GoesOn indentStep ((e :: entries).flatMap Entry.lines ++ next) :=
    goesOn_entries h.entries hgoes
  intro p hp
  have hbehind : (inLine [0] (keyTokens 0 columns name ++ tokens) false ((p.after name).behind ':')
      ('\n' :: ((e :: entries).flatMap Entry.lines ++ next))).Yields ts :=
    Scan.Yields.of_line hline (by simp) ((toToken_newline _).trans (toToken_lineStart hline _).1)
      (hfirst (((p.after name).behind ':').behind '\n') rfl)
  have hgap : ∀ p : Place,
      atGap (p.marks ('\n' :: ((e :: entries).flatMap Entry.lines ++ next))) = true := by
    intro p
    rw [Place.marks_cons (by decide)]
    rfl
  have := Scan.Yields.key columns tokens hp h.name 0 hgap
    (by simpa [hcolumns, margin] using hbehind)
  simpa [Section.lines, margin] using this

/-- The further sections of an outline. -/
theorem LineYields.sections {o : Outline} (h : ∀ s ∈ o, s.IsReadable) (tokens : List Token) :
    LineYields [indentStep, 0] tokens o.chars
      (tokens.reverse ++ .blockEnd :: o.flatMap Section.tokens ++ [.blockEnd]) := by
  induction o generalizing tokens with
  | nil =>
      intro p _
      simpa [Outline.chars] using Scan.yields_atLine_nil [indentStep, 0] tokens p
  | cons s o ih =>
      have ho : ∀ r ∈ o, r.IsReadable := fun r hr => h r (List.mem_cons_of_mem s hr)
      have hrest := ih ho (s.openTokens.reverse ++ .blockEnd :: tokens)
      have := LineYields.section [indentStep, 0] tokens (h s List.mem_cons_self) (by decide)
        ((goesOn_sections ho).mono (Nat.zero_le _))
        (by simpa [startsAt, keptAt, endsAt, indentStep] using hrest)
      simpa [Outline.chars, Section.tokens, Section.openTokens] using this

/-- **An outline is scanned as its tokens.** -/
theorem Outline.yields {o : Outline} (h : ∀ s ∈ o, s.IsReadable) (hne : o ≠ []) (p : Place)
    (hp : p.column = 0) : (Scan.start (p.marks o.chars)).Yields o.tokens := by
  obtain ⟨s, o, rfl⟩ := List.exists_cons_of_ne_nil hne
  have ho : ∀ r ∈ o, r.IsReadable := fun r hr => h r (List.mem_cons_of_mem s hr)
  have hsections := LineYields.sections ho (s.openTokens.reverse ++ [.blockMappingStart])
  have hfirst := LineYields.section [] [] (h s List.mem_cons_self) (by decide)
    ((goesOn_sections ho).mono (Nat.zero_le _))
    (by simpa [startsAt, keptAt, endsAt] using hsections)
  have hgoes : GoesOn 0 (s.lines ++ Outline.chars o) := goesOn_sections h
  have hcandidate : ∀ k ∈ (none : Option KeyStart), k.required = false ∧ k.mark.line < p.line := by
    simp
  have := Scan.Yields.of_line hgoes hcandidate (toToken_lineStart hgoes p).1 (hfirst p hp)
  simpa [Outline.chars, Outline.tokens, Section.tokens, Section.openTokens, Scan.start] using this

/-! ### Characters -/

/-- What ends a line consists of allowed characters. -/
theorem isAllowed_lineEnd (written : List Char) : ∀ c ∈ lineEnd written, isAllowed c = true := by
  unfold lineEnd
  split
  · simp
  · rw [List.forall_mem_singleton]
    decide

/-- A readable scalar is written in allowed characters, with the end of its line. -/
theorem Written.isAllowed_line {w : Written} (h : w.IsReadable) :
    ∀ c ∈ w.line, isAllowed c = true := by
  have hspace : isAllowed ' ' = true := by decide
  simp only [Written.line, List.forall_mem_cons, List.forall_mem_append]
  exact ⟨hspace, h.isAllowed, isAllowed_lineEnd w.chars⟩

/-- A readable scalar is written in allowed characters as an item of a list as well. -/
theorem Written.isAllowed_item {w : Written} (h : w.IsReadable) :
    ∀ c ∈ w.item, isAllowed c = true := by
  have hdash : isAllowed '-' = true := by decide
  simp only [Written.item, List.forall_mem_append, List.forall_mem_cons]
  exact ⟨isAllowed_margin _, hdash, Written.isAllowed_line h⟩

/-- The lines of a readable value consist of allowed characters. -/
theorem Part.isAllowed_lines {part : Part} (h : part.IsReadable) :
    ∀ c ∈ part.lines, isAllowed c = true := by
  have hfeed : isAllowed '\n' = true := by decide
  have hlist : isAllowed ' ' = true ∧ isAllowed '[' = true ∧ isAllowed ']' = true := by decide
  rcases part with w | (- | ⟨w, items⟩)
  · exact Written.isAllowed_line h
  · simpa [Part.lines, hfeed] using hlist
  · simp only [Part.lines, List.forall_mem_cons, hfeed, true_and]
    intro c hc
    obtain ⟨v, hv, hc⟩ := List.mem_flatMap.mp hc
    exact Written.isAllowed_item (h v hv) c hc

/-- The lines of a readable entry consist of allowed characters. -/
theorem Entry.isAllowed_lines {e : Entry} (h : e.IsReadable) :
    ∀ c ∈ e.lines, isAllowed c = true := by
  have hcolon : isAllowed ':' = true := by decide
  simp only [Entry.lines, List.forall_mem_append, List.forall_mem_cons]
  exact ⟨isAllowed_margin _, h.name.allowed, hcolon, Part.isAllowed_lines h.part⟩

/-- The lines of a readable section consist of allowed characters. -/
theorem Section.isAllowed_lines {s : Section} (h : s.IsReadable) :
    ∀ c ∈ s.lines, isAllowed c = true := by
  have hmarks : isAllowed ':' = true ∧ isAllowed '\n' = true := by decide
  simp only [Section.lines, List.forall_mem_append, List.forall_mem_cons]
  refine ⟨h.name.allowed, hmarks.1, hmarks.2, fun c hc => ?_⟩
  obtain ⟨e, he, hc⟩ := List.mem_flatMap.mp hc
  exact Entry.isAllowed_lines (h.entries e he) c hc

/-- An outline has no characters that may not occur. -/
theorem Outline.isAllowed_chars {o : Outline} (h : ∀ s ∈ o, s.IsReadable) :
    ∀ c ∈ o.chars, isAllowed c = true := by
  intro c hc
  obtain ⟨s, hs, hc⟩ := List.mem_flatMap.mp hc
  exact Section.isAllowed_lines (h s hs) c hc

/-- **The tokens of an outline** are those of its sections. -/
theorem Outline.tokens?_chars {o : Outline} (h : ∀ s ∈ o, s.IsReadable) (hne : o ≠ []) :
    tokens? o.chars = some o.tokens := by
  have hmarks : marks? o.chars = some ((⟨0, 0, 0⟩ : Place).marks o.chars) := by
    rw [marks?, if_pos (List.all_eq_true.mpr (Outline.isAllowed_chars h))]
    rfl
  rw [tokens?, hmarks]
  exact Outline.yields h hne ⟨0, 0, 0⟩ rfl _ (Nat.lt_succ_self _)

end Outreach.Yaml
