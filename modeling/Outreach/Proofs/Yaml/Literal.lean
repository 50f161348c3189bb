import Outreach.Proofs.Yaml.Lines

/-!
# Texts That Are Written Line by Line

A text with line feeds is written line by line below a header, each line indented. Reading the
lines gives back all of the text except the breaks at its end, of which the reader keeps as many as
the header says; the writer chooses the header that keeps all of them.

## Main results

* `readBlock_writeLines`: the lines of a text read back, up to the breaks at its end.
* `readBlockScalar_writeLiteral`: **a text that is written line by line reads back**.
-/

namespace Outreach.Yaml

open Scan (toToken)

/-! ### The state of the reader -/

/-- The breaks that have been read and do not belong to the text yet. -/
def BlockState.pending : BlockState → List Char
  | .between last more _ => last ++ more
  | .within _ => []

/-- Whether the reader stands in front of a line. -/
def BlockState.isBetween : BlockState → Bool
  | .between .. => true
  | .within _ => false

/-- The text that a reader of a literal scalar gives out while it goes over some text, and where it
stands then. -/
def runLines : BlockState → List Char → List Char × BlockState
  | s, [] => ([], s)
  | .between last more blank, c :: cs =>
    if isBreak c then runLines (.between last (more ++ [c]) blank) cs
    else
      let (text, s) := runLines (.within (isBlank c)) cs
      (last ++ more ++ c :: text, s)
  | .within blank, c :: cs =>
    if isBreak c then runLines (.between [c] [] blank) cs
    else
      let (text, s) := runLines (.within blank) cs
      (c :: text, s)

/-- What is given out and what is pending is all of the text. -/
theorem runLines_append_pending (s : BlockState) (cs : List Char) :
    (runLines s cs).1 ++ (runLines s cs).2.pending = s.pending ++ cs := by
  fun_induction runLines s cs with
  | case1 s => simp
  | case2 last more blank c cs hbreak ih => simpa [BlockState.pending] using ih
  | case3 last more blank c cs hbreak text s h ih =>
      rw [h] at ih
      simpa [BlockState.pending] using ih
  | case4 blank c cs hbreak ih => simpa [BlockState.pending] using ih
  | case5 blank c cs hbreak text s h ih =>
      rw [h] at ih
      simpa [BlockState.pending] using ih

/-- A text in two parts. -/
theorem runLines_append (s : BlockState) (cs ds : List Char) :
    (runLines s (cs ++ ds)).2 = (runLines (runLines s cs).2 ds).2 := by
  fun_induction runLines s cs with
  | case1 s => rfl
  | case2 last more blank c cs hbreak ih => simpa [runLines, hbreak] using ih
  | case3 last more blank c cs hbreak text s h ih =>
      rw [h] at ih
      simpa [runLines, hbreak] using ih
  | case4 blank c cs hbreak ih => simpa [runLines, hbreak] using ih
  | case5 blank c cs hbreak text s h ih =>
      rw [h] at ih
      simpa [runLines, hbreak] using ih

/-- Behind a character that is no break the reader stands within a line. -/
theorem runLines_concat_char (s : BlockState) (cs : List Char) {c : Char}
    (hc : isBreak c = false) : ∃ blank, (runLines s (cs ++ [c])).2 = .within blank := by
  rw [runLines_append]
  cases (runLines s cs).2 with
  | between last more blank => exact ⟨isBlank c, by simp [runLines, hc]⟩
  | within blank => exact ⟨blank, by simp [runLines, hc]⟩

/-- Behind a break the reader stands in front of a line. -/
theorem runLines_concat_break (s : BlockState) (cs : List Char) {c : Char} (hc : isBreak c = true) :
    ∃ last more blank, (runLines s (cs ++ [c])).2 = .between last more blank := by
  rw [runLines_append]
  cases (runLines s cs).2 with
  | between last more blank => exact ⟨last, more ++ [c], blank, by simp [runLines, hc]⟩
  | within blank => exact ⟨[c], [], blank, by simp [runLines, hc]⟩

/-! ### Reading lines -/

/-- A space of the indentation in front of a line is passed over. -/
theorem readBlock_space {chomping : Chomping} {indent : Nat} {last more cs : List Char}
    {blank : Bool} {p : Place} (hp : p.column < indent) :
    readBlock true chomping indent (.between last more blank) (p.marks (' ' :: cs)) =
      readBlock true chomping indent (.between last more blank) ((p.behind ' ').marks cs) := by
  rw [Place.marks_cons (by decide), readBlock]
  simp [hp]

/-- Behind a line break stands the first column of the next line. -/
theorem column_behind_break {c : Char} (h : isBreak c = true) (p : Place) :
    (p.behind c).column = 0 := by
  simp [Place.behind, h]

/-- **The lines of a text read back**, up to the breaks at its end. -/
theorem readBlock_writeLines (chomping : Chomping) (indent : Nat) {cs : List Char}
    (h : ∀ c ∈ cs, IsKept c) (htab : '\t' ∉ cs) (s : BlockState) {p : Place}
    (hp : s.isBetween = true → p.column = 0) (rest : List Char) :
    readBlock true chomping indent s (p.marks (writeLines indent s.isBetween cs ++ rest)) =
      (readBlock true chomping indent (runLines s cs).2
        ((p.after (writeLines indent s.isBetween cs)).marks rest)).map
          fun (text, rest) => ((runLines s cs).1 ++ text, rest) := by
  fun_induction runLines s cs generalizing p with
  | case1 s => simp [writeLines]
  | case2 last more blank c cs hbreak ih =>
      have hc := h c List.mem_cons_self
      have hspace : c ≠ ' ' := by
        rintro rfl
        exact absurd hbreak (by decide)
      have htab' : c ≠ '\t' := by
        rintro rfl
        exact absurd hbreak (by decide)
      have hwritten : writeLines indent true (c :: cs) = c :: writeLines indent true cs := by
        simp [writeLines, hbreak]
      have hnext := ih (fun d hd => h d (List.mem_cons_of_mem c hd))
        (fun hmem => htab (List.mem_cons_of_mem c hmem)) (p := p.behind c)
        fun _ => column_behind_break hbreak p
      simp only [BlockState.isBetween] at hnext ⊢
      rw [hwritten, List.cons_append, Place.marks_cons hc, readBlock]
      simpa [hspace, htab', hbreak] using hnext
  | case3 last more blank c cs hbreak text s hs ih =>
      rw [Bool.not_eq_true] at hbreak
      have hwritten : writeLines indent true (c :: cs) =
          margin indent ++ c :: writeLines indent false cs := by
        simp [writeLines, hbreak]
      have hcolumn : (p.after (margin indent)).column = indent := by
        rw [after_margin, hp rfl, Nat.zero_add]
      have hnext := ih (fun d hd => h d (List.mem_cons_of_mem c hd))
        (fun hmem => htab (List.mem_cons_of_mem c hmem))
        (p := (p.after (margin indent)).behind c) (by simp [BlockState.isBetween])
      simp only [BlockState.isBetween, hs] at hnext ⊢
      rw [hwritten, List.append_assoc, read_margin (fun _ _ hlt => readBlock_space hlt)
        (by simp [hp rfl]), List.cons_append, Place.marks_cons (isKept_of_isBreak hbreak),
        readBlock]
      simp only [Place.mark_char, Place.mark_column, hcolumn, hbreak, hnext, lineGap, Nat.lt_irrefl,
        decide_false, Bool.false_and, Bool.false_eq_true, if_false, if_true, Bool.not_true,
        Option.map_map, Place.after_append, Place.after_cons]
      congr 1
      funext ⟨text', rest'⟩
      simp
  | case4 blank c cs hbreak ih =>
      have hwritten : writeLines indent false (c :: cs) = c :: writeLines indent true cs := by
        simp [writeLines, hbreak]
      have hnext := ih (fun d hd => h d (List.mem_cons_of_mem c hd))
        (fun hmem => htab (List.mem_cons_of_mem c hmem)) (p := p.behind c)
        fun _ => column_behind_break hbreak p
      simp only [BlockState.isBetween] at hnext ⊢
      rw [hwritten, List.cons_append, Place.marks_cons (h c List.mem_cons_self), readBlock]
      simpa [hbreak] using hnext
  | case5 blank c cs hbreak text s hs ih =>
      rw [Bool.not_eq_true] at hbreak
      have hwritten : writeLines indent false (c :: cs) = c :: writeLines indent false cs := by
        simp [writeLines, hbreak]
      have hnext := ih (fun d hd => h d (List.mem_cons_of_mem c hd))
        (fun hmem => htab (List.mem_cons_of_mem c hmem)) (p := p.behind c)
        (by simp [BlockState.isBetween])
      simp only [BlockState.isBetween, hs] at hnext ⊢
      rw [hwritten, List.cons_append, Place.marks_cons (isKept_of_isBreak hbreak), readBlock]
      simp only [Place.mark_char, hbreak, hnext, Bool.false_eq_true, if_false, Option.map_map,
        Place.after_cons]
      rfl

/-- The lines end where the next line is indented too little. -/
theorem readBlock_nextLine (chomping : Chomping) {most indent : Nat} (hindent : most < indent)
    {next : List Char} (h : GoesOn most next) {p : Place} (hp : p.column = 0)
    (last more : List Char) (blank : Bool) :
    readBlock true chomping indent (.between last more blank) (p.marks next) =
      some (chomping.tail last more, lineStart p next) := by
  cases h with
  | done => simp [readBlock, lineStart, toToken]
  | @line n c cs hn hc =>
      have hcolumn : (p.after (margin n)).column = n := by rw [after_margin, hp, Nat.zero_add]
      have hlt : n < indent := Nat.lt_of_le_of_lt hn hindent
      obtain ⟨hspace, htab⟩ : c ≠ ' ' ∧ c ≠ '\t' := by simpa [isBlank] using hc.notBlank
      rw [lineStart_margin hc, read_margin (fun _ _ h => readBlock_space h) (by rw [hp]; omega),
        Place.marks_cons (isKept_of_isBreak hc.notBreak), readBlock]
      simp [hcolumn, hspace, htab, hc.notBreak, Nat.ne_of_lt hlt]

/-- What ends the line of a written value: a line feed, unless the value ends in a break. -/
def lineEnd (written : List Char) : List Char :=
  if written.getLast?.any isBreak then [] else ['\n']

/-- The header of a text keeps all the breaks at its end. -/
def chompingFor (cs : List Char) : Chomping :=
  match cs.reverse with
  | [] => .strip
  | [c] => if isBreak c then .keep else .strip
  | c :: d :: _ => if !isBreak c then .strip else if isBreak d then .keep else .clip

/-- How the end of a text is chomped depends on its last two characters only. -/
theorem chompingFor_concat (cs : List Char) {c d : Char} :
    chompingFor (cs ++ [d] ++ [c]) =
      if !isBreak c then .strip else if isBreak d then .keep else .clip := by
  simp [chompingFor]

/-- The chomping for a text that ends in a break keeps what is pending. -/
theorem tail_chompingFor {cs : List Char} {c : Char} (hc : isBreak c = true) {last more : List Char}
    {blank : Bool}
    (h : (runLines (.between [] [] false) (cs ++ [c])).2 = .between last more blank) :
    (chompingFor (cs ++ [c])).tail last more = last ++ more := by
  rcases List.eq_nil_or_concat cs with rfl | ⟨cs, d, rfl⟩
  · simp [chompingFor, hc, Chomping.tail]
  · rw [List.concat_eq_append] at h ⊢
    rw [chompingFor_concat]
    by_cases hd : isBreak d = true
    · simp [hc, hd, Chomping.tail]
    · -- a single break stands behind the last line
      rw [Bool.not_eq_true] at hd
      obtain ⟨blank', hwithin⟩ := runLines_concat_char (.between [] [] false) cs hd
      rw [runLines_append, hwithin] at h
      simp only [runLines, hc, if_true, BlockState.between.injEq] at h
      obtain ⟨rfl, rfl, -⟩ := h
      simp [hc, hd, Chomping.tail]

/-- **What follows the lines of a text** ends it, and the header keeps all of its breaks. -/
theorem readBlock_lineEnd {most indent : Nat} (hindent : most < indent) {next : List Char}
    (hnext : GoesOn most next) {cs : List Char} (hne : cs ≠ []) {p : Place}
    (hp : (runLines (.between [] [] false) cs).2.isBetween = true → p.column = 0) :
    readBlock true (chompingFor cs) indent (runLines (.between [] [] false) cs).2
        (p.marks (lineEnd cs ++ next)) =
      some ((runLines (.between [] [] false) cs).2.pending,
        lineStart (p.after (lineEnd cs)) next) := by
  obtain ⟨cs, c, rfl⟩ : ∃ ds d, cs = ds ++ [d] :=
    ⟨_, _, (List.dropLast_concat_getLast hne).symm⟩
  by_cases hbreak : isBreak c = true
  · obtain ⟨last, more, blank, hstate⟩ := runLines_concat_break (.between [] [] false) cs hbreak
    have hend : lineEnd (cs ++ [c]) = [] := by simp [lineEnd, hbreak]
    have hline := readBlock_nextLine (chompingFor (cs ++ [c])) hindent hnext
      (hp (by rw [hstate]; rfl)) last more blank
    have htail := tail_chompingFor hbreak hstate
    rw [hstate, hend, List.nil_append, hline, htail]
    rfl
  · rw [Bool.not_eq_true] at hbreak
    obtain ⟨blank, hstate⟩ := runLines_concat_char (.between [] [] false) cs hbreak
    have hend : lineEnd (cs ++ [c]) = ['\n'] := by simp [lineEnd, hbreak]
    have hchomping : chompingFor (cs ++ [c]) = .strip := by
      simp only [chompingFor, List.reverse_append, List.reverse_singleton, List.singleton_append]
      split <;> simp_all
    have hline := readBlock_nextLine .strip hindent hnext (p := p.behind '\n')
      (column_behind_break (by decide) p) ['\n'] [] blank
    rw [hstate, hend, hchomping, List.singleton_append, Place.marks_cons (by decide), readBlock]
    simpa [isBreak_newline, Chomping.tail, BlockState.pending] using hline


/-! ### The header -/

/-- What asks for a chomping in a header. -/
def Chomping.mark : Chomping → List Char
  | strip => ['-']
  | clip => []
  | keep => ['+']

/-- Whether the first line of a text does not show the indentation of its lines. -/
def hidesIndent (cs : List Char) : Bool :=
  cs.head?.any fun c => c == ' ' || isBreak c

/-- The header of a literal text is a bar, the indentation where the first line hides it, and the
mark of the chomping. -/
theorem linesHeader_eq (cs : List Char) : linesHeader cs =
    '|' :: (if hidesIndent cs then ['2'] else []) ++ (chompingFor cs).mark := by
  have hstep : Nat.toDigits 10 indentStep = ['2'] := by decide
  have hhides : (cs.head?.any fun c => c == ' ' || isBreak c) = hidesIndent cs := rfl
  rcases hreverse : cs.reverse with - | ⟨c, - | ⟨d, ds⟩⟩
  · simp [linesHeader, chompingFor, hreverse, hstep, hhides, Chomping.mark]
  · cases hc : isBreak c <;>
      simp [linesHeader, chompingFor, hreverse, hstep, hhides, Chomping.mark, hc]
  · cases hc : isBreak c <;> cases hd : isBreak d <;>
      simp [linesHeader, chompingFor, hreverse, hstep, hhides, Chomping.mark, hc, hd]

/-- The header reads back. -/
theorem readHeader?_linesHeader (cs rest : List Char) (p : Place) :
    readHeader? (p.marks ((linesHeader cs).tail ++ '\n' :: rest)) =
      some (⟨chompingFor cs, if hidesIndent cs then some indentStep else none⟩,
        (p.after (linesHeader cs).tail).marks ('\n' :: rest)) := by
  have hplus : IsKept '+' := by decide
  have hminus : IsKept '-' := by decide
  have htwo : IsKept '2' := by decide
  have hfeed : IsKept '\n' := by decide
  rw [linesHeader_eq]
  cases hidesIndent cs <;> cases chompingFor cs <;>
    simp [Chomping.mark, readHeader?, Place.marks_cons, hplus, hminus, htwo, hfeed, chompingOf?,
      incrementOf?, properIncrement?, indentStep]

/-- A line feed ends the line of the header at once. -/
theorem endLine?_newline (p : Place) (rest : List Char) :
    endLine? (p.marks ('\n' :: rest)) = some ((p.behind '\n').marks rest) := by
  rw [Place.marks_cons (by decide)]
  simp [endLine?, spanChars, isBlank, isBreak_newline]

/-- The first line shows where it starts. -/
theorem firstColumn?_margin {c : Char} (hspace : c ≠ ' ') (htab : c ≠ '\t')
    (hbreak : isBreak c = false) (indent column : Nat) (p : Place) (cs : List Char) :
    firstColumn? 0 column (p.marks (margin indent ++ c :: cs)) = some (p.column + indent) := by
  induction indent generalizing p column with
  | zero =>
      rw [margin, List.replicate_zero, List.nil_append, Place.marks_cons (isKept_of_isBreak hbreak),
        firstColumn?]
      simp [hspace, htab, hbreak]
  | succ indent ih =>
      have hmargin : margin (indent + 1) = ' ' :: margin indent := rfl
      rw [hmargin, List.cons_append, Place.marks_cons (by decide), firstColumn?]
      simp only [Place.mark_char, beq_self_eq_true, if_true]
      rw [ih, Place.behind_of_isBreak (by decide)]
      exact congrArg some (by simp; omega)

/-- Writing the lines of a text leaves its last character the last. -/
theorem exists_writeLines_concat (indent : Nat) (cs : List Char) (c : Char) (afterBreak : Bool) :
    ∃ ds, writeLines indent afterBreak (cs ++ [c]) = ds ++ [c] := by
  induction cs generalizing afterBreak with
  | nil =>
      simp only [List.nil_append, writeLines]
      split
      · exact ⟨[], rfl⟩
      · exact ⟨_, rfl⟩
  | cons d cs ih =>
      simp only [List.cons_append, writeLines]
      split
      · obtain ⟨ds, hds⟩ := ih true
        exact ⟨d :: ds, by rw [hds]; rfl⟩
      · obtain ⟨ds, hds⟩ := ih false
        exact ⟨_ ++ d :: ds, by rw [hds, List.append_assoc]; rfl⟩

/-- A text that is written line by line ends in a break if the text does. -/
theorem lineEnd_writeLiteral (indent : Nat) {cs : List Char} (hne : cs ≠ []) :
    lineEnd (writeLiteral indent cs) = lineEnd cs := by
  obtain ⟨cs, c, rfl⟩ : ∃ ds d, cs = ds ++ [d] :=
    ⟨_, _, (List.dropLast_concat_getLast hne).symm⟩
  obtain ⟨ds, hds⟩ := exists_writeLines_concat indent cs c true
  have hwritten : writeLiteral indent (cs ++ [c]) =
      (linesHeader (cs ++ [c]) ++ '\n' :: ds) ++ [c] := by
    rw [writeLiteral, hds, List.append_assoc, List.cons_append]
  simp only [lineEnd, hwritten, List.getLast?_concat]

/-- Behind a break that ends the lines of a text the reader stands at the start of a line. -/
theorem column_after_writeLines (indent : Nat) (cs : List Char) {p : Place} (hp : p.column = 0)
    (h : (runLines (.between [] [] false) cs).2.isBetween = true) :
    (p.after (writeLines indent true cs)).column = 0 := by
  rcases List.eq_nil_or_concat cs with rfl | ⟨cs, c, rfl⟩
  · exact hp
  · rw [List.concat_eq_append] at h ⊢
    have hbreak : isBreak c = true := by
      cases hc : isBreak c with
      | true => rfl
      | false =>
          obtain ⟨blank, hwithin⟩ := runLines_concat_char (.between [] [] false) cs hc
          rw [hwithin] at h
          exact absurd h (by simp [BlockState.isBetween])
    obtain ⟨ds, hds⟩ := exists_writeLines_concat indent cs c true
    rw [hds, Place.after_append]
    exact column_behind_break hbreak _

/-- Where the header does not give the indentation the first line shows it. -/
theorem firstColumn?_writeLines {indent : Nat} {cs : List Char} (hne : cs ≠ []) (htab : '\t' ∉ cs)
    (hshows : hidesIndent cs = false) {p : Place} (hp : p.column = 0) (rest : List Char) :
    firstColumn? 0 0 (p.marks (writeLines indent true cs ++ rest)) = some indent := by
  obtain ⟨c, cs, rfl⟩ := List.exists_cons_of_ne_nil hne
  obtain ⟨hspace, hbreak⟩ : c ≠ ' ' ∧ isBreak c = false := by simpa [hidesIndent] using hshows
  have hc : c ≠ '\t' := by
    rintro rfl
    exact htab List.mem_cons_self
  have hwritten : writeLines indent true (c :: cs) =
      margin indent ++ c :: writeLines indent false cs := by
    simp [writeLines, hbreak]
  rw [hwritten, List.append_assoc, List.cons_append, firstColumn?_margin hspace hc hbreak, hp,
    Nat.zero_add]

/-- **A text that is written line by line reads back**, and its last line ends. -/
theorem readBlockScalar_writeLiteral {column most : Nat} (hmost : most < column + indentStep)
    {next : List Char} (hnext : GoesOn most next) {cs : List Char} (h : admitsLines cs = true)
    (p : Place) :
    readBlockScalar true (some column) (p.marks ((writeLiteral (column + indentStep) cs).tail ++
        (lineEnd (writeLiteral (column + indentStep) cs) ++ next))) =
      some (cs, lineStart (p.after ((writeLiteral (column + indentStep) cs).tail ++
        lineEnd (writeLiteral (column + indentStep) cs))) next) := by
  simp only [admitsLines, Bool.and_eq_true, Bool.not_eq_true', List.all_eq_true,
    List.isEmpty_eq_false_iff] at h
  obtain ⟨⟨⟨hprintable, -⟩, hne⟩, -⟩ := h
  have hkept : ∀ c ∈ cs, IsKept c := fun c hc => isKept_of_isPrintable (hprintable c hc)
  have htab : '\t' ∉ cs := fun hmem => absurd (hprintable _ hmem) (by decide)
  have htail : (writeLiteral (column + indentStep) cs).tail =
      (linesHeader cs).tail ++ '\n' :: writeLines (column + indentStep) true cs := by
    rw [writeLiteral, linesHeader_eq]
    rfl
  -- the place behind the header
  obtain ⟨q, hq⟩ : ∃ q, q = (p.after (linesHeader cs).tail).behind '\n' := ⟨_, rfl⟩
  have hcolumn : q.column = 0 := hq ▸ column_behind_break (by decide) _
  have hlines := readBlock_writeLines (chompingFor cs) (column + indentStep) hkept htab
    (.between [] [] false) (fun _ => hcolumn) (lineEnd cs ++ next)
  have hend := readBlock_lineEnd hmost hnext hne
    (column_after_writeLines (column + indentStep) cs hcolumn)
  have htext : (runLines (.between [] [] false) cs).1 ++
      (runLines (.between [] [] false) cs).2.pending = cs :=
    runLines_append_pending (.between [] [] false) cs
  simp only [BlockState.isBetween] at hlines
  have hread : readBlock true (chompingFor cs) (column + indentStep) (.between [] [] false)
      (q.marks (writeLines (column + indentStep) true cs ++ (lineEnd cs ++ next))) =
        some (cs, lineStart ((q.after (writeLines (column + indentStep) true cs)).after
          (lineEnd cs)) next) := by
    rw [hlines, hend]
    simp only [Option.map_some, htext]
  rw [lineEnd_writeLiteral _ hne, htail, List.append_assoc, List.cons_append, readBlockScalar,
    readHeader?_linesHeader]
  simp only [Option.bind_eq_bind, Option.bind_some, endLine?_newline, Place.after_append,
    Place.after_cons, ← hq]
  cases hhides : hidesIndent cs with
  | true => simpa using hread
  | false =>
      have hmax : max (column + indentStep) (max (column + 1) 1) = column + indentStep := by
        simp only [indentStep]
        omega
      simp only [Bool.false_eq_true, if_false, firstColumn?_writeLines hne htab hhides hcolumn,
        Option.map_some, Option.elim_some, hmax, Option.bind_some]
      exact hread

/-- The lines of a printable text consist of allowed characters, the margins in front of them
included. -/
theorem isAllowed_writeLines (indent : Nat) {cs : List Char} (h : ∀ c ∈ cs, isPrintable c = true)
    (afterBreak : Bool) : ∀ c ∈ writeLines indent afterBreak cs, isAllowed c = true := by
  induction cs generalizing afterBreak with
  | nil => simp [writeLines]
  | cons c cs ih =>
      have hc := isAllowed_of_isPrintable (h c List.mem_cons_self)
      have hcs := ih fun d hd => h d (List.mem_cons_of_mem c hd)
      intro d hd
      simp only [writeLines] at hd
      split at hd
      · rcases List.mem_cons.mp hd with rfl | hd
        · exact hc
        · exact hcs true d hd
      · rcases List.mem_append.mp hd with hd | hd
        · split at hd
          · exact isAllowed_margin indent d hd
          · simp at hd
        · rcases List.mem_cons.mp hd with rfl | hd
          · exact hc
          · exact hcs false d hd

/-- A printable text is written in allowed characters as a literal. -/
theorem isAllowed_writeLiteral (indent : Nat) {cs : List Char} (h : ∀ c ∈ cs, isPrintable c = true) :
    ∀ c ∈ writeLiteral indent cs, isAllowed c = true := by
  have hheader : ∀ c ∈ linesHeader cs, isAllowed c = true := by
    have hmarks : isAllowed '|' = true ∧ isAllowed '2' = true ∧ isAllowed '-' = true ∧
        isAllowed '+' = true := by decide
    rw [linesHeader_eq]
    cases hidesIndent cs <;> cases chompingFor cs <;> simp [Chomping.mark, hmarks]
  have hfeed : isAllowed '\n' = true := by decide
  simp only [writeLiteral, List.forall_mem_append, List.forall_mem_cons]
  exact ⟨hheader, hfeed, isAllowed_writeLines indent h true⟩

end Outreach.Yaml
