import Outreach.Proofs.Yaml.Scanning

/-!
# Values on the Lines of a YAML Text

Behind a key and its colon, or behind the dash of an item, stands a value on the same line: a scalar
in one of its styles, whose text may go over several lines, or a list without items. The scan reads
it and comes to the start of the next line.

## Main results

* `Scan.Yields.scalar`: **a scalar is read in the style it is written in**.
* `Scan.Yields.dash`, `Scan.Yields.emptyList`: the items of a list, and a list without any.
* `Scan.yields_atLine_nil`: what the end of the text adds.
-/

namespace Outreach.Yaml.Scan

/-! ### Values -/

/-- The possible key at a mark, if a key may start there. -/
def keyHere (keyAllowed : Bool) (columns : List Nat) (number : Nat) (m : Mark) : Option KeyStart :=
  if keyAllowed then some ⟨columns.head? == some m.column, number, m⟩ else none

/-- A place where a key may stand is remembered as that of a possible key. -/
theorem saveKey?_eq (source : Source) (tokens : List Token) (columns : List Nat) (keyAllowed : Bool)
    (m : Mark) :
    (Scan.mk source tokens tokens.length none [] columns keyAllowed).saveKey? m =
      some ⟨source, tokens, tokens.length, keyHere keyAllowed columns tokens.length m, [], columns,
        keyAllowed⟩ := by
  cases keyAllowed <;> simp [saveKey?, keyHere, dropKey?, inFlow]

/-- A possible key within a collection did not have to be one. -/
theorem required_of_mem_keyHere {keyAllowed : Bool} {columns : List Nat} {number : Nat} {m : Mark}
    (hcolumns : ∀ n ∈ columns.head?, n < m.column) :
    ∀ k ∈ keyHere keyAllowed columns number m, k.required = false ∧ k.mark = m := by
  intro k hk
  cases keyAllowed with
  | false => simp [keyHere] at hk
  | true =>
      obtain rfl : _ = k := by simpa [keyHere] using hk
      refine ⟨?_, rfl⟩
      rw [beq_eq_false_iff_ne]
      intro hhead
      exact absurd (hcolumns _ hhead) (Nat.lt_irrefl _)

/-- A key that may start behind a space, within the innermost collection, is on the same line and
did not have to be one. -/
theorem mem_keyHere_behind {columns : List Nat} {column : Nat} {p : Place}
    (hcolumns : columns.head? = some column) (hp : column ≤ p.column) (keyAllowed : Bool)
    (number : Nat) (c : Char) :
    ∀ k ∈ keyHere keyAllowed columns number ((p.behind ' ').mark c),
      k.required = false ∧ k.mark.line = p.line := by
  intro k hk
  have hbehind := Place.behind_of_isBreak (show isBreak ' ' = false by decide) p
  have hcolumn : ∀ n ∈ columns.head?, n < ((p.behind ' ').mark c).column := by
    simpa [hcolumns, hbehind] using Nat.lt_succ_of_le hp
  obtain ⟨hrequired, hmark⟩ := required_of_mem_keyHere hcolumn k hk
  exact ⟨hrequired, by simp [hmark, hbehind]⟩

/-- A token behind a space, within the innermost collection. -/
theorem Yields.token {columns : List Nat} {tokens ts : List Token} {keyAllowed : Bool} {p : Place}
    {c : Char} {rest : List Char} {l : Scan} (hcolumns : ∀ n ∈ columns.head?, n ≤ p.column)
    (hc : IsSolid c)
    (htoken : (inLine columns tokens keyAllowed (p.behind ' ') (c :: rest)).token?
      ((p.behind ' ').mark c) (((p.behind ' ').behind c).marks rest) = some l)
    (hlength : l.source.length ≤ (((p.behind ' ').behind c).marks rest).length)
    (h : l.Yields ts) : (inLine columns tokens keyAllowed p (' ' :: c :: rest)).Yields ts := by
  have hmarks : (p.behind ' ').marks (c :: rest) =
      (p.behind ' ').mark c :: ((p.behind ' ').behind c).marks rest :=
    Place.marks_cons (isKept_of_isBreak hc.notBreak) _ rest
  have hnext : toToken false keyAllowed false (p.marks (' ' :: c :: rest)) =
      (keyAllowed, (p.behind ' ').mark c :: ((p.behind ' ').behind c).marks rest) := by
    rw [toToken_space, toToken_solid hc, hmarks]
  have hcolumn : (p.behind ' ').column = p.column + 1 := by
    rw [Place.behind_of_isBreak (by decide)]
  have hopen : ∀ n ∈ columns.head?, n ≤ p.column + 1 := fun n hn =>
    Nat.le_succ_of_le (hcolumns n hn)
  obtain ⟨hkept, hends⟩ := keptAt_of_le hopen
  have hclose := closeTo_eq ((p.behind ' ').marks (c :: rest)) tokens none columns keyAllowed
    (p.column + 1)
  rw [hkept, hends, List.nil_append] at hclose
  refine Yields.of_token hnext ?_ hlength h
  rw [← hmarks, ← htoken]
  simp [inLine, behind, refreshKeys?, refresh?, hcolumn, hclose]

/-- A written value with the end of its line ends in a break. -/
theorem exists_lineEnd (written : List Char) :
    ∃ ds c, written ++ lineEnd written = ds ++ [c] ∧ isBreak c = true := by
  unfold lineEnd
  split
  · rename_i hbreak
    cases hlast : written.getLast? with
    | none => simp [hlast] at hbreak
    | some c =>
        obtain ⟨ds, rfl⟩ := List.getLast?_eq_some_iff.mp hlast
        exact ⟨ds, c, List.append_nil _, by simpa using hbreak⟩
  · exact ⟨written, '\n', rfl, by decide⟩

/-- Behind a written value and the end of its line comes a later line. -/
theorem after_lineEnd (p : Place) (written : List Char) :
    (p.after (written ++ lineEnd written)).column = 0 ∧
      p.line < (p.after (written ++ lineEnd written)).line := by
  obtain ⟨ds, c, hds, hbreak⟩ := exists_lineEnd written
  have hline := Place.line_le_after p ds
  rw [hds, Place.after_append, Place.after_cons, Place.after_nil, Place.behind]
  simp [hbreak]
  omega

/-- Behind a space, a written value and the end of its line comes a later line. -/
theorem line_lt_after_lineEnd (p : Place) (written : List Char) :
    p.line < ((p.behind ' ').after (written ++ lineEnd written)).line := by
  have hlater := (after_lineEnd (p.behind ' ') written).2
  rwa [show (p.behind ' ').line = p.line by
    rw [Place.behind_of_isBreak (by decide)]] at hlater

/-- A scalar behind a space, up to the start of a later line. -/
theorem Yields.scalar_of_read {columns : List Nat} {tokens ts : List Token} {keyAllowed : Bool}
    {p q : Place} {style : ScalarStyle} {c : Char} {rest text next : List Char} {most : Nat}
    (hcolumns : ∀ n ∈ columns.head?, n ≤ p.column) (hc : IsSolid c) (hgoes : GoesOn most next)
    (hlater : p.line < q.line) {source : Source} {candidate : Option KeyStart} {allowed : Bool}
    (hcandidate : ∀ k ∈ candidate, k.required = false ∧ k.mark.line = p.line)
    (htoken : (inLine columns tokens keyAllowed (p.behind ' ') (c :: rest)).token?
        ((p.behind ' ').mark c) (((p.behind ' ').behind c).marks rest) =
      some ⟨source, .scalar style text :: tokens, tokens.length + 1, candidate, [], columns, allowed⟩)
    (hsource : toToken false allowed false source = (true, lineStart q next))
    (hlength : source.length ≤ (((p.behind ' ').behind c).marks rest).length)
    (h : (atLine columns (.scalar style text :: tokens) q next).Yields ts) :
    (inLine columns tokens keyAllowed p (' ' :: c :: rest)).Yields ts := by
  refine Yields.token hcolumns hc htoken hlength (Yields.of_line hgoes ?_ hsource h)
  intro k hk
  obtain ⟨hrequired, hline⟩ := hcandidate k hk
  exact ⟨hrequired, hline ▸ hlater⟩

/-- The style of a text between quotes. -/
def quotedStyle : Quote → ScalarStyle
  | .single => .singleQuoted
  | .double => .doubleQuoted

/-- A quote starts a quoted scalar, which may be a key. -/
theorem token?_quote (l : Scan) {q : Quote} {m : Mark} {s : Source} (hm : m.char = q.char) :
    l.token? m s = l.keyPart? m ((readQuoted q (.text .none) s).map fun (text, rest) =>
      (.scalar (quotedStyle q) text, rest)) := by
  have hbound : atDocumentBound (m :: s) = false := by
    apply atDocumentBound_of_char <;> rw [hm] <;> cases q <;> decide
  cases q <;> simp [token?, hbound, hm, Quote.char, quotedStyle]

/-- **A text between quotes**, and the end of its line. -/
theorem Yields.quoted {columns : List Nat} {tokens ts : List Token} {keyAllowed : Bool} {p : Place}
    {q : Quote} {column : Nat} {body text next : List Char} (hcolumns : columns.head? = some column)
    (hp : column ≤ p.column) (hgoes : GoesOn column next)
    (hend : lineEnd (q.char :: body) = ['\n'])
    (hread : ∀ p : Place, 0 < p.column →
      readQuoted q (.text .none) (p.marks (body ++ '\n' :: next)) =
        some (text, (p.after body).marks ('\n' :: next)))
    (h : (atLine columns (.scalar (quotedStyle q) text :: tokens)
      ((p.behind ' ').after (q.char :: body ++ ['\n'])) next).Yields ts) :
    (inLine columns tokens keyAllowed p (' ' :: q.char :: (body ++ '\n' :: next))).Yields ts := by
  obtain ⟨o, ho⟩ : ∃ o, o = p.behind ' ' := ⟨_, rfl⟩
  have hquote : IsSolid q.char := by cases q <;> constructor <;> decide
  have hcolumn : 0 < (o.behind q.char).column := by
    rw [Place.behind_of_isBreak hquote.notBreak]
    exact Nat.succ_pos _
  have htext := hread (o.behind q.char) hcolumn
  have hsource : toToken false false false (((o.behind q.char).after body).marks ('\n' :: next)) =
      (true, lineStart (o.after (q.char :: body ++ ['\n'])) next) := by
    rw [toToken_newline]
    simpa [Place.after_append] using (toToken_lineStart hgoes _).1
  have hlater := line_lt_after_lineEnd p (q.char :: body)
  rw [hend, ← ho] at hlater
  refine Yields.scalar_of_read (by simpa [hcolumns] using hp) hquote hgoes hlater
    (mem_keyHere_behind hcolumns hp keyAllowed tokens.length q.char) ?_ hsource ?_ (ho ▸ h)
  · rw [← ho, token?_quote _ rfl, htext]
    simp only [Option.map_some, keyPart?, inLine, saveKey?_eq, Option.bind_eq_bind, Option.bind_some]
    rfl
  · rw [← ho]
    exact Place.length_marks_le _ _ body ('\n' :: next)

/-- How a text is **written** as a scalar in a collection at a column. -/
inductive Writes (column : Nat) (text : List Char) : ScalarStyle → List Char → Prop
  | plain : IsPlain text → Writes column text .plain text
  | single : admitsQuotes text = true →
      Writes column text .singleQuoted (writeSingle (column + indentStep) text)
  | double : Writes column text .doubleQuoted (writeDouble text)
  | literal : admitsLines text = true →
      Writes column text .literal (writeLiteral (column + indentStep) text)

/-- What is written has no characters that may not occur. -/
theorem Writes.isAllowed {column : Nat} {text written : List Char} {style : ScalarStyle}
    (h : Writes column text style written) : ∀ c ∈ written, Yaml.isAllowed c = true := by
  cases h with
  | plain hplain => exact fun c hc => isAllowed_of_isPrintable (hplain.printable c hc)
  | single hadmits =>
      have hprintable : ∀ c ∈ text, isPrintable c = true := by
        simp only [admitsQuotes, Bool.and_eq_true, List.all_eq_true] at hadmits
        exact hadmits.1.1
      have hquote : Yaml.isAllowed '\'' = true := by decide
      simp only [writeSingle, List.cons_append, List.forall_mem_cons, List.forall_mem_append,
        List.not_mem_nil, false_implies, implies_true, and_true]
      exact ⟨hquote, isAllowed_writeSingleBody _ hprintable false, hquote⟩
  | double => exact isAllowed_writeDouble text
  | literal hadmits =>
      have hprintable : ∀ c ∈ text, isPrintable c = true := by
        simp only [admitsLines, Bool.and_eq_true, List.all_eq_true] at hadmits
        exact hadmits.1.1.1
      exact isAllowed_writeLiteral _ hprintable

/-- A text that does not end in a break needs a line feed to end its line. -/
theorem lineEnd_concat {c : Char} (hc : isBreak c = false) (cs : List Char) :
    lineEnd (cs ++ [c]) = ['\n'] := by
  simp [lineEnd, hc]

/-- **A text that is written plainly**, and the end of its line. -/
theorem Yields.plain {columns : List Nat} {tokens ts : List Token} {keyAllowed : Bool} {p : Place}
    {column : Nat} {text next : List Char} (hcolumns : columns.head? = some column)
    (hp : column ≤ p.column) (hplain : IsPlain text) (hgoes : GoesOn column next)
    (hend : lineEnd text = ['\n'])
    (h : (atLine columns (.scalar .plain text :: tokens)
      ((p.behind ' ').after (text ++ ['\n'])) next).Yields ts) :
    (inLine columns tokens keyAllowed p (' ' :: (text ++ '\n' :: next))).Yields ts := by
  obtain ⟨o, ho⟩ : ∃ o, o = p.behind ' ' := ⟨_, rfl⟩
  have hcolumn : column + 1 ≤ o.column := by
    rw [ho, Place.behind_of_isBreak (by decide)]
    exact Nat.succ_le_succ hp
  have hread := hplain.readPlain_eq (Nat.lt_add_one column) hgoes hcolumn
  have hlater := line_lt_after_lineEnd p text
  rw [hend, ← ho] at hlater
  obtain ⟨c, cs, rfl⟩ := List.exists_cons_of_ne_nil hplain.ne_nil
  obtain ⟨hleading, -, hsign⟩ := hplain.leading c rfl
  have hc := hplain.isSolid
  have hbound := atDocumentBound_of_column (m := o.mark c) (Nat.zero_lt_of_lt hcolumn)
    ((o.behind c).marks (cs ++ '\n' :: next))
  have hgap := atGap_marks (fun d hd => hplain.notBreak d (List.mem_cons_of_mem c hd)) next
    (o.behind c)
  have hmarks : o.marks (c :: cs ++ '\n' :: next) =
      o.mark c :: (o.behind c).marks (cs ++ '\n' :: next) :=
    Place.marks_cons (isKept_of_isBreak hc.notBreak) o _
  rw [List.cons_append]
  refine Yields.scalar_of_read (by simpa [hcolumns] using hp) hc hgoes hlater
    (mem_keyHere_behind hcolumns hp keyAllowed tokens.length c) ?_
    (toToken_lineStart hgoes _).2 ?_ (ho ▸ h)
  · rw [hmarks] at hread
    rw [← ho, token?_plain (l := inLine ..) rfl hbound hc.notBlank hleading
      fun h => hgap.trans (hsign h)]
    simp only [plain?, inLine, saveKey?_eq, Option.bind_eq_bind, Option.bind_some, inFlow,
      hcolumns, Option.elim_some, List.isEmpty_nil, Bool.not_true, hread]
    simp [add, behind, Place.after_append]
  · have := length_lineStart_le (o.after (c :: cs ++ ['\n'])) (o.behind c) (cs ++ ['\n']) next
    rw [← ho]
    rwa [List.append_assoc, List.singleton_append] at this

/-- **A text that is written line by line.** -/
theorem Yields.lines {columns : List Nat} {tokens ts : List Token} {keyAllowed : Bool} {p : Place}
    {column : Nat} {text written next : List Char} (hcolumns : columns.head? = some column)
    (hp : column ≤ p.column) (hadmits : admitsLines text = true) (hgoes : GoesOn column next)
    (hwritten : written = writeLiteral (column + indentStep) text)
    (h : (atLine columns (.scalar .literal text :: tokens)
      ((p.behind ' ').after (written ++ lineEnd written)) next).Yields ts) :
    (inLine columns tokens keyAllowed p (' ' :: (written ++ (lineEnd written ++ next)))).Yields ts := by
  obtain ⟨o, ho⟩ : ∃ o, o = p.behind ' ' := ⟨_, rfl⟩
  have hbar : IsSolid '|' := ⟨by decide, by decide, by decide, by decide⟩
  have hlater := ho ▸ line_lt_after_lineEnd p written
  have hread := readBlockScalar_writeLiteral (Nat.lt_add_of_pos_right (by decide)) hgoes hadmits
    (o.behind '|')
  rw [← hwritten] at hread
  obtain ⟨e, he⟩ : ∃ e, e = lineEnd written := ⟨_, rfl⟩
  obtain ⟨body, hbody⟩ : ∃ body, written = '|' :: body := ⟨_, by rw [hwritten]; rfl⟩
  have hbound := atDocumentBound_of_char (m := o.mark '|') (by simp) (by simp)
    ((o.behind '|').marks (body ++ (e ++ next)))
  rw [← he] at hread hlater h ⊢
  rw [hbody] at hread hlater h ⊢
  rw [List.tail_cons] at hread
  rw [List.cons_append]
  refine Yields.scalar_of_read (by simpa [hcolumns] using hp) hbar hgoes hlater
    (fun _ (hk : _ ∈ none) => nomatch hk) ?_ (toToken_lineStart hgoes _).2 ?_ (ho ▸ h)
  · rw [← ho]
    simp [token?, hbound, inFlow, inLine, blockScalar?, dropKey?, hcolumns, hread, add, behind]
  · have := length_lineStart_le (o.after ('|' :: body ++ e)) (o.behind '|') (body ++ e) next
    rw [← ho]
    rwa [List.append_assoc] at this

/-- **A scalar** as it is written, and the end of its line. -/
theorem Yields.scalar {columns : List Nat} {tokens ts : List Token} (keyAllowed : Bool) {p : Place}
    {style : ScalarStyle} {column : Nat} {written text next : List Char}
    (hcolumns : columns.head? = some column) (hp : column ≤ p.column)
    (hwrites : Writes column text style written) (hgoes : GoesOn column next)
    (h : (atLine columns (.scalar style text :: tokens)
      ((p.behind ' ').after (written ++ lineEnd written)) next).Yields ts) :
    (inLine columns tokens keyAllowed p (' ' :: (written ++ (lineEnd written ++ next)))).Yields ts := by
  cases hwrites with
  | plain hplain =>
      have hend : lineEnd written = ['\n'] := by
        have hlast := hplain.notBreak _ (List.getLast_mem hplain.ne_nil)
        rw [← List.dropLast_concat_getLast hplain.ne_nil, lineEnd_concat hlast]
      rw [hend] at h ⊢
      exact Yields.plain hcolumns hp hplain hgoes hend h
  | single hadmits =>
      obtain ⟨body, hbody⟩ : ∃ body, body = writeSingleBody (column + indentStep) false text :=
        ⟨_, rfl⟩
      have hwritten :
          writeSingle (column + indentStep) text = Quote.single.char :: (body ++ ['\'']) := by
        rw [hbody]
        rfl
      have hend : lineEnd (Quote.single.char :: (body ++ ['\''])) = ['\n'] :=
        lineEnd_concat (by decide) (Quote.single.char :: body)
      rw [hwritten, hend] at h ⊢
      refine Yields.quoted (q := .single) hcolumns hp hgoes hend ?_ h
      intro p hp
      have hreads : SingleReads (column + indentStep) text false :=
        singleReads_of_admitsQuotes (by simp [indentStep]) hadmits false
      have hread := @hreads .none p trivial (fun _ => hp) ('\n' :: next) (by simp)
      simpa [hbody, Gap.text, Place.after_append] using hread
  | double =>
      have hwritten : writeDouble text = Quote.double.char :: (writeDouble text).tail := rfl
      have hend : lineEnd (Quote.double.char :: (writeDouble text).tail) = ['\n'] := by
        rw [← hwritten]
        exact lineEnd_concat (by decide) _
      rw [hwritten, hend] at h ⊢
      exact Yields.quoted (q := .double) hcolumns hp hgoes hend
        (fun p hp => readQuoted_writeDouble text hp _) h
  | literal hadmits => exact Yields.lines hcolumns hp hadmits hgoes rfl h

/-! ### Lists -/

/-- **The dash** of an item of a list at the column of its mapping. -/
theorem Yields.dash {columns : List Nat} {tokens ts : List Token} {column : Nat} {p : Place}
    {rest : List Char} (hp : p.column = 0) (hcolumns : columns.head? = some column)
    (h : (inLine columns (.blockEntry :: tokens) true ((p.after (margin column)).behind '-')
      (' ' :: rest)).Yields ts) :
    (atLine columns tokens p (margin column ++ '-' :: ' ' :: rest)).Yields ts := by
  obtain ⟨q, hq⟩ : ∃ q, q = p.after (margin column) := ⟨_, rfl⟩
  have hcolumn : q.column = column := by rw [hq, after_margin, hp, Nat.zero_add]
  have hdash : IsSolid '-' := ⟨by decide, by decide, by decide, by decide⟩
  have hmarks : q.marks ('-' :: ' ' :: rest) = q.mark '-' :: (q.behind '-').marks (' ' :: rest) :=
    Place.marks_cons (by decide) q _
  have hspace : (q.behind '-').marks (' ' :: rest) =
      (q.behind '-').mark ' ' :: ((q.behind '-').behind ' ').marks rest :=
    Place.marks_cons (by decide) _ _
  have hsource : lineStart p (margin column ++ '-' :: ' ' :: rest) =
      q.mark '-' :: (q.behind '-').marks (' ' :: rest) := by
    rw [lineStart_margin hdash, ← hq, hmarks]
  have hnext := toToken_solid hdash false true q (' ' :: rest)
  rw [hmarks] at hnext
  have hbound : atDocumentBound (q.mark '-' :: (q.behind '-').marks (' ' :: rest)) = false := by
    rw [hspace]
    cases (((q.behind '-').behind ' ').marks rest) <;> simp [atDocumentBound]
  have hopen : ∀ n ∈ columns.head?, n ≤ column := by simp [hcolumns]
  obtain ⟨hkept, hends⟩ := keptAt_of_le hopen
  have hclose := closeTo_eq (q.mark '-' :: (q.behind '-').marks (' ' :: rest)) tokens none columns
    true column
  rw [hkept, hends, List.nil_append] at hclose
  have hgap : atGap ((q.behind '-').marks (' ' :: rest)) = true := by
    rw [hspace]
    simp [atGap, isBlank]
  rw [atLine, hsource]
  refine Yields.of_token hnext ?_ (Nat.le_refl _) (hq ▸ h)
  simp only [behind, refreshKeys?, refresh?, List.mapM_nil, Option.pure_def, Option.bind_eq_bind,
    Option.bind_some, Place.mark_column, hcolumn, hclose]
  simp [token?, hbound, hgap, blockIndicator?, inFlow, openBlock, hcolumns, hcolumn, dropKey?, add,
    behind, inLine]

/-- **A list without items**, and the end of its line. -/
theorem Yields.emptyList {columns : List Nat} {tokens ts : List Token} {p : Place}
    {next : List Char} {most : Nat} (hcolumns : ∀ n ∈ columns.head?, n ≤ p.column)
    (hgoes : GoesOn most next)
    (h : (atLine columns (.flowSequenceEnd :: .flowSequenceStart :: tokens)
      (p.after [' ', '[', ']', '\n']) next).Yields ts) :
    (inLine columns tokens false p (' ' :: '[' :: ']' :: '\n' :: next)).Yields ts := by
  obtain ⟨o, ho⟩ : ∃ o, o = p.behind ' ' := ⟨_, rfl⟩
  have hopen : IsSolid '[' := ⟨by decide, by decide, by decide, by decide⟩
  have hclose : IsSolid ']' := ⟨by decide, by decide, by decide, by decide⟩
  have hend : (Scan.mk (((o.behind '[').behind ']').marks ('\n' :: next))
      (.flowSequenceEnd :: .flowSequenceStart :: tokens) (tokens.length + 2) none [] columns
      false).Yields ts := by
    refine Yields.of_line hgoes (by simp) ?_ h
    rw [toToken_newline]
    simpa [ho] using (toToken_lineStart hgoes _).1
  have hwithin : (Scan.mk ((o.behind '[').marks (']' :: '\n' :: next)) (.flowSequenceStart :: tokens)
      (tokens.length + 1) none [none] columns true).Yields ts := by
    have hnext := toToken_solid hclose true true (o.behind '[') ('\n' :: next)
    have hmarks : (o.behind '[').marks (']' :: '\n' :: next) =
        (o.behind '[').mark ']' :: ((o.behind '[').behind ']').marks ('\n' :: next) :=
      Place.marks_cons (by decide) _ _
    rw [hmarks] at hnext ⊢
    have hbound := atDocumentBound_of_char (m := (o.behind '[').mark ']') (by simp) (by simp)
      (((o.behind '[').behind ']').marks ('\n' :: next))
    refine Yields.of_token hnext ?_ (Nat.le_refl _) hend
    simp [refreshKeys?, refresh?, behind, closeTo, inFlow, token?, hbound, closeFlow?, dropKey?, add]
  have hbound := atDocumentBound_of_char (m := o.mark '[') (by simp) (by simp)
    ((o.behind '[').marks (']' :: '\n' :: next))
  subst ho
  refine Yields.token hcolumns hopen ?_ (Nat.le_refl _) hwithin
  simp [token?, hbound, openFlow?, inLine, saveKey?, add, behind]

/-- **The end of a text** ends the open collections. -/
theorem yields_atLine_nil (columns : List Nat) (tokens : List Token) (p : Place) :
    (atLine columns tokens p []).Yields
      (tokens.reverse ++ List.replicate columns.length .blockEnd) := by
  intro steps hsteps
  rcases steps with - | steps
  · exact absurd hsteps (Nat.not_lt_zero _)
  · have hnil : lineStart p [] = [] := by simp [lineStart, toToken]
    have hnext : toToken (atLine columns tokens p []).inFlow (atLine columns tokens p []).keyAllowed
        false (atLine columns tokens p []).source = (true, []) := by
      simp [atLine, hnil, toToken]
    rw [run?_nil hnext]
    simp [atLine, behind, finish?, closeAll, inFlow, closeBlocks, dropKey?]

end Outreach.Yaml.Scan
