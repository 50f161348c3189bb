import Outreach.Proofs.Yaml.Literal

/-!
# Scanning a Text Line by Line

A scan of a text is followed from line to line. What it remembers at the start of a line are the
tokens so far and the columns of the open collections; a possible key on an earlier line is none
any more. So the scan at the start of a line is given by these, whatever stood on the lines before.

## Main results

* `Scan.Yields.of_token`: a scan yields what it yields behind its next token.
* `Scan.Yields.of_line`: at the start of a line only the tokens and the columns count.
* `Scan.Yields.key`: a key at the start of a line, with its colon.
-/

namespace Outreach.Yaml.Scan

/-- Going to the next token does not lengthen the source. -/
theorem length_toToken_le (inFlow keyAllowed comment : Bool) (s : Source) :
    (toToken inFlow keyAllowed comment s).2.length ≤ s.length := by
  fun_induction toToken inFlow keyAllowed comment s with
  | case1 => exact Nat.le_refl _
  | case2 keyAllowed comment m s hbreak ih => exact Nat.le_succ_of_le ih
  | case3 keyAllowed m s hbreak ih => exact Nat.le_succ_of_le ih
  | case4 keyAllowed comment m s hbreak hcomment hpass ih => exact Nat.le_succ_of_le ih
  | case5 keyAllowed comment m s hbreak hcomment hpass hmark ih => exact Nat.le_succ_of_le ih
  | case6 => exact Nat.le_refl _

/-- What is left at the start of the next line is no longer than the text in front of it. -/
theorem length_lineStart_le (p q : Place) (cs next : List Char) :
    (lineStart p next).length ≤ (q.marks (cs ++ next)).length :=
  Nat.le_trans (length_toToken_le false true false _) (Place.length_marks_le q p cs next)

/-- Reading on from a scan **yields** the tokens of the whole text. -/
def Yields (l : Scan) (ts : List Token) : Prop :=
  ∀ steps, l.source.length < steps → l.run? steps = some ts

section Run

variable {l : Scan} {keyAllowed : Bool}

/-- At the end of the text. -/
theorem run?_nil (h : toToken l.inFlow l.keyAllowed false l.source = (keyAllowed, []))
    (steps : Nat) : l.run? (steps + 1) = (l.behind [] keyAllowed).finish? := by
  rw [run?, h]

/-- One more token. -/
theorem run?_cons {m : Mark} {s : Source}
    (h : toToken l.inFlow l.keyAllowed false l.source = (keyAllowed, m :: s)) (steps : Nat) :
    l.run? (steps + 1) = ((l.behind (m :: s) keyAllowed).refreshKeys? m).bind fun l =>
      ((l.closeTo m.column).token? m s).bind (run? steps) := by
  rw [run?, h]
  rfl

end Run

/-- **A scan yields what it yields behind its next token.** -/
theorem Yields.of_token {l l' : Scan} {ts : List Token} {keyAllowed : Bool} {m : Mark} {s : Source}
    (hnext : toToken l.inFlow l.keyAllowed false l.source = (keyAllowed, m :: s))
    (htoken : (((l.behind (m :: s) keyAllowed).refreshKeys? m).bind fun l =>
      (l.closeTo m.column).token? m s) = some l')
    (hlength : l'.source.length ≤ s.length) (h : l'.Yields ts) : l.Yields ts := by
  intro steps hsteps
  rcases steps with - | steps
  · exact absurd hsteps (Nat.not_lt_zero _)
  · have hle := length_toToken_le l.inFlow l.keyAllowed false l.source
    rw [hnext, List.length_cons] at hle
    obtain ⟨k, hk, htoken⟩ := Option.bind_eq_some_iff.mp htoken
    rw [run?_cons hnext]
    simp only [hk, Option.bind_some, htoken]
    exact h steps (by omega)

/-- A scan at the start of a line outside of brackets, with what it remembers. -/
def atLine (columns : List Nat) (tokens : List Token) (p : Place) (next : List Char) : Scan :=
  ⟨lineStart p next, tokens, tokens.length, none, [], columns, true⟩

/-- A scan within a line outside of brackets, with no possible key behind it. -/
def inLine (columns : List Nat) (tokens : List Token) (keyAllowed : Bool) (p : Place)
    (rest : List Char) : Scan :=
  ⟨p.marks rest, tokens, tokens.length, none, [], columns, keyAllowed⟩

/-- **At the start of a line** only the tokens and the columns count: a possible key on an earlier
line that did not have to be one is none any more. -/
theorem Yields.of_line {columns : List Nat} {tokens ts : List Token} {source : Source}
    {candidate : Option KeyStart} {keyAllowed : Bool} {most : Nat} {next : List Char} {p : Place}
    (hgoes : GoesOn most next)
    (hcandidate : ∀ k ∈ candidate, k.required = false ∧ k.mark.line < p.line)
    (hsource : toToken false keyAllowed false source = (true, lineStart p next))
    (h : (atLine columns tokens p next).Yields ts) :
    (Scan.mk source tokens tokens.length candidate [] columns keyAllowed).Yields ts := by
  intro steps hsteps
  have hle := length_toToken_le false keyAllowed false source
  rw [hsource] at hle
  have hline := h steps (Nat.lt_of_le_of_lt hle hsteps)
  have hstart : toToken (atLine columns tokens p next).inFlow (atLine columns tokens p next).keyAllowed
      false (atLine columns tokens p next).source = (true, lineStart p next) :=
    (toToken_lineStart hgoes p).2
  rcases steps with - | steps
  · exact absurd hsteps (Nat.not_lt_zero _)
  obtain ⟨l, hl⟩ : ∃ l : Scan,
      l = ⟨source, tokens, tokens.length, candidate, [], columns, keyAllowed⟩ := ⟨_, rfl⟩
  have hsource' : toToken l.inFlow l.keyAllowed false l.source = (true, lineStart p next) := by
    rw [hl]
    exact hsource
  rw [← hline, ← hl]
  cases hgoes with
  | done =>
      have hnil : lineStart p [] = [] := by simp [lineStart, toToken]
      rw [hnil] at hsource' hstart
      rw [run?_nil hsource', run?_nil hstart, hl]
      rcases candidate with - | k
      · rfl
      · have hrequired := (hcandidate k rfl).1
        simp [atLine, behind, finish?, closeAll, inFlow, closeBlocks, dropKey?, hrequired]
  | @line indent c cs _ hc =>
      have hmarks : lineStart p (margin indent ++ c :: cs) =
          (p.after (margin indent)).mark c :: ((p.after (margin indent)).behind c).marks cs := by
        rw [lineStart_margin hc, Place.marks_cons (isKept_of_isBreak hc.notBreak)]
      rw [hmarks] at hsource' hstart
      rw [run?_cons hsource', run?_cons hstart, hl]
      have hrefresh : refresh? ((p.after (margin indent)).mark c) candidate = some none := by
        rcases candidate with - | k
        · rfl
        · obtain ⟨hrequired, hearlier⟩ := hcandidate k rfl
          simp [refresh?, after_margin, hearlier, hrequired]
      simp only [atLine, behind, refreshKeys?, hrefresh]
      rfl

/-! ### Keys -/

/-- A character that a key can be written with as it is. -/
def isKeyChar (c : Char) : Bool :=
  !isIndicator c && !isBlank c && !isBreak c && c != '.' && c != byteOrderMark

/-- A text that is written plainly and is short enough for a key. -/
structure IsKey (name : List Char) : Prop where
  ne_nil : name ≠ []
  chars : ∀ c ∈ name, isKeyChar c = true
  allowed : ∀ c ∈ name, isAllowed c = true
  short : byteLength name ≤ keyLimit

instance : DecidablePred IsKey := fun name =>
  decidable_of_iff (name ≠ [] ∧ name.all isKeyChar = true ∧ name.all isAllowed = true ∧
      byteLength name ≤ keyLimit) <| by
    rw [List.all_eq_true, List.all_eq_true]
    exact ⟨fun ⟨hne, hchars, hallowed, hshort⟩ => ⟨hne, hchars, hallowed, hshort⟩,
      fun ⟨hne, hchars, hallowed, hshort⟩ => ⟨hne, hchars, hallowed, hshort⟩⟩

/-- What starts a plain scalar: a character that is no indicator, or one that is none in front of
what follows it. -/
theorem token?_plain {l : Scan} {m : Mark} {s : Source} (hflow : l.inFlow = false)
    (hbound : atDocumentBound (m :: s) = false) (hblank : isBlank m.char = false)
    (hleading : isLeadingIndicator m.char = false)
    (hgap : m.char = '?' ∨ m.char = ':' ∨ m.char = '-' → atGap s = false) :
    l.token? m s = l.plain? m s := by
  have hgap' : atGap s = false → s.head?.any (isBlank ·.char) = false := by
    rcases s with - | ⟨n, s⟩
    · simp
    · simp only [atGap, Bool.or_eq_false_iff, List.head?_cons, Option.any_some]
      exact And.left
  have hstarts : l.startsPlain m.char s = true := by
    by_cases hdash : m.char = '-'
    · simp [startsPlain, hdash, hgap' (hgap (.inr (.inr hdash)))]
    · by_cases hmark : m.char = '?' ∨ m.char = ':'
      · have hs : atGap s = false := hgap (hmark.imp_right .inl)
        rcases hmark with hmark | hmark <;> simp [startsPlain, hmark, hs, hflow]
      · have hindicator : isIndicator m.char = false := by
          simp only [isLeadingIndicator, isIndicator] at hleading ⊢
          simp_all
        simp [startsPlain, hindicator, hblank]
  have hne : ∀ d, isLeadingIndicator d = true → (m.char == d) = false := by
    intro d hd
    rw [beq_eq_false_iff_ne]
    rintro rfl
    rw [hleading] at hd
    exact absurd hd (by decide)
  have hsign : ∀ d, d = '?' ∨ d = ':' ∨ d = '-' → (m.char == d && atGap s) = false := by
    intro d hd
    rw [Bool.and_eq_false_imp]
    intro hm
    exact hgap ((beq_iff_eq.mp hm) ▸ hd)
  simp [token?, hflow, hbound, hstarts, hne '%' rfl, hne '[' rfl, hne '\x7b' rfl, hne ']' rfl,
    hne '\x7d' rfl, hne ',' rfl, hne '*' rfl, hne '&' rfl, hne '!' rfl, hne '|' rfl, hne '>' rfl,
    hne '\'' rfl, hne '"' rfl, hsign '-' (by simp), hsign '?' (by simp), hsign ':' (by simp)]

/-- The text of a key reads back, and its colon follows. -/
theorem readPlain_key (indent : Nat) {name rest : List Char} (h : ∀ c ∈ name, isKeyChar c = true)
    (hrest : ∀ p : Place, atGap (p.marks rest) = true) (p : Place) :
    readPlain ⟨false, indent⟩ .none (p.marks (name ++ ':' :: rest)) =
      some (name, false, (p.after name).marks (':' :: rest)) := by
  induction name generalizing p with
  | nil =>
      have hcolon : isBlank ':' = false ∧ isBreak ':' = false := by decide
      rw [List.nil_append, Place.marks_cons (by decide), readPlain]
      simp [hcolon, hrest, Gap.hasBreak, Place.marks_cons (show IsKept ':' by decide)]
  | cons c name ih =>
      have hc := h c List.mem_cons_self
      simp only [isKeyChar, Bool.and_eq_true, Bool.not_eq_true', bne_iff_ne] at hc
      obtain ⟨⟨⟨⟨hindicator, hblank⟩, hbreak⟩, -⟩, -⟩ := hc
      have hcolon : c ≠ ':' := by
        rintro rfl
        exact absurd hindicator (by decide)
      rw [List.cons_append, Place.marks_cons (isKept_of_isBreak hbreak), readPlain]
      simp [hblank, hbreak, hcolon, ih (fun d hd => h d (List.mem_cons_of_mem c hd)), Gap.text]

/-- The first character of a key starts a plain scalar. -/
theorem starts_of_isKeyChar {c : Char} (h : isKeyChar c = true) :
    isLeadingIndicator c = false ∧ isBlank c = false ∧ c ≠ '.' ∧
      ¬(c = '?' ∨ c = ':' ∨ c = '-') := by
  simp only [isKeyChar, Bool.and_eq_true, Bool.not_eq_true', bne_iff_ne] at h
  obtain ⟨⟨⟨⟨hindicator, hblank⟩, -⟩, hdot⟩, -⟩ := h
  refine ⟨?_, hblank, hdot, ?_⟩
  · simp only [isIndicator, isLeadingIndicator] at hindicator ⊢
    simp_all
  · rintro (rfl | rfl | rfl) <;> exact absurd hindicator (by decide)

/-- A character of a key is solid, so a key starts a token. -/
theorem isSolid_of_isKeyChar {c : Char} (h : isKeyChar c = true) : IsSolid c := by
  simp only [isKeyChar, Bool.and_eq_true, Bool.not_eq_true', bne_iff_ne] at h
  obtain ⟨⟨⟨⟨hindicator, hblank⟩, hbreak⟩, -⟩, hmark⟩ := h
  refine ⟨hblank, hbreak, ?_, hmark⟩
  rintro rfl
  exact absurd hindicator (by decide)

/-- The open collections that go on at a column. -/
def keptAt (column : Nat) (columns : List Nat) : List Nat :=
  columns.dropWhile (column < ·)

/-- The ends of the open collections that do not go on at a column. -/
def endsAt (column : Nat) (columns : List Nat) : List Token :=
  List.replicate (columns.takeWhile (column < ·)).length .blockEnd

/-- Closing the blocks that are deeper than a column ends each of them and keeps the others open. -/
theorem closeTo_eq (source : Source) (tokens : List Token) (candidate : Option KeyStart)
    (columns : List Nat) (keyAllowed : Bool) (column : Nat) :
    (Scan.mk source tokens tokens.length candidate [] columns keyAllowed).closeTo column =
      ⟨source, endsAt column columns ++ tokens, (endsAt column columns ++ tokens).length, candidate,
        [], keptAt column columns, keyAllowed⟩ := by
  have hdrop : columns.drop (columns.takeWhile (column < ·)).length = keptAt column columns := by
    calc columns.drop (columns.takeWhile (column < ·)).length
        = (columns.takeWhile (column < ·) ++ columns.dropWhile (column < ·)).drop
            (columns.takeWhile (column < ·)).length := by rw [List.takeWhile_append_dropWhile]
      _ = keptAt column columns := List.drop_left
  simp [closeTo, inFlow, closeBlocks, hdrop, endsAt, Nat.add_comm]

/-- A collection that goes on at a column is not deeper. -/
theorem le_of_head?_keptAt {column n : Nat} {columns : List Nat}
    (h : (keptAt column columns).head? = some n) : n ≤ column := by
  have hnot := List.head?_dropWhile_not (column < ·) columns
  rw [keptAt] at h
  rw [h] at hnot
  simpa using hnot

/-- The columns behind a key at a column. -/
def columnsAfterKey (column : Nat) (columns : List Nat) : List Nat :=
  if columns.head? = some column then columns else column :: columns

/-- What starts the collection of a key at a column, if none goes on there. -/
def startsAt (column : Nat) (columns : List Nat) : List Token :=
  if columns.head? = some column then [] else [.blockMappingStart]

/-- A column behind the open collections ends none of them. -/
theorem keptAt_of_le {column : Nat} {columns : List Nat} (h : ∀ n ∈ columns.head?, n ≤ column) :
    keptAt column columns = columns ∧ endsAt column columns = [] := by
  rcases columns with - | ⟨n, columns⟩
  · exact ⟨rfl, rfl⟩
  · have hn : ¬ column < n := Nat.not_lt.mpr (h n rfl)
    simp [keptAt, endsAt, hn]

/-- What stands in front of a colon becomes a key, and starts a collection if none goes on at its
column. -/
theorem value?_eq {columns : List Nat} {m : Mark} (source s : Source) (before : List Token)
    (t : Token) (n : Mark) (required : Bool) (hopen : ∀ n ∈ columns.head?, n ≤ m.column) :
    (Scan.mk source (t :: before) (before.length + 1) (some ⟨required, before.length, m⟩) [] columns
        false).value? n s =
      some ⟨s, .value :: t :: .key :: (startsAt m.column columns ++ before),
        (Token.value :: t :: .key :: (startsAt m.column columns ++ before)).length, none, [],
        columnsAfterKey m.column columns, false⟩ := by
  have hnumber : before.length + 1 - before.length = 1 := by omega
  have hnumber' : before.length + 1 + 1 - before.length = 2 := by omega
  by_cases hhead : columns.head? = some m.column
  · simp [value?, addAt, openBlock, inFlow, add, behind, startsAt, columnsAfterKey, hhead, hnumber]
  · have hlt : (columns.head?.any (m.column ≤ ·)) = false := by
      rcases columns with - | ⟨n, columns⟩
      · rfl
      · have := hopen n rfl
        simp only [List.head?_cons, Option.some.injEq] at hhead
        simp
        omega
    simp [value?, addAt, openBlock, inFlow, add, behind, startsAt, columnsAfterKey, hhead, hnumber,
      hnumber', hlt]

/-- **The colon** of a key that stands on its line. -/
theorem Yields.colon {columns : List Nat} {before ts : List Token} {t : Token} {m : Mark}
    {required : Bool} {p : Place} {rest : List Char} (hopen : ∀ n ∈ columns.head?, n ≤ m.column)
    (hcolumn : m.column < p.column) (hline : m.line = p.line) (hshort : p.index ≤ m.index + keyLimit)
    (hrest : ∀ p : Place, atGap (p.marks rest) = true)
    (h : (inLine (columnsAfterKey m.column columns)
      (.value :: t :: .key :: (startsAt m.column columns ++ before)) false (p.behind ':')
      rest).Yields ts) :
    (Scan.mk (p.marks (':' :: rest)) (t :: before) (before.length + 1)
      (some ⟨required, before.length, m⟩) [] columns false).Yields ts := by
  have hsolid : IsSolid ':' := ⟨by decide, by decide, by decide, by decide⟩
  have hnext := toToken_solid hsolid false false p rest
  have hmarks : p.marks (':' :: rest) = p.mark ':' :: (p.behind ':').marks rest :=
    Place.marks_cons (by decide) p rest
  rw [hmarks] at hnext ⊢
  refine Yields.of_token hnext ?_ (Nat.le_refl _) h
  have hbound := atDocumentBound_of_char (m := p.mark ':') (by simp) (by simp)
    ((p.behind ':').marks rest)
  have hrefresh : refresh? (p.mark ':') (some ⟨required, before.length, m⟩) =
      some (some ⟨required, before.length, m⟩) := by
    simp [refresh?, hline, Nat.not_lt.mpr hshort]
  obtain ⟨hkept, hends⟩ := keptAt_of_le fun n hn =>
    Nat.le_trans (hopen n hn) (Nat.le_of_lt hcolumn)
  have hclose := closeTo_eq (p.mark ':' :: (p.behind ':').marks rest) (t :: before)
    (some ⟨required, before.length, m⟩) columns false p.column
  rw [hkept, hends, List.nil_append, List.length_cons] at hclose
  have hvalue := value?_eq (p.mark ':' :: (p.behind ':').marks rest) ((p.behind ':').marks rest)
    before t (p.mark ':') required hopen
  simp [behind, refreshKeys?, hrefresh, hclose, token?, hbound, hrest, hvalue, inLine]

/-- The tokens of a key, the last one first. It ends the deeper collections, and starts one if none
goes on at its column. -/
def keyTokens (column : Nat) (columns : List Nat) (name : List Char) : List Token :=
  .value :: .scalar .plain name :: .key ::
    (startsAt column (keptAt column columns) ++ endsAt column columns)

/-- **A key**, with its colon. -/
theorem Yields.key (columns : List Nat) (tokens : List Token) {ts : List Token}
    {name rest : List Char} {p : Place}
    (hp : p.column = 0) (hname : IsKey name) (column : Nat)
    (hrest : ∀ p : Place, atGap (p.marks rest) = true)
    (h : (inLine (columnsAfterKey column (keptAt column columns))
      (keyTokens column columns name ++ tokens) false
      ((p.after (margin column ++ name)).behind ':') rest).Yields ts) :
    (atLine columns tokens p (margin column ++ (name ++ ':' :: rest))).Yields ts := by
  obtain ⟨q, hq⟩ : ∃ q, q = p.after (margin column) := ⟨_, rfl⟩
  obtain ⟨before, hbefore⟩ : ∃ before, before = endsAt column columns ++ tokens := ⟨_, rfl⟩
  have hcolumn : q.column = column := by rw [hq, after_margin, hp, Nat.zero_add]
  have hbreak : ∀ d ∈ name, isBreak d = false := fun d hd =>
    (isSolid_of_isKeyChar (hname.chars d hd)).notBreak
  have hbehind := Place.after_of_isBreak hbreak q
  have hlength : 0 < name.length := List.length_pos_iff.mpr hname.ne_nil
  obtain ⟨c, cs, hcs⟩ := List.exists_cons_of_ne_nil hname.ne_nil
  -- the scan in front of the colon
  have hcolon : (Scan.mk ((q.after name).marks (':' :: rest)) (.scalar .plain name :: before)
      (before.length + 1)
      (some ⟨(keptAt column columns).head? == some column, before.length, q.mark c⟩)
      [] (keptAt column columns) false).Yields ts := by
    refine Yields.colon (m := q.mark c) ?_ ?_ ?_ ?_ hrest ?_
    · intro n hn
      rw [Place.mark_column, hcolumn]
      exact le_of_head?_keptAt hn
    · simp [hbehind, hlength]
    · simp [hbehind]
    · simp [hbehind, hname.short]
    · rw [Place.mark_column, hcolumn, hbefore]
      simpa [keyTokens, hq, Place.after_append] using h
  have hchar : isKeyChar c = true := hname.chars c (by simp [hcs])
  have hc := isSolid_of_isKeyChar hchar
  have hmarks : q.marks (name ++ ':' :: rest) =
      q.mark c :: (q.behind c).marks (cs ++ ':' :: rest) := by
    rw [hcs, List.cons_append, Place.marks_cons (isKept_of_isBreak hc.notBreak)]
  have hsource : lineStart p (margin column ++ (name ++ ':' :: rest)) =
      q.mark c :: (q.behind c).marks (cs ++ ':' :: rest) := by
    rw [← hmarks, hcs, List.cons_append, lineStart_margin hc, hq]
  have hnext := toToken_solid hc false true q (cs ++ ':' :: rest)
  rw [← List.cons_append, ← hcs, hmarks] at hnext
  rw [atLine, hsource]
  refine Yields.of_token hnext ?_ ?_ hcolon
  · obtain ⟨hleading, hblank, hdot, hsign⟩ := starts_of_isKeyChar hchar
    have hbound := atDocumentBound_of_char (m := q.mark c) (fun h => hsign (.inr (.inr h))) hdot
      ((q.behind c).marks (cs ++ ':' :: rest))
    have hclose := closeTo_eq (q.mark c :: (q.behind c).marks (cs ++ ':' :: rest)) tokens none
      columns true column
    have hread := readPlain_key ((keptAt column columns).head?.elim 0 (· + 1))
      hname.chars hrest q
    rw [hmarks] at hread
    simp only [behind, refreshKeys?, refresh?, List.mapM_nil, Option.pure_def, Option.bind_eq_bind,
      Option.bind_some, Place.mark_column, hcolumn, hclose]
    rw [token?_plain rfl hbound hblank hleading fun h => absurd h hsign]
    simp [plain?, saveKey?, dropKey?, inFlow, hread, add, behind, ← hbefore, hcolumn]
  · exact Place.length_marks_le _ _ cs (':' :: rest)

end Outreach.Yaml.Scan
