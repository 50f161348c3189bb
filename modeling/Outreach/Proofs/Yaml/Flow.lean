import Outreach.Proofs.Yaml.OutlineNodes
import Outreach.Yaml.Value

/-!
# Mappings Within Braces

Within braces blanks and line breaks count for nothing, except between a name and its colon, which
have to stand on one line. A scan that has come to a token there goes on the same way wherever it
stands, so it is followed from token to token, and not from line to line.

## Main results

* `Scan.exists_toToken_spacing`: blanks and line breaks between two tokens.
* `Scan.BraceYields.key`: a name and its colon.
* `Scan.BraceYields.value`, `Scan.BraceYields.comma`, `Scan.BraceYields.close`: what follows it.
* `rootOf?_flowTokens`: **the tokens of entries within braces** are read as a mapping.
-/

namespace Outreach.Yaml

/-! ### Between two tokens -/

/-- A blank or a line break. -/
def isSpacing (c : Char) : Bool :=
  isBlank c || isBreak c

namespace Scan

section Spacing

variable {inFlow keyAllowed : Bool} {bs rest : List Char}

/-- A line break stays a line break when the kinds of breaks are made one. -/
theorem isBreak_unifyBreak {c : Char} (h : isBreak c = true) : isBreak (unifyBreak c) = true := by
  rcases isBreak_iff.mp h with rfl | rfl | rfl | rfl | rfl <;> decide

/-- Within brackets a reader passes over spacing, and at the start of a line over all but tabs. -/
theorem toToken_spacing {c : Char} (hc : isSpacing c = true)
    (hflow : inFlow = true ∨ keyAllowed = true ∧ c ≠ '\t') {m : Mark} (hm : m.char = unifyBreak c)
    (s : Source) :
    toToken inFlow keyAllowed false (m :: s) = toToken inFlow keyAllowed false s := by
  rw [toToken, hm]
  by_cases hbreak : isBreak c = true
  · have hallowed : (keyAllowed || !inFlow) = keyAllowed := by
      rcases hflow with rfl | ⟨rfl, -⟩ <;> simp
    rw [isBreak_unifyBreak hbreak, if_pos rfl, hallowed]
  · have hblank : isBlank c = true := by simpa [isSpacing, hbreak] using hc
    have hkept := isKept_of_isBreak (Bool.not_eq_true _ ▸ hbreak)
    have hunify : unifyBreak c = c := by simp [unifyBreak, hkept.1, hkept.2]
    have hpass : (c == ' ' || (c == '\t' && (inFlow || !keyAllowed))) = true := by
      simp only [isBlank, Bool.or_eq_true, beq_iff_eq] at hblank
      rcases hblank with rfl | rfl
      · rfl
      · have hin : inFlow = true := hflow.resolve_right fun h => h.2 rfl
        simp [hin]
    rw [hunify, if_neg hbreak, if_neg Bool.false_ne_true, hpass, Bool.true_or, if_pos rfl]

/-- **Blanks and line breaks between two tokens** lead to the second one. -/
theorem exists_toToken_spacing (hbs : ∀ c ∈ bs, isSpacing c = true)
    (hflow : inFlow = true ∨ keyAllowed = true ∧ '\t' ∉ bs) {rest : List Char}
    (hrest : rest.head? ≠ some '\n') (p : Place) :
    ∃ q : Place, toToken inFlow keyAllowed false (p.marks (bs ++ rest)) =
      toToken inFlow keyAllowed false (q.marks rest) := by
  induction h : bs.length using Nat.strongRecOn generalizing p bs with
  | ind n ih =>
      rcases bs with - | ⟨c, bs⟩
      · exact ⟨p, rfl⟩
      · have hc : isSpacing c = true := hbs c List.mem_cons_self
        have hpass : inFlow = true ∨ keyAllowed = true ∧ c ≠ '\t' :=
          hflow.imp_right fun ⟨hallowed, htab⟩ =>
            ⟨hallowed, fun hc => htab (hc ▸ List.mem_cons_self)⟩
        -- a carriage return and a line feed are one mark
        by_cases hpair : ∃ ds, c = '\r' ∧ bs = '\n' :: ds
        · obtain ⟨ds, rfl, rfl⟩ := hpair
          have hshorter : ds.length < n := by
            simp only [← h, List.length_cons]
            omega
          obtain ⟨q, hq⟩ := @ih ds.length hshorter ds
            (fun d hd => hbs d (by simp [hd])) (hflow.imp_right fun ⟨hallowed, htab⟩ =>
              ⟨hallowed, fun hd => htab (by simp [hd])⟩)
            ⟨p.index + 2, p.line + 1, 0⟩ rfl
          refine ⟨q, ?_⟩
          rw [List.cons_append, List.cons_append, Place.marks_pair,
            toToken_spacing hc hpass (by rfl), hq]
        · have hcons : ∀ ds, c = '\r' → bs ++ rest ≠ '\n' :: ds := by
            intro ds hc hds
            rcases bs with - | ⟨d, bs⟩
            · exact hrest (by rw [List.nil_append] at hds; simp [hds])
            · obtain ⟨rfl, -⟩ := List.cons_eq_cons.mp hds
              exact hpair ⟨bs, hc, rfl⟩
          obtain ⟨q, hq⟩ := @ih bs.length (by simp [← h]) bs
            (fun d hd => hbs d (List.mem_cons_of_mem c hd)) (hflow.imp_right fun ⟨hallowed, htab⟩ =>
              ⟨hallowed, fun hd => htab (List.mem_cons_of_mem c hd)⟩)
            (p.behind c) rfl
          refine ⟨q, ?_⟩
          rw [List.cons_append, Place.marks_cons_unify hcons, toToken_spacing hc hpass rfl, hq]

/-- Blanks within a line and within brackets. -/
theorem toToken_blanks (hbs : ∀ c ∈ bs, isBlank c = true) (p : Place) :
    toToken true keyAllowed false (p.marks (bs ++ rest)) =
      toToken true keyAllowed false ((p.after bs).marks rest) := by
  induction bs generalizing p with
  | nil => rfl
  | cons c bs ih =>
      have hblank := hbs c List.mem_cons_self
      have hkept := isKept_of_isBreak (isBreak_of_isBlank hblank)
      have hunify : c = unifyBreak c := by simp [unifyBreak, hkept.1, hkept.2]
      rw [List.cons_append, Place.marks_cons hkept,
        toToken_spacing (c := c) (by simp [isSpacing, hblank]) (.inl rfl) hunify,
        ih (fun d hd => hbs d (List.mem_cons_of_mem c hd)), Place.after_cons]

/-- Behind the last token comes the end of the text. From its next line on no tab may stand. -/
theorem exists_toToken_trailing (hbs : ∀ c ∈ bs, isSpacing c = true)
    (htab : '\t' ∉ bs.dropWhile (!isBreak ·)) (p : Place) :
    ∃ keyAllowed, toToken false false false (p.marks bs) = (keyAllowed, []) := by
  induction bs generalizing p with
  | nil => exact ⟨false, by simp [toToken]⟩
  | cons c bs ih =>
      by_cases hbreak : isBreak c = true
      · rw [List.dropWhile_cons_of_neg (by simp [hbreak])] at htab
        -- the break lets a key start, as if one could have started before it
        obtain ⟨s, hs⟩ := p.exists_marks_cons c bs
        have hfirst : toToken false false false (p.marks (c :: bs)) =
            toToken false true false (p.marks (c :: bs)) := by
          rw [hs, toToken, toToken]
          simp [isBreak_unifyBreak hbreak]
        have hpass : false = true ∨ true = true ∧ '\t' ∉ c :: bs := .inr ⟨rfl, htab⟩
        have hend : ([] : List Char).head? ≠ some '\n' := by simp
        obtain ⟨q, hq⟩ := exists_toToken_spacing hbs hpass hend p
        rw [List.append_nil] at hq
        exact ⟨true, by rw [hfirst, hq]; simp [toToken]⟩
      · rw [List.dropWhile_cons_of_pos (by simp [hbreak])] at htab
        have hblank : isBlank c = true := by
          simpa [isSpacing, hbreak] using hbs c List.mem_cons_self
        obtain ⟨keyAllowed, hrest⟩ :=
          ih (fun d hd => hbs d (List.mem_cons_of_mem c hd)) htab (p.behind c)
        refine ⟨keyAllowed, ?_⟩
        rw [Place.marks_cons (isKept_of_isBreak (isBreak_of_isBlank hblank)), toToken, ← hrest]
        simp only [isBlank, Bool.or_eq_true, beq_iff_eq] at hblank
        rcases hblank with rfl | rfl <;> simp [isBreak]

end Spacing

/-- What a scan yields depends on its next token only, not on how far away the token is. -/
theorem Yields.of_source {l : Scan} {s : Source} {ts : List Token}
    (hnext : toToken l.inFlow l.keyAllowed false l.source = toToken l.inFlow l.keyAllowed false s)
    (hlength : s.length ≤ l.source.length) (h : (l.behind s l.keyAllowed).Yields ts) :
    l.Yields ts := by
  intro steps hsteps
  have hrun := h steps (Nat.lt_of_le_of_lt hlength hsteps)
  rcases steps with - | steps
  · exact absurd hsteps (Nat.not_lt_zero _)
  · rw [← hrun, run?, run?, hnext]
    rfl

/-! ### Within braces -/

/-- A scan within braces, with no possible key behind it on their level. -/
def inBraces (tokens : List Token) (outer : Option KeyStart) (keyAllowed : Bool) (s : Source) :
    Scan :=
  ⟨s, tokens, tokens.length, none, [outer], [], keyAllowed⟩

/-- A possible key that did not have to be one. -/
def IsOptional (k : Option KeyStart) : Prop :=
  ∀ start ∈ k, start.required = false

/-- From wherever it stands within braces, a scan yields tokens. -/
def BraceYields (tokens : List Token) (keyAllowed : Bool) (cs : List Char) (ts : List Token) :
    Prop :=
  ∀ (p : Place) (outer : Option KeyStart), IsOptional outer →
    (inBraces tokens outer keyAllowed (p.marks cs)).Yields ts

/-- A possible key that need not be one can always be given up, so reading goes on from any later
place. -/
theorem exists_refresh? {k : Option KeyStart} (h : IsOptional k) (m : Mark) :
    ∃ k', refresh? m k = some k' ∧ IsOptional k' := by
  rcases k with - | start
  · exact ⟨none, rfl, h⟩
  · have hrequired : start.required = false := h start rfl
    by_cases hlate : start.mark.line < m.line ∨ start.mark.index + keyLimit < m.index
    · exact ⟨none, by simp [refresh?, hlate, hrequired], by simp [IsOptional]⟩
    · exact ⟨some start, by simp [refresh?, hlate], h⟩

variable {tokens ts : List Token} {keyAllowed : Bool} {rest : List Char}

/-- Spacing in front of a token within braces is passed over, the line breaks in it included. -/
theorem BraceYields.spacing {bs : List Char} (hbs : ∀ c ∈ bs, isSpacing c = true)
    (hrest : rest.head? ≠ some '\n') (h : BraceYields tokens keyAllowed rest ts) :
    BraceYields tokens keyAllowed (bs ++ rest) ts := by
  intro p outer houter
  have hpass : true = true ∨ keyAllowed = true ∧ '\t' ∉ bs := .inl rfl
  obtain ⟨q, hq⟩ := exists_toToken_spacing hbs hpass hrest p
  exact Yields.of_source hq (Place.length_marks_le p q bs rest) (h q outer houter)

/-- One more token within braces. -/
theorem BraceYields.of_token {c : Char} (hc : IsSolid c)
    (h : ∀ (p : Place) (outer : Option KeyStart), IsOptional outer →
      ∃ l, (inBraces tokens outer keyAllowed (p.marks (c :: rest))).token? (p.mark c)
          ((p.behind c).marks rest) = some l ∧
        l.source.length ≤ ((p.behind c).marks rest).length ∧ l.Yields ts) :
    BraceYields tokens keyAllowed (c :: rest) ts := by
  intro p outer houter
  obtain ⟨outer', hrefresh, houter'⟩ := exists_refresh? houter (p.mark c)
  obtain ⟨l, htoken, hlength, hyields⟩ := h p outer' houter'
  have hmarks : p.marks (c :: rest) = p.mark c :: (p.behind c).marks rest :=
    Place.marks_cons (isKept_of_isBreak hc.notBreak) p rest
  have hnext := toToken_solid hc true keyAllowed p rest
  rw [hmarks] at hnext htoken ⊢
  refine Yields.of_token hnext ?_ hlength hyields
  have hnone : refresh? (p.mark c) none = some none := rfl
  rw [← htoken]
  simp [inBraces, behind, refreshKeys?, hnone, hrefresh, closeTo, inFlow]

/-- The marks of a flow mapping are solid: none of them is blank or a break. -/
theorem isSolid_of_bracket {c : Char} (h : c = ',' ∨ c = ':' ∨ c = '"' ∨ c = '\x7b' ∨ c = '\x7d') :
    IsSolid c := by
  rcases h with rfl | rfl | rfl | rfl | rfl <;> constructor <;> decide

/-- A comma. -/
theorem BraceYields.comma (h : BraceYields (.flowEntry :: tokens) true rest ts)
    (keyAllowed : Bool) : BraceYields tokens keyAllowed (',' :: rest) ts := by
  refine BraceYields.of_token (isSolid_of_bracket (by simp)) fun p outer houter => ?_
  have hbound := atDocumentBound_of_char (m := p.mark ',') (by simp) (by simp)
    ((p.behind ',').marks rest)
  refine ⟨inBraces (.flowEntry :: tokens) outer true ((p.behind ',').marks rest), ?_,
    Nat.le_refl _, h _ outer houter⟩
  simp [token?, hbound, flowEntry?, inBraces, dropKey?, add, behind]

/-- The closing brace. -/
theorem BraceYields.close (h : ∀ (p : Place) (outer : Option KeyStart), IsOptional outer →
      (Scan.mk (p.marks rest) (.flowMappingEnd :: tokens) (tokens.length + 1) outer [] []
        false).Yields ts) :
    BraceYields tokens keyAllowed ('\x7d' :: rest) ts := by
  refine BraceYields.of_token (isSolid_of_bracket (by simp)) fun p outer houter => ?_
  have hbound := atDocumentBound_of_char (m := p.mark '\x7d') (by simp) (by simp)
    ((p.behind '\x7d').marks rest)
  refine ⟨_, ?_, Nat.le_refl _, h (p.behind '\x7d') outer houter⟩
  simp [token?, hbound, closeFlow?, inBraces, dropKey?, add, behind]

/-- A text between double quotes, written piece by piece. -/
def quotedPieces (ws : List (List Char × Char)) : List Char :=
  '"' :: (ws.flatMap Prod.fst ++ ['"'])

/-- The place behind the closing quote. -/
theorem readQuoted_quotedPieces {ws : List (List Char × Char)} (hws : ∀ w ∈ ws, IsPiece w.1 w.2)
    (p : Place) (rest : List Char) :
    readQuoted .double (.text .none)
        ((p.behind '"').marks (ws.flatMap Prod.fst ++ '"' :: rest)) =
      some (ws.map Prod.snd, (p.after (quotedPieces ws)).marks rest) := by
  have hcolumn : 0 < (p.behind '"').column := by
    rw [Place.behind_of_isBreak (by decide)]
    exact Nat.succ_pos _
  rw [readQuoted_pieces hws rfl hcolumn]
  simp [quotedPieces, Gap.text]

/-- What is left behind a quoted text is no longer than what there was in front of it. -/
theorem length_behind_quotedPieces (ws : List (List Char × Char)) (p q : Place) :
    (q.marks rest).length ≤
      ((p.behind '"').marks (ws.flatMap Prod.fst ++ '"' :: rest)).length := by
  have := Place.length_marks_le (p.behind '"') q (ws.flatMap Prod.fst ++ ['"']) rest
  rwa [List.append_assoc] at this

/-- **A value.** No key may start behind a colon. -/
theorem BraceYields.value {ws : List (List Char × Char)} (hws : ∀ w ∈ ws, IsPiece w.1 w.2)
    (h : BraceYields (.scalar .doubleQuoted (ws.map Prod.snd) :: tokens) false rest ts) :
    BraceYields tokens false (quotedPieces ws ++ rest) ts := by
  rw [quotedPieces, List.cons_append, List.append_assoc]
  refine BraceYields.of_token (isSolid_of_bracket (by simp)) fun p outer houter => ?_
  refine ⟨_, ?_, length_behind_quotedPieces ws p _, h (p.after (quotedPieces ws)) outer houter⟩
  rw [token?_quote _ (q := .double) rfl, List.singleton_append, readQuoted_quotedPieces hws]
  rfl

/-- The colon of a name that stands on its line and not too far from it. -/
theorem Yields.flowColon {t : Token} {m : Mark} {p : Place} {outer : Option KeyStart}
    (hline : m.line = p.line) (hshort : p.index ≤ m.index + keyLimit) (houter : IsOptional outer)
    (h : BraceYields (.value :: t :: .key :: tokens) false rest ts) :
    (Scan.mk (p.marks (':' :: rest)) (t :: tokens) (tokens.length + 1)
      (some ⟨false, tokens.length, m⟩) [outer] [] false).Yields ts := by
  have hmarks : p.marks (':' :: rest) = p.mark ':' :: (p.behind ':').marks rest :=
    Place.marks_cons (by decide) p rest
  have hnext := toToken_solid (c := ':') (isSolid_of_bracket (by simp)) true false p rest
  obtain ⟨outer', hrefresh, houter'⟩ := exists_refresh? houter (p.mark ':')
  have hkey : refresh? (p.mark ':') (some ⟨false, tokens.length, m⟩) =
      some (some ⟨false, tokens.length, m⟩) := by
    simp [refresh?, hline, Nat.not_lt.mpr hshort]
  have hbound := atDocumentBound_of_char (m := p.mark ':') (by simp) (by simp)
    ((p.behind ':').marks rest)
  have hnumber : tokens.length + 1 - tokens.length = 1 := by omega
  rw [hmarks] at hnext ⊢
  refine Yields.of_token hnext ?_ (Nat.le_refl _) (h (p.behind ':') outer' houter')
  simp [behind, refreshKeys?, hkey, hrefresh, closeTo, inFlow, token?, hbound, value?, addAt, add,
    openBlock, hnumber, inBraces]

/-- **A name and its colon**, which stand on one line and not too far from each other. -/
theorem BraceYields.key {ws : List (List Char × Char)} (hws : ∀ w ∈ ws, IsPiece w.1 w.2)
    {bs : List Char} (hbs : ∀ c ∈ bs, isBlank c = true)
    (hshort : byteLength (quotedPieces ws ++ bs) ≤ keyLimit)
    (h : BraceYields (.value :: .scalar .doubleQuoted (ws.map Prod.snd) :: .key :: tokens) false
      rest ts) :
    BraceYields tokens true (quotedPieces ws ++ (bs ++ ':' :: rest)) ts := by
  have hinline : ∀ c ∈ quotedPieces ws ++ bs, isBreak c = false := by
    intro c hc
    rcases List.mem_append.mp hc with hc | hc
    · have hc : c = '"' ∨ ∃ w ∈ ws, c ∈ w.1 := by
        simpa [quotedPieces, or_comm] using hc
      rcases hc with rfl | ⟨w, hw, hc⟩
      · rfl
      · exact (hws w hw).isBreak_eq c hc
    · exact isBreak_of_isBlank (hbs c hc)
  rw [quotedPieces, List.cons_append, List.append_assoc]
  refine BraceYields.of_token (isSolid_of_bracket (by simp)) fun p outer houter => ?_
  obtain ⟨q, hq⟩ : ∃ q, q = p.after (quotedPieces ws) := ⟨_, rfl⟩
  have hplace : (q.after bs).line = p.line ∧
      (q.after bs).index = p.index + byteLength (quotedPieces ws ++ bs) := by
    rw [hq, ← Place.after_append, Place.after_of_isBreak hinline]
    exact ⟨rfl, rfl⟩
  refine ⟨⟨q.marks (bs ++ ':' :: rest), .scalar .doubleQuoted (ws.map Prod.snd) :: tokens,
    tokens.length + 1, some ⟨false, tokens.length, p.mark '"'⟩, [outer], [], false⟩, ?_,
    length_behind_quotedPieces ws p q, ?_⟩
  · rw [token?_quote _ (q := .double) rfl, List.singleton_append, readQuoted_quotedPieces hws, ← hq]
    rfl
  · refine Yields.of_source (s := (q.after bs).marks (':' :: rest)) (toToken_blanks hbs q)
      (Place.length_marks_le q _ bs _) (Yields.flowColon hplace.1.symm ?_ houter h)
    rw [hplace.2]
    exact Nat.add_le_add_left hshort p.index

/-- **The opening brace** of a text, behind blanks without tabs. -/
theorem yields_start {bs : List Char} (hbs : ∀ c ∈ bs, isSpacing c = true) (htab : '\t' ∉ bs)
    (h : BraceYields [.flowMappingStart] true rest ts) (p : Place) :
    (start (p.marks (bs ++ '\x7b' :: rest))).Yields ts := by
  have hpass : false = true ∨ true = true ∧ '\t' ∉ bs := .inr ⟨rfl, htab⟩
  have hbrace : ('\x7b' :: rest).head? ≠ some '\n' := by simp
  obtain ⟨q, hq⟩ := exists_toToken_spacing hbs hpass hbrace p
  refine Yields.of_source (s := q.marks ('\x7b' :: rest)) hq (Place.length_marks_le p q bs _) ?_
  have hmarks : q.marks ('\x7b' :: rest) = q.mark '\x7b' :: (q.behind '\x7b').marks rest :=
    Place.marks_cons (by decide) q rest
  have hnext := toToken_solid (c := '\x7b') (isSolid_of_bracket (by simp)) false true q rest
  have hbound := atDocumentBound_of_char (m := q.mark '\x7b') (by simp) (by simp)
    ((q.behind '\x7b').marks rest)
  have hnone : refresh? (q.mark '\x7b') none = some none := rfl
  rw [hmarks] at hnext ⊢
  refine Yields.of_token hnext ?_ (Nat.le_refl _)
    (h (q.behind '\x7b') (some ⟨false, 0, q.mark '\x7b'⟩) (by simp [IsOptional]))
  simp [start, behind, refreshKeys?, hnone, closeTo, inFlow, closeBlocks, token?, hbound, openFlow?,
    saveKey?, dropKey?, add, inBraces]

/-- **The closing brace** of a text, with blanks behind it. -/
theorem BraceYields.end {bs : List Char} (hbs : ∀ c ∈ bs, isSpacing c = true)
    (htab : '\t' ∉ bs.dropWhile (!isBreak ·)) (tokens : List Token) (keyAllowed : Bool) :
    BraceYields tokens keyAllowed ('\x7d' :: bs) (tokens.reverse ++ [.flowMappingEnd]) := by
  refine BraceYields.close fun p outer houter => ?_
  intro steps hsteps
  rcases steps with - | steps
  · exact absurd hsteps (Nat.not_lt_zero _)
  obtain ⟨keyAllowed, hnext⟩ := exists_toToken_trailing hbs htab p
  have hrun := run?_nil (l := ⟨p.marks bs, .flowMappingEnd :: tokens, tokens.length + 1, outer, [],
    [], false⟩) hnext steps
  rw [hrun]
  rcases outer with - | k
  · simp [finish?, behind, closeAll, inFlow, closeBlocks, dropKey?]
  · simp [finish?, behind, closeAll, inFlow, closeBlocks, dropKey?, houter k rfl]

end Scan

/-! ### Entries between double quotes -/

/-- The tokens of an entry whose name and value stand between double quotes. -/
def quotedTokens (e : List Char × List Char) : List Token :=
  [.key, .scalar .doubleQuoted e.1, .value, .scalar .doubleQuoted e.2]

/-- The tokens of entries with commas between them. -/
def flowTokens : List (List Char × List Char) → List Token
  | [] => []
  | e :: es => quotedTokens e ++ es.flatMap fun e => .flowEntry :: quotedTokens e

/-- The nodes of such an entry. -/
def quotedEntry {ρ : Type} (e : List Char × List Char) : Node ρ × Node ρ :=
  (.scalar .empty .doubleQuoted e.1, .scalar .empty .doubleQuoted e.2)

section Reading

variable {hs : Handles} {steps : Nat} {ts us : List Token} {nodes : List (Tree × Tree)}

/-- The first entry of a mapping, and the further ones. -/
theorem readFlowMapping?_first (e : List Char × List Char)
    (h : readFlowMapping? hs (steps + 2) false ts = some (nodes, us)) :
    readFlowMapping? hs (steps + 3) true (quotedTokens e ++ ts) =
      some (quotedEntry e :: nodes, us) := by
  have hname : readOptional? hs (steps + 2) .flow endsFlowKey
      (.scalar .doubleQuoted e.1 :: .value :: .scalar .doubleQuoted e.2 :: ts) =
        some (.scalar .empty .doubleQuoted e.1, .value :: .scalar .doubleQuoted e.2 :: ts) :=
    readOptional?_scalar rfl
  have hvalue : readOptional? hs (steps + 2) .flow endsFlowValue
      (.scalar .doubleQuoted e.2 :: ts) = some (.scalar .empty .doubleQuoted e.2, ts) :=
    readOptional?_scalar rfl
  simp only [quotedTokens, List.cons_append, List.nil_append]
  rw [readFlowMapping?]
  · simp only [Option.bind_eq_bind, Option.bind_some, hname, hvalue, h]
    rfl
  · simp

/-- An entry behind a comma is read as the first one is. -/
theorem readFlowMapping?_comma (e : List Char × List Char) :
    readFlowMapping? hs (steps + 1) false (.flowEntry :: (quotedTokens e ++ ts)) =
      readFlowMapping? hs (steps + 1) true (quotedTokens e ++ ts) := by
  simp [quotedTokens, readFlowMapping?]

/-- The further entries of a mapping, up to its end. -/
theorem readFlowMapping?_others {es : List (List Char × List Char)}
    (hsteps : es.length + 3 ≤ steps) :
    readFlowMapping? hs steps false
        ((es.flatMap fun e => .flowEntry :: quotedTokens e) ++ .flowMappingEnd :: ts) =
      some (es.map quotedEntry, ts) := by
  induction es generalizing steps with
  | nil =>
      obtain ⟨steps, rfl⟩ : ∃ n, steps = n + 1 := ⟨steps - 1, by omega⟩
      simp [readFlowMapping?]
  | cons e es ih =>
      rw [List.length_cons] at hsteps
      obtain ⟨steps, rfl⟩ : ∃ n, steps = n + 3 := ⟨steps - 3, by omega⟩
      rw [List.flatMap_cons, List.append_assoc, List.cons_append, readFlowMapping?_comma]
      exact readFlowMapping?_first e (ih (by omega))

/-- The entries of a mapping within braces. -/
theorem readFlowMapping?_flowTokens {es : List (List Char × List Char)}
    (hsteps : es.length + 3 ≤ steps) :
    readFlowMapping? hs steps true (flowTokens es ++ .flowMappingEnd :: ts) =
      some (es.map quotedEntry, ts) := by
  obtain ⟨steps, rfl⟩ : ∃ n, steps = n + 3 := ⟨steps - 3, by omega⟩
  cases es with
  | nil => simp [flowTokens, readFlowMapping?]
  | cons e es =>
      rw [List.length_cons] at hsteps
      rw [flowTokens, List.append_assoc]
      exact readFlowMapping?_first e (readFlowMapping?_others (by omega))

/-- There are at least as many tokens as members. -/
theorem length_le_flowTokens (es : List (List Char × List Char)) :
    es.length ≤ (flowTokens es).length := by
  cases es with
  | nil => exact Nat.zero_le _
  | cons e es =>
      have hothers : es.length ≤ (es.flatMap fun e => .flowEntry :: quotedTokens e).length := by
        induction es with
        | nil => exact Nat.zero_le _
        | cons e es ih => simp [quotedTokens] at ih ⊢; omega
      have hfirst : (quotedTokens e).length = 4 := rfl
      rw [flowTokens, List.length_append, List.length_cons]
      omega

/-- **The tokens of entries within braces** are read as a mapping. -/
theorem rootOf?_flowTokens (es : List (List Char × List Char)) :
    rootOf? (.flowMappingStart :: (flowTokens es ++ [.flowMappingEnd])) =
      some (some (.mapping .empty (es.map quotedEntry))) := by
  have hlength := length_le_flowTokens es
  obtain ⟨ts, hts⟩ : ∃ ts, ts = flowTokens es ++ [.flowMappingEnd] := ⟨_, rfl⟩
  have hentries : readFlowMapping? standardHandles (4 * (ts.length + 1) + 3) true ts =
      some (es.map quotedEntry, []) := by
    rw [hts]
    exact readFlowMapping?_flowTokens (by simp only [List.length_append]; omega)
  rw [← hts]
  refine rootOf?_of_readNode? (.inr rfl) ?_
  rw [readNode?]
  · simp [readProperties?, hentries]
  · simp

end Reading

/-- Quoted members without anchors stay as they are when anchors are numbered. -/
theorem numberEntries?_quoted (ns : AnchorNumbers) (es : List (List Char × List Char)) :
    numberEntries? ns (es.map quotedEntry) = some (es.map quotedEntry, ns) := by
  induction es with
  | nil => rfl
  | cons e es ih =>
      simp [numberEntries?, quotedEntry, number?, Properties.empty, AnchorNumbers.declare, ih]

namespace Document

theorem scalarText_quoted (d : Document) (text : List Char) :
    d.scalarText (.scalar .empty .doubleQuoted text) = pure text := rfl

/-- A text between double quotes means no more than the text. -/
theorem value_quoted (d : Document) (depth : Nat) (text : List Char) :
    d.value depth (.scalar .empty .doubleQuoted text) = pure (.string text) := by
  cases depth <;> rfl

/-- **The document of entries within braces** has their texts for keys and values. -/
theorem topEntries_quoted (es : List (List Char × List Char)) :
    (ofRoot (some (.mapping .empty (es.map quotedEntry)))).topEntries.run 0 =
      some (es.map fun e => (e.1, .string e.2), 0) := by
  obtain ⟨d, hd⟩ : ∃ d, d = ofRoot (some (.mapping .empty (es.map quotedEntry))) := ⟨_, rfl⟩
  have hroot : d.root = some (.mapping .empty (es.map quotedEntry)) := by rw [hd]; rfl
  rw [← hd, topEntries, hroot]
  dsimp only
  clear hroot hd
  induction es with
  | nil => rfl
  | cons e es ih =>
      simp only [List.map_cons, List.mapM_cons, quotedEntry, scalarText_quoted, value_quoted,
        pure_bind, StateT.run_bind] at ih ⊢
      rw [ih]
      rfl

end Document

end Outreach.Yaml
