import Mathlib.Data.List.TakeWhile
import Mathlib.Tactic.Tauto
import Outreach.Message.Conditional
import Outreach.Proofs.Deal.Absence
import Outreach.Proofs.Message.Breaks

/-!
# The Grammar of Conditional Blocks

A block is written `[if: key|content]` or `[if: key=expected|content]`. Reading a block off the
front of a text accepts exactly the well-formed blocks, so the blocks of a template are the marks
of its leftmost cut, and deciding them replaces each mark by its content or by nothing.

## Main results

* `Block.read?_eq_some_iff`: reading accepts exactly what well-formed blocks are written as.
* `Block.isUnambiguous_marking`: a text has at most one block at its front.
* `Block.holds_iff`: when a block stays.
* `exists_cut_resolveBlocks`: the cut of a template at its blocks, and the decided template.
* `evaluateConditionals_eq_collapse_cut`: **the block grammar**, leftmost and non-nesting.
-/

namespace Outreach.Message

open Text

namespace Block

/-! ### Well-formed blocks -/

/-- A character of a word: an ASCII letter, an ASCII digit or an underscore. -/
def IsWordChar (c : Char) : Prop :=
  ('A' ≤ c ∧ c ≤ 'Z') ∨ ('a' ≤ c ∧ c ≤ 'z') ∨ ('0' ≤ c ∧ c ≤ '9') ∨ c = '_'

/-- A block is **well-formed**: its key is a word, an expected value is not empty and holds neither
bar nor closing bracket, and the content holds no closing bracket. -/
structure IsWellFormed (b : Block) : Prop where
  key_ne_nil : b.key ≠ []
  isWordChar_of_mem_key : ∀ c ∈ b.key, IsWordChar c
  expected_ne_nil : b.expected ≠ some []
  bar_notMem_expected : ∀ e ∈ b.expected, '|' ∉ e
  bracket_notMem_expected : ∀ e ∈ b.expected, ']' ∉ e
  bracket_notMem_content : ']' ∉ b.content

/-- The blocks of a template; whether one stands there does not depend on what follows. -/
def marking : Marking Block where
  write := source
  fits b _ := b.IsWellFormed

/-- The characters of a key are the word characters, which are letters, digits and the underscore.
-/
theorem isKeyChar_iff (c : Char) : isKeyChar c = true ↔ IsWordChar c := by
  have hkey : isKeyChar c = ((decide ('A'.val ≤ c.val ∧ c.val ≤ 'Z'.val) ||
      (decide ('a'.val ≤ c.val) && decide (c.val ≤ 'z'.val)) ||
      (decide ('0'.val ≤ c.val) && decide (c.val ≤ '9'.val))) || c == '_') := rfl
  rw [hkey]
  simp only [IsWordChar, Char.le_def, Bool.or_eq_true, Bool.and_eq_true, decide_eq_true_eq,
    beq_iff_eq]
  tauto

/-! ### Reading a block -/

/-- A text up to the first of some characters, if one of them occurs. -/
theorem spanTo_eq_cons_iff {stop : Char → Bool} {cs before rest : List Char} {c : Char} :
    spanTo stop cs = (before, c :: rest) ↔
      (∀ x ∈ before, stop x = false) ∧ stop c = true ∧ cs = before ++ c :: rest := by
  rw [spanTo, Prod.mk.injEq]
  constructor
  · rintro ⟨rfl, hdrop⟩
    have hsplit := List.takeWhile_append_dropWhile (p := (!stop ·)) (l := cs)
    rw [hdrop] at hsplit
    refine ⟨fun x hx => ?_, ?_, hsplit.symm⟩
    · simpa using List.mem_takeWhile_imp hx
    · have hhead := List.head_dropWhile_not (!stop ·) (l := cs) (by rw [hdrop]; simp)
      simpa [hdrop] using hhead
  · rintro ⟨hbefore, hc, rfl⟩
    have hall : ∀ x ∈ before, (!stop x) = true := fun x hx => by simp [hbefore x hx]
    rw [List.takeWhile_append_of_pos hall, List.dropWhile_append_of_pos hall]
    simp [hc]

/-- An expected value ends at the first bar or closing bracket. -/
theorem spanTo_bar_iff {cs x rest : List Char} :
    spanTo (fun c => c == '|' || c == ']') cs = (x, '|' :: rest) ↔
      ('|' ∉ x ∧ ']' ∉ x) ∧ cs = x ++ '|' :: rest := by
  rw [spanTo_eq_cons_iff]
  constructor
  · rintro ⟨hfree, -, rfl⟩
    refine ⟨⟨fun hmem => ?_, fun hmem => ?_⟩, rfl⟩
    · simpa using hfree _ hmem
    · simpa using hfree _ hmem
  · rintro ⟨⟨hbar, hbracket⟩, rfl⟩
    refine ⟨fun c hc => ?_, rfl, rfl⟩
    rw [Bool.or_eq_false_iff, beq_eq_false_iff_ne, beq_eq_false_iff_ne]
    exact ⟨ne_of_mem_of_not_mem hc hbar, ne_of_mem_of_not_mem hc hbracket⟩

/-- A content ends at the first closing bracket. -/
theorem spanTo_bracket_iff {cs content rest : List Char} {c : Char} :
    spanTo (· == ']') cs = (content, c :: rest) ↔
      ']' ∉ content ∧ c = ']' ∧ cs = content ++ c :: rest := by
  rw [spanTo_eq_cons_iff, beq_iff_eq]
  constructor
  · rintro ⟨hfree, hc, rfl⟩
    refine ⟨fun hmem => ?_, hc, rfl⟩
    simpa using hfree _ hmem
  · rintro ⟨hbracket, hc, rfl⟩
    exact ⟨fun c hc => beq_eq_false_iff_ne.mpr (ne_of_mem_of_not_mem hc hbracket), hc, rfl⟩

/-- An expected value that a block may have: none at all, or a text that is not empty and holds
neither bar nor bracket. -/
def IsExpectable (e : Option (List Char)) : Prop :=
  e ≠ some [] ∧ (∀ x ∈ e, '|' ∉ x) ∧ ∀ x ∈ e, ']' ∉ x

/-- The text of an expected value. -/
def expectedSource (e : Option (List Char)) : List Char :=
  e.elim [] ('=' :: ·)

/-- An expected value is read exactly where it is written between its sign and the bar. -/
theorem readExpected?_eq_some_iff {cs rest : List Char} {e : Option (List Char)} :
    readExpected? cs = some (e, rest) ↔
      IsExpectable e ∧ cs = expectedSource e ++ '|' :: rest := by
  constructor
  · intro h
    simp only [readExpected?] at h
    split at h
    · obtain ⟨rfl, rfl⟩ := Prod.mk.inj (Option.some.inj h)
      simp [IsExpectable, expectedSource]
    · split at h
      · simp at h
      · rename_i hne hspan
        obtain ⟨rfl, rfl⟩ := Prod.mk.inj (Option.some.inj h)
        obtain ⟨⟨hbar, hbracket⟩, rfl⟩ := spanTo_bar_iff.mp hspan
        refine ⟨⟨fun he => hne (Option.some.inj he), ?_, ?_⟩, rfl⟩
        · rintro _ ⟨⟩
          exact hbar
        · rintro _ ⟨⟩
          exact hbracket
      · simp at h
    · simp at h
  · rintro ⟨⟨hne, hbar, hbracket⟩, rfl⟩
    cases e with
    | none => rfl
    | some x =>
        have hspan := spanTo_bar_iff.mpr ⟨⟨hbar x rfl, hbracket x rfl⟩, Eq.refl (x ++ '|' :: rest)⟩
        obtain ⟨y, ys, rfl⟩ := List.exists_cons_of_ne_nil (fun h : x = [] => hne (congrArg some h))
        simp only [expectedSource, Option.elim, List.cons_append, readExpected?,
          List.cons_append ▸ hspan]

/-- Nothing of what follows a key belongs to the key. -/
theorem dropWhile_isKeyChar (e : Option (List Char)) (rest : List Char) :
    (expectedSource e ++ '|' :: rest).takeWhile isKeyChar = [] ∧
      (expectedSource e ++ '|' :: rest).dropWhile isKeyChar =
        expectedSource e ++ '|' :: rest := by
  have hbar : isKeyChar '|' = false := by decide
  have hequals : isKeyChar '=' = false := by decide
  cases e <;> simp [expectedSource, hbar, hequals]

/-- The body of a block is read exactly where a well-formed block is written behind its opening. -/
theorem readBody?_eq_some_iff {cs rest : List Char} {b : Block} :
    readBody? cs = some (b, rest) ↔
      b.IsWellFormed ∧
        cs = b.key ++ (expectedSource b.expected ++ '|' :: (b.content ++ ']' :: rest)) := by
  constructor
  · intro h
    simp only [readBody?] at h
    split at h
    · simp at h
    · rename_i hne
      split at h
      · simp at h
      · rename_i e afterBar he
        split at h
        · rename_i content c rest' hspan
          obtain ⟨rfl, rfl⟩ := Prod.mk.inj (Option.some.inj h)
          obtain ⟨⟨h1, h2, h3⟩, htail⟩ := readExpected?_eq_some_iff.mp he
          obtain ⟨hbracket, rfl, rfl⟩ := spanTo_bracket_iff.mp hspan
          refine ⟨⟨fun hkey => hne hkey, fun x hx => ?_, h1, h2, h3, hbracket⟩, ?_⟩
          · exact (isKeyChar_iff x).mp (List.mem_takeWhile_imp hx)
          · rw [← htail]
            exact List.takeWhile_append_dropWhile.symm
        · simp at h
  · rintro ⟨hb, rfl⟩
    obtain ⟨k, key, hkeys⟩ := List.exists_cons_of_ne_nil hb.key_ne_nil
    have hkey : ∀ c ∈ b.key, isKeyChar c = true := fun c hc =>
      (isKeyChar_iff c).mpr (hb.isWordChar_of_mem_key c hc)
    have hspan : spanTo (· == ']') (b.content ++ ']' :: rest) = (b.content, ']' :: rest) :=
      spanTo_bracket_iff.mpr ⟨hb.bracket_notMem_content, rfl, rfl⟩
    have hread := readExpected?_eq_some_iff.mpr
      (⟨⟨hb.expected_ne_nil, hb.bar_notMem_expected, hb.bracket_notMem_expected⟩, rfl⟩ :
        IsExpectable b.expected ∧ _ = _ ++ '|' :: (b.content ++ ']' :: rest))
    obtain ⟨htake, hdrop⟩ := dropWhile_isKeyChar b.expected (b.content ++ ']' :: rest)
    rw [readBody?, List.takeWhile_append_of_pos hkey, List.dropWhile_append_of_pos hkey, htake,
      hdrop, List.append_nil, hread, hkeys]
    simp only [hspan]
    rw [← hkeys]

/-- A block with a text behind it is its opening, key, expected value, bar, content and bracket,
and the text. -/
theorem source_append (b : Block) (rest : List Char) :
    b.source ++ rest = '[' :: 'i' :: 'f' :: ':' :: ' ' ::
      (b.key ++ (expectedSource b.expected ++ '|' :: (b.content ++ ']' :: rest))) := by
  have hopening : "[if: ".toList = ['[', 'i', 'f', ':', ' '] := rfl
  unfold source
  simp only [expectedSource, hopening, List.append_assoc, List.cons_append, List.nil_append]

/-- **Reading accepts exactly what well-formed blocks are written as.** -/
theorem read?_eq_some_iff {cs rest : List Char} {b : Block} :
    read? cs = some (b, rest) ↔ b.IsWellFormed ∧ cs = b.source ++ rest := by
  rw [source_append]
  constructor
  · intro h
    simp only [read?] at h
    split at h
    · obtain ⟨hb, rfl⟩ := readBody?_eq_some_iff.mp h
      exact ⟨hb, rfl⟩
    · simp at h
  · rintro ⟨hb, rfl⟩
    exact readBody?_eq_some_iff.mpr ⟨hb, rfl⟩

/-- No block starts where none can be read. -/
theorem not_starts_of_read?_eq_none {cs : List Char} (h : read? cs = none) :
    ¬ marking.Starts cs := by
  rintro ⟨b, rest, hb⟩
  rw [read?_eq_some_iff.mpr hb] at h
  exact absurd h (by simp)

/-- A text has at most one block at its front. -/
theorem isUnambiguous_marking : marking.IsUnambiguous where
  write_ne_nil := by
    intro b rest hb h
    have hsource := source_append b []
    rw [List.append_nil] at hsource
    rw [show marking.write b = b.source from rfl, hsource] at h
    simp at h
  eq_of_write_append := by
    intro b b' rest rest' hb hb' h
    have hread : read? (b.source ++ rest) = some (b, rest) := read?_eq_some_iff.mpr ⟨hb, rfl⟩
    have hread' : read? (b.source ++ rest) = some (b', rest') := read?_eq_some_iff.mpr ⟨hb', h⟩
    rw [hread] at hread'
    exact Prod.mk.inj (Option.some.inj hread')

/-! ### Deciding a block -/

/-- A block **stays** by the raw values of a record: the value of its field, an empty one if the
record lacks it, is the expected one up to blanks at the ends; or the record has a value that is
neither blank nor the word for a field left out. -/
def Stays (r : Record) (b : Block) : Prop :=
  match b.expected with
  | some expected =>
    Text.trim ((r.get? (String.ofList b.key)).getD "") = Text.trim (String.ofList expected)
  | none => ∃ value, r.get? (String.ofList b.key) = some value ∧
      Text.trim value ≠ "" ∧ Text.trim value ≠ "無"

/-- A block without an expected value stays if the value of its field is present. -/
theorem stays_iff_of_expected_eq_none {r : Record} {b : Block} (h : b.expected = none) :
    b.Stays r ↔ ∃ value, r.get? (String.ofList b.key) = some value ∧ isAbsent value = false := by
  simp only [Stays, h, isAbsent_eq_false_iff]

/-- The reader's test whether a block holds is that of the raw values of the record. -/
theorem holds_iff (r : Record) (b : Block) : b.holds r = true ↔ b.Stays r := by
  rw [holds, Stays]
  cases b.expected with
  | some expected =>
      rw [beq_iff_eq]
      simp only [Text.trim, String.toList_ofList]
      exact ⟨congrArg String.ofList, fun h => by simpa using congrArg String.toList h⟩
  | none =>
      cases hvalue : r.get? (String.ofList b.key) with
      | none => simp; decide
      | some value => simp [isAbsent_eq_false_iff]

instance (r : Record) (b : Block) : Decidable (b.Stays r) :=
  decidable_of_iff _ (holds_iff r b)

/-- What is left of a block once it has been decided: its content as it is, or nothing. -/
def residue (r : Record) (b : Block) : List Char :=
  if b.Stays r then b.content else []

end Block

/-! ### The blocks of a template -/

/-- **The cut of a template at its blocks.** Deciding the blocks keeps or drops the content of each
of them and copies the plain text. -/
theorem exists_cut_resolveBlocks (cs : List Char) :
    ∃ k : Cut Block, Block.marking.IsLeftmost k ∧ k.text Block.marking.write = cs ∧
      ∀ keep, resolveBlocks keep cs = k.text fun b => if keep b then b.content else [] := by
  simp only [resolveBlocks]
  fun_induction pieces cs with
  | case1 cs b rest h ih =>
      obtain ⟨k, hk, htext, hresolve⟩ := ih
      obtain ⟨hb, rfl⟩ := Block.read?_eq_some_iff.mp h
      refine ⟨.mark [] b k, Marking.isLeftmost_mark_nil hb hk, ?_, fun keep => ?_⟩
      · rw [Cut.text, htext, List.nil_append]
        rfl
      · rw [List.flatMap_cons, hresolve, Cut.text, List.nil_append]
        rfl
  | case2 h => exact ⟨.plain [], Marking.isFree_nil _, rfl, fun keep => rfl⟩
  | case3 c cs h ih =>
      obtain ⟨k, hk, htext, hresolve⟩ := ih
      refine ⟨k.push c, Marking.isLeftmost_push ?_ hk, ?_, fun keep => ?_⟩
      · rw [htext]
        exact Block.not_starts_of_read?_eq_none h
      · rw [Cut.text_push, htext]
      · rw [List.flatMap_cons, hresolve, Cut.text_push]
        rfl

/-- **The block grammar.** A template has exactly one leftmost cut at well-formed blocks. Deciding
the blocks puts the content of each, as it is, or nothing in its place and collapses the blank
lines of what that gives. Collapsing in turn writes two line feeds in place of each long run of
line breaks, of which a text has exactly one leftmost cut, and copies all else. -/
theorem evaluateConditionals_eq_collapse_cut (template : String) :
    (∃ k : Cut Block,
      (∀ k', Block.marking.IsLeftmost k' ∧ k'.text Block.marking.write = template.toList ↔
        k' = k) ∧
      ∀ r : Record, evaluateConditionals template r =
        collapseBlankLines (String.ofList (k.text (Block.residue r)))) ∧
    ∀ text : String, ∃ k : Cut (List Break),
      (∀ k', longRuns.IsLeftmost k' ∧ k'.text longRuns.write = text.toList ↔ k' = k) ∧
      collapseBlankLines text = String.ofList (k.text fun _ => ['\n', '\n']) := by
  constructor
  · obtain ⟨k, hk, htext, hresolve⟩ := exists_cut_resolveBlocks template.toList
    refine ⟨k, Marking.isLeftmost_and_text_eq_iff Block.isUnambiguous_marking hk htext,
      fun r => ?_⟩
    have hresidue : (fun b : Block => if b.holds r then b.content else []) = Block.residue r := by
      funext b
      simp only [Block.residue, ← Block.holds_iff]
    rw [evaluateConditionals, evaluateBlocks, hresolve, hresidue, collapseBlankLines,
      String.toList_ofList]
  · intro text
    obtain ⟨k, hk, htext, hsqueeze⟩ := exists_cut_squeezeBreaks text.toList
    refine ⟨k, Marking.isLeftmost_and_text_eq_iff isUnambiguous_longRuns hk htext, ?_⟩
    rw [collapseBlankLines, hsqueeze]

end Outreach.Message
