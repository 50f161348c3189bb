import Outreach.Yaml.Scalar.Writer
import Outreach.Yaml.Scan

/-!
# Places in a YAML Text

The marks of a text depend on the place where the text starts. A text without carriage returns has
one mark for each character, and the marks of what follows it are those from the place behind it.
A reader that goes through a text therefore stops at the marks of the rest from some later place.

## Main results

* `Place.marks_cons`: the mark of a character in front of the marks of the rest.
* `Place.length_marks_le`: what follows a text has no more marks than the whole.
-/

namespace Outreach.Yaml

/-- A **place** in a text, counted in bytes, lines and columns. -/
structure Place where
  /-- The number of bytes in front. -/
  index : Nat
  line : Nat
  column : Nat
  deriving DecidableEq, Repr

namespace Place

/-- The marks of a text from a place on, as the reader sees them. -/
def marks (p : Place) (cs : List Char) : Source :=
  marksFrom p.index p.line p.column cs

/-- The mark of a character at a place. -/
def mark (p : Place) (c : Char) : Mark :=
  ⟨c, p.index, p.line, p.column⟩

/-- The place behind a character. -/
def behind (p : Place) (c : Char) : Place :=
  if isBreak c then ⟨p.index + c.utf8Size, p.line + 1, 0⟩
  else ⟨p.index + c.utf8Size, p.line, p.column + 1⟩

/-- The place behind a text. -/
def after (p : Place) (cs : List Char) : Place :=
  cs.foldl behind p

end Place

/-! ### Characters -/

/-- A character whose mark shows the character itself: neither a carriage return nor the next line
character. -/
def IsKept (c : Char) : Prop :=
  c ≠ '\r' ∧ c ≠ '\x85'

instance : DecidablePred IsKept := fun _ => inferInstanceAs (Decidable (_ ∧ _))

theorem isBreak_newline : isBreak '\n' = true := rfl

theorem isBreak_space : isBreak ' ' = false := rfl

theorem isBreak_backslash : isBreak '\\' = false := rfl

theorem isBreak_apostrophe : isBreak '\'' = false := rfl

/-- The line breaks of YAML are line feed, carriage return, next line, and the two separators of
Unicode. -/
theorem isBreak_iff {c : Char} : isBreak c = true ↔
    c = '\n' ∨ c = '\r' ∨ c = '\x85' ∨ c = '\u2028' ∨ c = '\u2029' := by
  simp only [isBreak, Bool.or_eq_true, beq_iff_eq, ← Char.toNat_inj, or_assoc]
  rfl

/-- A character that is no line break is shown by its mark as it is. -/
theorem isKept_of_isBreak {c : Char} (h : isBreak c = false) : IsKept c := by
  constructor
  · rintro rfl
    exact absurd h (by decide)
  · rintro rfl
    exact absurd h (by decide)

/-- A blank is no line break, so it leaves the line as it is. -/
theorem isBreak_of_isBlank {c : Char} (h : isBlank c = true) : isBreak c = false := by
  simp only [isBlank, Bool.or_eq_true, beq_iff_eq] at h
  rcases h with rfl | rfl <;> rfl

/-! ### Marks -/

namespace Place

variable {p : Place} {c : Char} {cs : List Char}

@[simp] theorem mark_char (p : Place) (c : Char) : (p.mark c).char = c := rfl

@[simp] theorem mark_column (p : Place) (c : Char) : (p.mark c).column = p.column := rfl

@[simp] theorem mark_line (p : Place) (c : Char) : (p.mark c).line = p.line := rfl

@[simp] theorem mark_index (p : Place) (c : Char) : (p.mark c).index = p.index := rfl

@[simp] theorem marks_nil (p : Place) : p.marks [] = [] := by
  simp [marks, marksFrom]

@[simp] theorem after_nil (p : Place) : p.after [] = p := rfl

/-- The place behind a text is the place behind its rest, begun behind its first character. -/
@[simp] theorem after_cons (p : Place) (c : Char) (cs : List Char) :
    p.after (c :: cs) = (p.behind c).after cs := rfl

/-- The place behind two texts is the place behind the second, begun behind the first. -/
@[simp] theorem after_append (p : Place) (cs ds : List Char) :
    p.after (cs ++ ds) = (p.after cs).after ds :=
  List.foldl_append

/-- A carriage return and a line feed have one mark. -/
theorem marks_pair (p : Place) (cs : List Char) :
    p.marks ('\r' :: '\n' :: cs) =
      p.mark '\n' :: (⟨p.index + 2, p.line + 1, 0⟩ : Place).marks cs := by
  simp [marks, marksFrom, mark]

/-- Any other character has a mark of its own. -/
theorem marks_cons_unify (h : ∀ ds, c = '\r' → cs ≠ '\n' :: ds) (p : Place) :
    p.marks (c :: cs) = p.mark (unifyBreak c) :: (p.behind c).marks cs := by
  rw [marks, marksFrom]
  · split
    · rename_i hbreak
      simp [marks, mark, behind, hbreak]
    · rename_i hbreak
      have hunify : unifyBreak c = c := by
        have := isKept_of_isBreak (Bool.not_eq_true _ ▸ hbreak)
        simp [unifyBreak, this.1, this.2]
      simp [marks, mark, behind, hbreak, hunify]
  · exact h

/-- The marks of a text are that of its first character and those of the rest from the place
behind it. -/
theorem marks_cons (h : IsKept c) (p : Place) (cs : List Char) :
    p.marks (c :: cs) = p.mark c :: (p.behind c).marks cs := by
  have hunify : unifyBreak c = c := by simp [unifyBreak, h.1, h.2]
  rw [marks_cons_unify (fun _ hc => absurd hc h.1), hunify]

/-- A text starts with a mark of its first character. -/
theorem exists_marks_cons (p : Place) (c : Char) (cs : List Char) :
    ∃ s, p.marks (c :: cs) = p.mark (unifyBreak c) :: s := by
  by_cases hpair : ∃ ds, c = '\r' ∧ cs = '\n' :: ds
  · obtain ⟨ds, rfl, rfl⟩ := hpair
    exact ⟨_, marks_pair p ds⟩
  · exact ⟨_, marks_cons_unify (fun ds h h' => hpair ⟨ds, h, h'⟩) p⟩

/-- How many marks a text has does not depend on where it starts. -/
theorem length_marks_eq (p q : Place) (cs : List Char) :
    (p.marks cs).length = (q.marks cs).length := by
  induction h : cs.length using Nat.strongRecOn generalizing p q cs with
  | ind n ih =>
      rcases cs with - | ⟨c, cs⟩
      · simp
      · by_cases hpair : ∃ ds, c = '\r' ∧ cs = '\n' :: ds
        · obtain ⟨ds, rfl, rfl⟩ := hpair
          have hshorter : ds.length < n := by
            simp only [← h, List.length_cons]
            omega
          simp only [marks_pair, List.length_cons]
          exact congrArg (· + 1) (ih ds.length hshorter _ _ ds rfl)
        · have hc : ∀ ds, c = '\r' → cs ≠ '\n' :: ds := fun ds h h' => hpair ⟨ds, h, h'⟩
          simp only [marks_cons_unify hc, List.length_cons]
          exact congrArg (· + 1) (ih cs.length (by simp [← h]) _ _ cs rfl)

/-- What follows a character has no more marks than the whole. -/
theorem length_marks_tail_le (p q : Place) (c : Char) (cs : List Char) :
    (q.marks cs).length ≤ (p.marks (c :: cs)).length := by
  by_cases hpair : ∃ ds, c = '\r' ∧ cs = '\n' :: ds
  · obtain ⟨ds, rfl, rfl⟩ := hpair
    rw [marks_cons (by decide), marks_pair, List.length_cons, List.length_cons]
    exact Nat.le_of_eq (congrArg (· + 1) (length_marks_eq _ _ ds))
  · have hc : ∀ ds, c = '\r' → cs ≠ '\n' :: ds := fun ds h h' => hpair ⟨ds, h, h'⟩
    rw [marks_cons_unify hc, List.length_cons]
    exact Nat.le_succ_of_le (Nat.le_of_eq (length_marks_eq _ _ cs))

/-- What follows a text has no more marks than the whole. -/
theorem length_marks_le (p q : Place) (cs ds : List Char) :
    (q.marks ds).length ≤ (p.marks (cs ++ ds)).length := by
  induction cs with
  | nil => exact Nat.le_of_eq (length_marks_eq q p ds)
  | cons c cs ih =>
      rw [length_marks_eq p q] at ih ⊢
      exact Nat.le_trans ih (length_marks_tail_le q q c (cs ++ ds))

end Place

/-! ### Lines -/

/-- The number of bytes that a text takes. -/
def byteLength : List Char → Nat
  | [] => 0
  | c :: cs => c.utf8Size + byteLength cs

namespace Place

/-- A character that is no break leaves the reader on its line. -/
theorem behind_of_isBreak {c : Char} (h : isBreak c = false) (p : Place) :
    p.behind c = ⟨p.index + c.utf8Size, p.line, p.column + 1⟩ := by
  simp [behind, h]

/-- A text without breaks stays on its line. -/
theorem after_of_isBreak {cs : List Char} (h : ∀ c ∈ cs, isBreak c = false) (p : Place) :
    p.after cs = ⟨p.index + byteLength cs, p.line, p.column + cs.length⟩ := by
  induction cs generalizing p with
  | nil => simp [byteLength]
  | cons c cs ih =>
      rw [after_cons, behind_of_isBreak (h c List.mem_cons_self),
        ih fun d hd => h d (List.mem_cons_of_mem c hd)]
      simp [byteLength]
      omega

/-- No text leads back to an earlier line. -/
theorem line_le_after (p : Place) (cs : List Char) : p.line ≤ (p.after cs).line := by
  induction cs generalizing p with
  | nil => simp
  | cons c cs ih =>
      refine Nat.le_trans ?_ (ih (p.behind c))
      unfold behind
      split <;> simp

end Place

/-- Documents are bounded at the beginning of a line. -/
theorem atDocumentBound_of_column {m : Mark} (h : 0 < m.column) (s : Source) :
    atDocumentBound (m :: s) = false := by
  rcases s with - | ⟨b, - | ⟨c, s⟩⟩
  · rfl
  · rfl
  · simp [atDocumentBound, Nat.pos_iff_ne_zero.mp h]

/-- Documents are bounded by dashes or dots. -/
theorem atDocumentBound_of_char {m : Mark} (h : m.char ≠ '-') (h' : m.char ≠ '.') (s : Source) :
    atDocumentBound (m :: s) = false := by
  rcases s with - | ⟨b, - | ⟨c, s⟩⟩
  · rfl
  · rfl
  · simp [atDocumentBound, h, h']

/-! ### Margins -/

/-- Behind a margin the line is the same and the column is further by as many spaces as the margin
has. -/
theorem after_margin (indent : Nat) (p : Place) :
    p.after (margin indent) = ⟨p.index + byteLength (margin indent), p.line, p.column + indent⟩ := by
  have hspaces : ∀ c ∈ margin indent, isBreak c = false := fun c hc => by
    rw [List.eq_of_mem_replicate hc]
    rfl
  rw [Place.after_of_isBreak hspaces]
  simp [margin]

/-- What does not depend on a space as long as the column is small does not depend on the spaces in
front of a line. -/
theorem read_margin {α : Type} {read : Source → α} {limit : Nat}
    (h : ∀ (p : Place) (cs : List Char), p.column < limit →
      read (p.marks (' ' :: cs)) = read ((p.behind ' ').marks cs))
    {indent : Nat} {p : Place} (hp : p.column + indent ≤ limit) (cs : List Char) :
    read (p.marks (margin indent ++ cs)) = read ((p.after (margin indent)).marks cs) := by
  induction indent generalizing p with
  | zero => simp [margin]
  | succ indent ih =>
      have hmargin : margin (indent + 1) = ' ' :: margin indent := rfl
      have hcolumn : (p.behind ' ').column = p.column + 1 := by
        rw [Place.behind_of_isBreak (by decide)]
      rw [hmargin, List.cons_append, h p _ (by omega), Place.after_cons]
      exact ih (by omega)

end Outreach.Yaml
