/-!
# Cutting a Text at Its Leftmost Marks

A *marking* says how the marks of some kind are written and before which text each of them may
stand. A *cut* writes a text as plain text, a mark, plain text, a mark, and so on. It is *leftmost*
if every mark may stand where it stands and no mark starts at any position within the plain text,
with all the text from there on in view. Replacing the marks of a text from left to right, without
a second look at what was put in, is replacing the marks of its leftmost cut.

## Main results

* `Marking.eq_of_text_eq`: a text has at most one leftmost cut, if no text can be read as two
  different marks at its front.
* `Marking.isLeftmost_push`, `Marking.isLeftmost_mark_nil`: reading on by a character or by a mark
  keeps a cut leftmost.
-/

namespace Outreach.Text

/-- A **cut** of a text: plain text, or plain text before a mark with a cut of what follows. -/
inductive Cut (α : Type) where
  | plain (l : List Char)
  | mark (l : List Char) (a : α) (rest : Cut α)

namespace Cut

variable {α : Type}

/-- The text of a cut, with each mark written in some way. -/
def text (write : α → List Char) : Cut α → List Char
  | plain l => l
  | mark l a rest => l ++ (write a ++ rest.text write)

/-- The cut with one more character of plain text at its front. -/
def push (c : Char) : Cut α → Cut α
  | plain l => plain (c :: l)
  | mark l a rest => mark (c :: l) a rest

/-- A character that joins the first gap of a cut comes first in its text. -/
@[simp] theorem text_push (write : α → List Char) (c : Char) (k : Cut α) :
    (k.push c).text write = c :: k.text write := by
  cases k <;> rfl

end Cut

/-- A **marking**: how marks are written, and before which text a mark may stand. -/
structure Marking (α : Type) where
  write : α → List Char
  fits : α → List Char → Prop

namespace Marking

variable {α : Type} (m : Marking α)

/-- A mark starts at the front of a text, and the text behind it is one that it fits. -/
def Starts (cs : List Char) : Prop :=
  ∃ a rest, m.fits a rest ∧ cs = m.write a ++ rest

/-- No mark starts at any position within plain text that some text follows. -/
def IsFree (l after : List Char) : Prop :=
  ∀ u v, l = u ++ v → v ≠ [] → ¬ m.Starts (v ++ after)

/-- A cut is **leftmost**: its marks may stand where they stand, and none starts within the plain
text. -/
def IsLeftmost : Cut α → Prop
  | .plain l => m.IsFree l []
  | .mark l a rest =>
    m.IsFree l (m.write a ++ rest.text m.write) ∧ m.fits a (rest.text m.write) ∧
      IsLeftmost rest

/-- Marks are **unambiguous**: none that stands in a text is written as nothing, and a text has at
most one mark at its front. -/
structure IsUnambiguous : Prop where
  write_ne_nil : ∀ {a rest}, m.fits a rest → m.write a ≠ []
  eq_of_write_append : ∀ {a a' rest rest'}, m.fits a rest → m.fits a' rest' →
    m.write a ++ rest = m.write a' ++ rest' → a = a' ∧ rest = rest'

variable {m}

/-- Nothing at all is free of marks, whatever comes behind it. -/
theorem isFree_nil (after : List Char) : m.IsFree [] after := by
  intro u v h hv
  exact absurd (List.append_eq_nil_iff.mp h.symm).2 hv

/-- Plain text stays free of marks under a character at which none starts. -/
theorem IsFree.cons {c : Char} {l after : List Char} (hc : ¬ m.Starts (c :: (l ++ after)))
    (h : m.IsFree l after) : m.IsFree (c :: l) after := by
  intro u v hl hv
  cases u with
  | nil =>
      obtain rfl : c :: l = v := hl
      exact hc
  | cons d u =>
      obtain ⟨-, rfl⟩ := List.cons.inj hl
      exact h u v rfl hv

/-- Reading on by a character at which no mark starts keeps a cut leftmost. -/
theorem isLeftmost_push {c : Char} {k : Cut α} (hc : ¬ m.Starts (c :: k.text m.write))
    (h : m.IsLeftmost k) : m.IsLeftmost (k.push c) := by
  cases k with
  | plain l =>
      refine IsFree.cons ?_ h
      rwa [List.append_nil]
  | mark l a rest =>
      obtain ⟨hfree, hfits, hrest⟩ := h
      exact ⟨hfree.cons hc, hfits, hrest⟩

/-- Reading on by a mark keeps a cut leftmost. -/
theorem isLeftmost_mark_nil {a : α} {k : Cut α} (ha : m.fits a (k.text m.write))
    (h : m.IsLeftmost k) : m.IsLeftmost (.mark [] a k) :=
  ⟨isFree_nil _, ha, h⟩

/-- Text that goes on with a mark leaves no room for that mark in longer plain text. -/
theorem IsFree.not_append {l v after rest : List Char} {a : α} (h : m.IsFree (l ++ v) after)
    (hv : v ≠ []) (ha : m.fits a rest) : v ++ after ≠ m.write a ++ rest :=
  fun he => h l v rfl hv ⟨a, rest, ha, he⟩

/-- **Uniqueness.** A text has at most one leftmost cut. -/
theorem eq_of_text_eq (hm : m.IsUnambiguous) {k k' : Cut α} (h : m.IsLeftmost k)
    (h' : m.IsLeftmost k') (ht : k.text m.write = k'.text m.write) : k = k' := by
  induction k generalizing k' with
  | plain l =>
      cases k' with
      | plain l' => exact congrArg Cut.plain ht
      | mark l' a' rest' =>
          -- the mark of one cut would start within the plain text of the other
          obtain rfl : l = l' ++ (m.write a' ++ rest'.text m.write) := ht
          have hne : m.write a' ++ rest'.text m.write ≠ [] := by
            simp [hm.write_ne_nil h'.2.1]
          exact absurd (List.append_nil _) (IsFree.not_append h hne h'.2.1)
  | mark l a rest ih =>
      obtain ⟨hfree, hfits, hrest⟩ := h
      cases k' with
      | plain l' =>
          obtain rfl : l ++ (m.write a ++ rest.text m.write) = l' := ht
          have hne : m.write a ++ rest.text m.write ≠ [] := by
            simp [hm.write_ne_nil hfits]
          exact absurd (List.append_nil _) (IsFree.not_append h' hne hfits)
      | mark l' a' rest' =>
          obtain ⟨hfree', hfits', hrest'⟩ := h'
          rcases List.append_eq_append_iff.mp ht with ⟨v, rfl, hv⟩ | ⟨v, rfl, hv⟩
          · rcases v with - | ⟨c, v⟩
            · obtain ⟨rfl, htext⟩ := hm.eq_of_write_append hfits hfits' hv
              rw [ih hrest hrest' htext, List.append_nil]
            · exact absurd hv.symm (hfree'.not_append (List.cons_ne_nil c v) hfits)
          · rcases v with - | ⟨c, v⟩
            · obtain ⟨rfl, htext⟩ := hm.eq_of_write_append hfits' hfits hv
              rw [ih hrest hrest' htext.symm, List.append_nil]
            · exact absurd hv.symm (hfree.not_append (List.cons_ne_nil c v) hfits')

/-- A leftmost cut of a text is the only one. -/
theorem isLeftmost_and_text_eq_iff (hm : m.IsUnambiguous) {k : Cut α} {cs : List Char}
    (hk : m.IsLeftmost k) (htext : k.text m.write = cs) (k' : Cut α) :
    m.IsLeftmost k' ∧ k'.text m.write = cs ↔ k' = k := by
  constructor
  · rintro ⟨hk', htext'⟩
    exact eq_of_text_eq hm hk' hk (htext'.trans htext.symm)
  · rintro rfl
    exact ⟨hk, htext⟩

end Marking

end Outreach.Text
