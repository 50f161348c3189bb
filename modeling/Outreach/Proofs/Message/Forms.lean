import Outreach.Proofs.Deal.Terms
import Outreach.Proofs.Display.Presence
import Outreach.Proofs.Message.ShortRuns

/-!
# Templates as Forms

A template is a text that is read twice, once for its blocks and once for its tokens. A *form* is
what its author has in mind: passages, each of which stays always, or if a field is present, or with
one of the choices for the hand controller, and in each passage the characters of the text and the
places of fields. A form is written out as a template. If nothing in its texts looks like a bracket,
a brace or a carriage return, both readings find what was meant: the message has the passages that
stay, runs of breaks in their text reduced to two, and in the place of each field its display value.

## Main results

* `reduceBreaks_replicate_append`: a run of breaks is reduced to two, whatever its length.
* `squeezeBreaks_source`: squeezing the text of marks is reducing the runs among them.
* `resolveBlocks_source`: deciding the blocks of a form keeps the passages that stay.
* `substituteSlots_source`: each place takes the value of its field.
* `Form.fillTemplate_source`: **a form is filled in as it is meant.**
-/

namespace Outreach.Message

open Text

/-! ### Marks -/

/-- A **mark** of a form: a character of its text, or the place of a field. -/
inductive Mark where
  | char (c : Char)
  | place (f : Field)
  deriving DecidableEq, Repr

namespace Mark

/-- The template that a form is written out as, passage by passage. -/
def source : Mark → List Char
  | char c => [c]
  | place f => '\x7b' :: f.name.toList ++ ['\x7d']

/-- The text that stands for a mark in a message. -/
def fill (values : Field → String) : Mark → List Char
  | char c => [c]
  | place f => (values f).toList

/-- A mark is **plain** unless it is a character by which templates are read: a bracket, a brace or
a carriage return. -/
def IsPlain : Mark → Prop
  | char c => c ∉ ['[', ']', '\x7b', '\x7d', '\r']
  | place _ => True

instance : DecidablePred IsPlain
  | char c => inferInstanceAs (Decidable (c ∉ ['[', ']', '\x7b', '\x7d', '\r']))
  | place _ => .isTrue trivial

/-- The line feed of a text, the only line break that a form has. -/
def feed : Mark := char '\n'

/-- The marks of a text without places, one for each character. -/
def ofText (s : String) : List Mark :=
  s.toList.map char

end Mark

open Mark

/-- The marks with each run of three or more breaks reduced to two: a break that two others directly
follow is left out. -/
def reduceBreaks : List Mark → List Mark
  | [] => []
  | m :: ms => if m = feed ∧ [feed, feed] <+: ms then reduceBreaks ms else m :: reduceBreaks ms

/-! ### Reducing runs -/

variable {m : Mark} {ms ns : List Mark}

/-- Reducing runs of breaks adds no mark. -/
theorem mem_of_mem_reduceBreaks (h : m ∈ reduceBreaks ms) : m ∈ ms := by
  induction ms with
  | nil => exact h
  | cons n ms ih =>
      rw [reduceBreaks] at h
      split at h
      · exact List.mem_cons_of_mem n (ih h)
      · exact List.mem_cons.mpr ((List.mem_cons.mp h).imp_right ih)

/-- A mark other than a break always stays. -/
theorem reduceBreaks_cons_of_ne (hm : m ≠ feed) (ms : List Mark) :
    reduceBreaks (m :: ms) = m :: reduceBreaks ms :=
  if_neg fun h => hm h.1

/-- A run at the front of marks is not longer for what follows another mark than a break. -/
theorem feeds_isPrefix_append_cons_iff (hm : m ≠ feed) (ms ns : List Mark) :
    [feed, feed] <+: ms ++ m :: ns ↔ [feed, feed] <+: ms := by
  rcases ms with _ | ⟨a, _ | ⟨b, ms⟩⟩ <;> simp [List.cons_prefix_cons, hm.symm]

/-- **No run reaches over another mark than a break.** -/
theorem reduceBreaks_append_cons (hm : m ≠ feed) (ms ns : List Mark) :
    reduceBreaks (ms ++ m :: ns) = reduceBreaks ms ++ m :: reduceBreaks ns := by
  induction ms with
  | nil => exact reduceBreaks_cons_of_ne hm ns
  | cons a ms ih =>
      simp only [List.cons_append, reduceBreaks, feeds_isPrefix_append_cons_iff hm, ih]
      split
      · rfl
      · rfl

/-- Marks that are no breaks stay as they are. -/
theorem reduceBreaks_append (hms : feed ∉ ms) (ns : List Mark) :
    reduceBreaks (ms ++ ns) = ms ++ reduceBreaks ns := by
  induction ms with
  | nil => rfl
  | cons a ms ih =>
      rw [List.mem_cons, not_or] at hms
      rw [List.cons_append, reduceBreaks_cons_of_ne (Ne.symm hms.1), ih hms.2, List.cons_append]

/-- A part without breaks is found again after the runs have been reduced. -/
theorem isInfix_reduceBreaks (hms : feed ∉ ms) (h : ms <:+: ns) : ms <:+: reduceBreaks ns := by
  obtain ⟨before, after, rfl⟩ := h
  cases ms with
  | nil => exact List.nil_infix
  | cons a ms =>
      rw [List.mem_cons, not_or] at hms
      refine ⟨reduceBreaks before, reduceBreaks after, ?_⟩
      rw [List.append_assoc, List.cons_append, List.append_assoc, List.cons_append,
        reduceBreaks_append_cons (Ne.symm hms.1), reduceBreaks_append hms.2]

/-- **A run of breaks is reduced to two**, whatever its length. -/
theorem reduceBreaks_replicate_append (n : Nat) (h : ns.head? ≠ some feed) :
    reduceBreaks (List.replicate n feed ++ ns) =
      List.replicate (min n 2) feed ++ reduceBreaks ns := by
  have hshort : ∀ ms : List Mark, ¬ [feed, feed] <+: ms →
      reduceBreaks (feed :: ms) = feed :: reduceBreaks ms := fun ms hms => if_neg fun h => hms h.2
  have hns : ∀ ms, ns ≠ feed :: ms := by
    rintro ms rfl
    exact h rfl
  induction n with
  | zero => rfl
  | succ n ih =>
      rw [List.replicate_succ, List.cons_append]
      rcases n with _ | _ | n
      · rw [hshort]
        · rfl
        · rintro ⟨ms, rfl⟩
          exact hns _ rfl
      · rw [hshort, ih]
        · rfl
        · rintro ⟨ms, heq⟩
          exact hns ms (List.cons.inj heq).2.symm
      · rw [reduceBreaks, if_pos ⟨rfl, ⟨_, rfl⟩⟩, ih, Nat.min_eq_right (by omega),
          Nat.min_eq_right (by omega)]

/-! ### Passages and forms -/

/-- When a passage stays: always, if a field is there, or for one choice of the hand controller. -/
inductive Condition where
  | always
  | present (f : Field)
  | choice (choice : SendHandle)
  deriving DecidableEq, Repr

/-- A condition **holds** for the raw values of a deal: a field is present if its value is not
absent, and a choice has been made if, blanks aside, its word is given for the hand controller. -/
def Condition.Holds (raw : Field → String) : Condition → Prop
  | always => True
  | present f => isAbsent (raw f) = false
  | choice c => Text.trim (raw .sendHandle) = c.text

instance (raw : Field → String) : DecidablePred (Condition.Holds raw)
  | .always => .isTrue trivial
  | .present f => inferInstanceAs (Decidable (isAbsent (raw f) = false))
  | .choice c => inferInstanceAs (Decidable (Text.trim (raw .sendHandle) = c.text))

/-- A **passage** of a form: marks that stay or go together. -/
structure Passage where
  condition : Condition
  content : List Mark
  deriving DecidableEq, Repr

namespace Passage

/-- The text that a passage is written as: its content, in a block unless it stays always. -/
def source (s : Passage) : List Char :=
  let text := s.content.flatMap Mark.source
  match s.condition with
  | .always => text
  | .present f => Block.source ⟨f.name.toList, none, text⟩
  | .choice c => Block.source ⟨Field.sendHandle.name.toList, some c.text.toList, text⟩

/-- The marks of the passages that stay for some raw values, in their order. -/
def kept (raw : Field → String) (s : Passage) : List Mark :=
  if s.condition.Holds raw then s.content else []

end Passage

/-- A **form**: passages of plain marks, so that none of them can be taken for a part of a block
or a token. -/
structure Form where
  passages : List Passage
  plain : ∀ s ∈ passages, ∀ m ∈ s.content, m.IsPlain

namespace Form

/-- The template that a form is written out as. -/
def source (F : Form) : List Char :=
  F.passages.flatMap Passage.source

/-- The marks of the passages that stay. -/
def kept (F : Form) (raw : Field → String) : List Mark :=
  F.passages.flatMap (Passage.kept raw)

/-- The marks of a message: those of the passages that stay, runs of breaks reduced. -/
def marks (F : Form) (raw : Field → String) : List Mark :=
  reduceBreaks (F.kept raw)

variable {F : Form} {raw : Field → String}

/-- Marks that are kept belong to a passage that stays. -/
theorem exists_of_mem_kept (h : m ∈ F.kept raw) :
    ∃ s ∈ F.passages, s.condition.Holds raw ∧ m ∈ s.content := by
  obtain ⟨s, hs, hm⟩ := List.mem_flatMap.mp h
  rw [Passage.kept] at hm
  split at hm
  · exact ⟨s, hs, ‹_›, hm⟩
  · exact absurd hm List.not_mem_nil

/-- The content of a passage that stays is kept in one piece. -/
theorem isInfix_kept {s : Passage} (hs : s ∈ F.passages) (h : s.condition.Holds raw) :
    s.content <:+: F.kept raw := by
  obtain ⟨before, after, hsplit⟩ := List.append_of_mem hs
  have hkept : s.kept raw = s.content := if_pos h
  refine ⟨before.flatMap (Passage.kept raw), after.flatMap (Passage.kept raw), ?_⟩
  rw [kept, hsplit, List.flatMap_append, List.flatMap_cons, hkept, List.append_assoc]

/-- The marks of the passages that stay are plain, as all marks of a form are. -/
theorem isPlain_of_mem_kept (h : m ∈ F.kept raw) : m.IsPlain := by
  obtain ⟨s, hs, -, hm⟩ := exists_of_mem_kept h
  exact F.plain s hs m hm

/-- The marks of a message are plain. -/
theorem isPlain_of_mem_marks (h : m ∈ F.marks raw) : m.IsPlain :=
  isPlain_of_mem_kept (mem_of_mem_reduceBreaks h)

end Form

/-! ### Names of fields -/

/-- The name of a field is a word. -/
theorem isKeyChar_of_mem_name {f : Field} {c : Char} (h : c ∈ f.name.toList) :
    Block.isKeyChar c = true := by
  have hall : f.name.toList.all Block.isKeyChar = true := by cases f <;> decide
  exact List.all_eq_true.mp hall c h

/-- No field has an empty name. -/
theorem name_toList_ne_nil (f : Field) : f.name.toList ≠ [] := by
  cases f <;> decide

/-- A character that no key may have stands in no name of a field. -/
theorem notMem_name {c : Char} (hc : Block.isKeyChar c = false) (f : Field) :
    c ∉ f.name.toList := fun h => by
  rw [isKeyChar_of_mem_name h] at hc
  exact absurd hc (by decide)

/-- The place of a field is written with the characters of words and braces. -/
theorem notMem_source_place {c : Char} (hword : Block.isKeyChar c = false)
    (hbrace : isBrace c = false) (f : Field) : c ∉ (place f).source := by
  intro h
  have hcases : c = '\x7b' ∨ c ∈ f.name.toList ∨ c = '\x7d' := by simpa [Mark.source] using h
  rcases hcases with rfl | hname | rfl
  · exact absurd hbrace (by decide)
  · exact notMem_name hword f hname
  · exact absurd hbrace (by decide)

/-- What plain marks are written as holds no brackets. -/
theorem notMem_flatMap_source {c : Char} (hc : c ∈ ['[', ']']) (hms : ∀ m ∈ ms, m.IsPlain) :
    c ∉ ms.flatMap Mark.source := by
  rw [List.mem_flatMap]
  rintro ⟨m, hm, hmem⟩
  cases m with
  | char d =>
      obtain rfl := List.mem_singleton.mp hmem
      exact hms _ hm (List.mem_append_left ['\x7b', '\x7d', '\r'] hc)
  | place f =>
      rcases List.mem_pair.mp hc with rfl | rfl
      · exact notMem_source_place (by decide) (by decide) f hmem
      · exact notMem_source_place (by decide) (by decide) f hmem

/-! ### Deciding the blocks of a form -/

variable {r : Record} {raw : Field → String}

theorem resolveBlocks_nil (keep : Block → Bool) : resolveBlocks keep [] = [] := by
  rw [resolveBlocks, pieces]
  rfl

/-- Text without an opening bracket stays. -/
theorem resolveBlocks_append (keep : Block → Bool) {cs : List Char} (hcs : '[' ∉ cs)
    (rest : List Char) : resolveBlocks keep (cs ++ rest) = cs ++ resolveBlocks keep rest := by
  induction cs with
  | nil => rfl
  | cons c cs ih =>
      rw [List.mem_cons, not_or] at hcs
      rw [List.cons_append, resolveBlocks, pieces_cons_of_ne (Ne.symm hcs.1), List.flatMap_cons,
        ← resolveBlocks, ih hcs.2]
      rfl

/-- A block is decided apart from what follows it. -/
theorem resolveBlocks_source_append (keep : Block → Bool) {b : Block} (hb : b.IsWellFormed)
    (rest : List Char) : resolveBlocks keep (b.source ++ rest) =
      (if keep b then b.content else []) ++ resolveBlocks keep rest := by
  have hread := Block.read?_eq_some_iff.mpr ⟨hb, Eq.refl (b.source ++ rest)⟩
  have hpieces : pieces (b.source ++ rest) = .block b :: pieces rest := by
    rw [pieces]
    split
    · rename_i b' rest' hread'
      obtain ⟨rfl, rfl⟩ := Prod.mk.inj (Option.some.inj (hread.symm.trans hread'))
      rfl
    · rename_i hnone
      exact absurd (hread.symm.trans hnone) (by simp)
  rw [resolveBlocks, hpieces, List.flatMap_cons]
  rfl

/-- The block of a passage with a condition is well-formed. -/
theorem isWellFormed_block {e : Option (List Char)} {text : List Char} (f : Field)
    (he : Block.IsExpectable e) (htext : ']' ∉ text) :
    (Block.mk f.name.toList e text).IsWellFormed where
  key_ne_nil := name_toList_ne_nil f
  isWordChar_of_mem_key c hc := (Block.isKeyChar_iff c).mp (isKeyChar_of_mem_name hc)
  expected_ne_nil := he.1
  bar_notMem_expected := he.2.1
  bracket_notMem_expected := he.2.2
  bracket_notMem_content := htext

/-- The word for a choice can be expected by a block. -/
theorem isExpectable_text (c : SendHandle) : Block.IsExpectable (some c.text.toList) := by
  cases c <;> simp [Block.IsExpectable, SendHandle.text]

section Deal

variable (hraw : ∀ f, r.get? f.name = some (raw f))
include hraw

/-- A block on the presence of a field stays exactly if the field is present. -/
theorem holds_present_iff (f : Field) (text : List Char) :
    Block.holds r ⟨f.name.toList, none, text⟩ = true ↔ (Condition.present f).Holds raw := by
  rw [Block.holds_iff, Block.stays_iff_of_expected_eq_none rfl, String.ofList_toList, hraw]
  simp [Condition.Holds]

/-- A block on a choice stays exactly if the choice has been made. -/
theorem holds_choice_iff (c : SendHandle) (text : List Char) :
    Block.holds r ⟨Field.sendHandle.name.toList, some c.text.toList, text⟩ = true ↔
      (Condition.choice c).Holds raw := by
  rw [Block.holds_iff]
  simp only [Block.Stays, String.ofList_toList, hraw, SendHandle.trim_text, Option.getD_some]
  rfl

/-- **A passage keeps its content exactly if its condition holds.** -/
theorem resolveBlocks_passage (s : Passage) (hs : ∀ m ∈ s.content, m.IsPlain)
    (rest : List Char) : resolveBlocks (Block.holds r) (s.source ++ rest) =
      (s.kept raw).flatMap Mark.source ++ resolveBlocks (Block.holds r) rest := by
  obtain ⟨condition, content⟩ := s
  have hopen : '[' ∉ content.flatMap Mark.source := notMem_flatMap_source (by decide) hs
  have hclose : ']' ∉ content.flatMap Mark.source := notMem_flatMap_source (by decide) hs
  cases condition with
  | always => exact resolveBlocks_append _ hopen rest
  | present f =>
      have hexpected : Block.IsExpectable none := by simp [Block.IsExpectable]
      rw [Passage.source, resolveBlocks_source_append _ (isWellFormed_block f hexpected hclose),
        Passage.kept]
      simp only [holds_present_iff hraw]
      split <;> rfl
  | choice c =>
      rw [Passage.source,
        resolveBlocks_source_append _ (isWellFormed_block _ (isExpectable_text c) hclose),
        Passage.kept]
      simp only [holds_choice_iff hraw]
      split <;> rfl

/-- **Deciding the blocks of a form keeps the passages that stay.** -/
theorem Form.resolveBlocks_source (F : Form) :
    resolveBlocks (Block.holds r) F.source = (F.kept raw).flatMap Mark.source := by
  obtain ⟨passages, hplain⟩ := F
  simp only [Form.source, Form.kept]
  induction passages with
  | nil => exact resolveBlocks_nil _
  | cons s passages ih =>
      rw [List.flatMap_cons, List.flatMap_cons, List.flatMap_append,
        resolveBlocks_passage hraw s (hplain s List.mem_cons_self),
        ih fun s' hs' => hplain s' (List.mem_cons_of_mem s hs')]

end Deal

/-! ### Squeezing the text of marks -/

/-- Text without line breaks stays as it is. -/
theorem squeezeBreaks_append {cs : List Char} (hcs : ∀ c ∈ cs, EndsRun c) (rest : List Char) :
    squeezeBreaks (cs ++ rest) = cs ++ squeezeBreaks rest := by
  induction cs with
  | nil => rfl
  | cons c cs ih =>
      rw [List.cons_append, squeezeBreaks_cons ((hcs c List.mem_cons_self).dropThreeBreaks?_cons _),
        ih fun d hd => hcs d (List.mem_cons_of_mem c hd), List.cons_append]

/-- Two line feeds stay, and the breaks that directly follow them go. -/
theorem squeezeBreaks_feed_feed (cs : List Char) :
    squeezeBreaks ('\n' :: '\n' :: cs) = '\n' :: '\n' :: squeezeBreaks (dropBreaks cs) := by
  have hthree : dropThreeBreaks? ('\n' :: '\n' :: cs) = dropBreak? cs := rfl
  rw [dropBreaks]
  split
  · rename_i hnone
    have hsecond : dropThreeBreaks? ('\n' :: cs) = none := by
      change (dropBreak? cs).bind dropBreak? = none
      rw [hnone, Option.bind_none]
    rw [squeezeBreaks_cons (hthree.trans hnone), squeezeBreaks_cons hsecond]
  · rename_i rest hsome
    exact squeezeBreaks_of_some (hthree.trans hsome)

/-- What the place of a field is written as holds no line break. -/
theorem endsRun_of_mem_source {f : Field} {c : Char} (hc : c ∈ (place f).source) : EndsRun c := by
  constructor
  · rintro rfl
    exact notMem_source_place (by decide) (by decide) f hc
  · rintro rfl
    exact notMem_source_place (by decide) (by decide) f hc

/-- Among plain characters, only line feeds belong to line breaks. -/
theorem endsRun_of_isPlain {c : Char} (hplain : (char c).IsPlain) (hc : c ≠ '\n') : EndsRun c := by
  refine ⟨hc, ?_⟩
  rintro rfl
  exact absurd hplain (by decide)

/-- A break at the front of the text of plain marks is the first mark. -/
theorem exists_of_dropBreak?_eq_some (hms : ∀ m ∈ ms, m.IsPlain) {rest : List Char}
    (h : dropBreak? (ms.flatMap Mark.source) = some rest) :
    ∃ ns, ms = feed :: ns ∧ rest = ns.flatMap Mark.source := by
  rcases ms with _ | ⟨⟨c⟩ | ⟨f⟩, ns⟩
  · exact absurd h (by simp [dropBreak?])
  · by_cases hc : c = '\n'
    · subst hc
      exact ⟨ns, rfl, (Option.some.inj h).symm⟩
    · have hends := endsRun_of_isPlain (hms _ List.mem_cons_self) hc
      exact absurd ((hends.dropBreak?_cons _).symm.trans h) (by simp)
  · have hopen : EndsRun '\x7b' := ⟨by decide, by decide⟩
    exact absurd ((hopen.dropBreak?_cons _).symm.trans h) (by simp)

/-- A run of breaks in the text of plain marks is long only if it is so in the marks. -/
theorem feeds_isPrefix_of_dropThreeBreaks? (hms : ∀ m ∈ ms, m.IsPlain)
    (h : dropThreeBreaks? ('\n' :: ms.flatMap Mark.source) ≠ none) : [feed, feed] <+: ms := by
  obtain ⟨rest, hrest⟩ := Option.ne_none_iff_exists'.mp h
  have htwo : (dropBreak? (ms.flatMap Mark.source)).bind dropBreak? = some rest := hrest
  obtain ⟨text, hfirst, hsecond⟩ := Option.bind_eq_some_iff.mp htwo
  obtain ⟨ns, rfl, rfl⟩ := exists_of_dropBreak?_eq_some hms hfirst
  obtain ⟨ns', rfl, -⟩ :=
    exists_of_dropBreak?_eq_some (fun m hm => hms m (List.mem_cons_of_mem _ hm)) hsecond
  exact ⟨ns', rfl⟩

/-- **Squeezing the text of marks is reducing the runs among them.** -/
theorem squeezeBreaks_source (hms : ∀ m ∈ ms, m.IsPlain) :
    squeezeBreaks (ms.flatMap Mark.source) = (reduceBreaks ms).flatMap Mark.source := by
  induction ms with
  | nil =>
      rw [List.flatMap_nil, squeezeBreaks]
      rfl
  | cons m ms ih =>
      have hrest : ∀ n ∈ ms, n.IsPlain := fun n hn => hms n (List.mem_cons_of_mem m hn)
      rw [reduceBreaks]
      split
      · rename_i hlong
        obtain ⟨rfl, ns, rfl⟩ := hlong
        -- of three breaks the first one goes, and what directly follows the others with it
        have hfirst : squeezeBreaks ('\n' :: '\n' :: '\n' :: ns.flatMap Mark.source) =
            squeezeBreaks ('\n' :: '\n' :: ns.flatMap Mark.source) := by
          rw [squeezeBreaks_feed_feed, squeezeBreaks_feed_feed, dropBreaks]
          rfl
        exact hfirst.trans (ih hrest)
      · rename_i hshort
        rw [List.flatMap_cons, List.flatMap_cons, ← ih hrest]
        cases m with
        | place f => exact squeezeBreaks_append (fun c hc => endsRun_of_mem_source hc) _
        | char c =>
            refine squeezeBreaks_cons ?_
            by_cases hc : c = '\n'
            · subst hc
              by_contra hthree
              exact hshort ⟨rfl, feeds_isPrefix_of_dropThreeBreaks? hrest hthree⟩
            · exact (endsRun_of_isPlain (hms _ List.mem_cons_self) hc).dropThreeBreaks?_cons _

/-! ### Filling places -/

/-- **Each place takes the value of its field**, and plain characters stay. -/
theorem substituteSlots_source {values : Record} {shown : Field → String}
    (hvalues : ∀ f, values.get? f.name = some (shown f)) (hms : ∀ m ∈ ms, m.IsPlain) :
    substituteSlots values (ms.flatMap Mark.source) = ms.flatMap (Mark.fill shown) := by
  induction ms with
  | nil => exact substituteSlots_nil values
  | cons m ms ih =>
      have hrest := ih fun n hn => hms n (List.mem_cons_of_mem m hn)
      rw [List.flatMap_cons, List.flatMap_cons, ← hrest]
      cases m with
      | char c =>
          refine substituteSlots_cons values (not_starts_of_ne ?_ _)
          rintro rfl
          exact absurd (hms _ List.mem_cons_self) (by decide)
      | place f =>
          have hname : ∀ c ∈ f.name.toList, isBrace c = false := fun c hc => by
            have hopen : c ≠ '\x7b' := fun h => notMem_name (by decide) f (h ▸ hc)
            have hclose : c ≠ '\x7d' := fun h => notMem_name (by decide) f (h ▸ hc)
            simp [isBrace, hopen, hclose]
          have hfilled := substituteSlots_write_append values hname (ms.flatMap Mark.source)
          rw [replacement, String.ofList_toList, hvalues] at hfilled
          exact hfilled

/-! ### Messages of forms -/

namespace Form

variable {F : Form} {content : List Mark}

/-- A form that always starts with a text has messages that start with it. -/
theorem head?_marks (hfirst : F.passages.head? = some ⟨.always, content⟩)
    (hm : content.head? = some m) (hne : m ≠ feed) : (F.marks raw).head? = some m := by
  obtain ⟨passages, hpassages⟩ := List.head?_eq_some_iff.mp hfirst
  obtain ⟨rest, rfl⟩ := List.head?_eq_some_iff.mp hm
  rw [marks, kept, hpassages, List.flatMap_cons]
  exact congrArg List.head? (reduceBreaks_cons_of_ne hne _)

/-- A form that always ends with a text has messages that end with it. -/
theorem getLast?_marks (hlast : F.passages.getLast? = some ⟨.always, content⟩)
    (hm : content.getLast? = some m) (hne : m ≠ feed) : (F.marks raw).getLast? = some m := by
  obtain ⟨passages, hpassages⟩ := List.getLast?_eq_some_iff.mp hlast
  obtain ⟨front, rfl⟩ := List.getLast?_eq_some_iff.mp hm
  have hkept : F.kept raw = passages.flatMap (Passage.kept raw) ++ front ++ [m] := by
    rw [kept, hpassages, List.flatMap_append, List.flatMap_singleton, List.append_assoc]
    rfl
  rw [marks, hkept, reduceBreaks_append_cons hne]
  exact List.getLast?_append_cons ..

/-- **A form is filled in as it is meant**: the passages that stay, runs of breaks in their text
reduced to two, and the display value of a field in each of its places. -/
theorem fillTemplate_source (F : Form) (p : Display) (hraw : ∀ f, r.get? f.name = some (raw f)) :
    fillTemplate p r F.source =
      (F.marks raw).flatMap (Mark.fill fun f => p.showField f.name (raw f)) := by
  have hshown : ∀ f : Field, (p.apply r).get? f.name = some (p.showField f.name (raw f)) :=
    fun f => by rw [Display.get?_apply, hraw, Option.map_some]
  rw [fillTemplate, evaluateBlocks, F.resolveBlocks_source hraw,
    squeezeBreaks_source fun m hm => isPlain_of_mem_kept hm, ← marks,
    substituteSlots_source hshown fun m hm => isPlain_of_mem_marks hm]

end Form

/-- Marks with characters at both ends are filled in to a trimmed text if the characters are not
blank. -/
theorem isTrimmed_flatMap_fill {c d : Char} {values : Field → String}
    (hfirst : ms.head? = some (char c)) (hlast : ms.getLast? = some (char d))
    (hc : isBlank c = false) (hd : isBlank d = false) :
    IsTrimmed (ms.flatMap (Mark.fill values)) where
  front x hx := by
    obtain ⟨rest, rfl⟩ := List.head?_eq_some_iff.mp hfirst
    obtain rfl := Option.some.inj hx
    exact hc
  back x hx := by
    obtain ⟨front, rfl⟩ := List.getLast?_eq_some_iff.mp hlast
    rw [List.flatMap_append] at hx
    obtain rfl : d = x := by simpa [Mark.fill] using hx
    exact hd

end Outreach.Message
