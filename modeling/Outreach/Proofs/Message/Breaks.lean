import Outreach.Message.Breaks
import Outreach.Proofs.Text.Cut

/-!
# Long Runs of Line Breaks

The runs of three or more line breaks that reach as far as breaks go are the marks that squeezing
looks for: a text is squeezed by writing two line feeds in place of each mark of its leftmost cut.

## Main results

* `dropBreak?_eq_some_iff`: what follows a line break.
* `isUnambiguous_longRuns`: a text has at most one long run at its front.
* `exists_cut_squeezeBreaks`: the cut of a text at its long runs, and the squeezed text.
-/

namespace Outreach.Message

open Text

/-- A **line break**: a line feed, with or without a carriage return before it. -/
inductive Break where
  | lineFeed
  | returnFeed
  deriving DecidableEq, Repr

/-- The text that a line break is written as. -/
def Break.source : Break → List Char
  | lineFeed => ['\n']
  | returnFeed => ['\r', '\n']

/-- A text starts with a line break, in one of its two spellings. -/
def StartsWithBreak (cs : List Char) : Prop :=
  ∃ (b : Break) (rest : List Char), cs = b.source ++ rest

/-- The **long runs** of a text: three or more line breaks, and none after them. -/
def longRuns : Marking (List Break) where
  write run := run.flatMap Break.source
  fits run rest := 3 ≤ run.length ∧ ¬ StartsWithBreak rest

theorem write_nil : longRuns.write [] = [] := rfl

theorem write_cons (b : Break) (run : List Break) :
    longRuns.write (b :: run) = b.source ++ longRuns.write run :=
  List.flatMap_cons

/-! ### Single breaks -/

/-- A line break is dropped exactly from a text that starts with its spelling. -/
theorem dropBreak?_eq_some_iff {cs rest : List Char} :
    dropBreak? cs = some rest ↔ ∃ b : Break, cs = b.source ++ rest := by
  constructor
  · intro h
    simp only [dropBreak?] at h
    split at h
    · obtain rfl := Option.some.inj h
      exact ⟨.lineFeed, rfl⟩
    · obtain rfl := Option.some.inj h
      exact ⟨.returnFeed, rfl⟩
    · simp at h
  · rintro ⟨b, rfl⟩
    cases b <;> rfl

/-- No line break is dropped exactly if the text does not start with one. -/
theorem dropBreak?_eq_none_iff {cs : List Char} : dropBreak? cs = none ↔ ¬ StartsWithBreak cs := by
  rw [Option.eq_none_iff_forall_ne_some]
  simp only [StartsWithBreak, ne_eq, dropBreak?_eq_some_iff]
  constructor
  · rintro h ⟨b, rest, he⟩
    exact h rest ⟨b, he⟩
  · rintro h rest ⟨b, he⟩
    exact h ⟨b, rest, he⟩

/-- A text has at most one line break at its front. -/
theorem Break.source_append_inj {b b' : Break} {rest rest' : List Char}
    (h : b.source ++ rest = b'.source ++ rest') : b = b' ∧ rest = rest' := by
  cases b <;> cases b' <;> simp_all [Break.source]

/-! ### Runs of breaks -/

/-- The breaks at the front of a text, up to where they end. -/
theorem exists_run_dropBreaks (cs : List Char) :
    ∃ run : List Break, cs = longRuns.write run ++ dropBreaks cs ∧
      ¬ StartsWithBreak (dropBreaks cs) := by
  fun_induction dropBreaks cs with
  | case1 cs h => exact ⟨[], rfl, dropBreak?_eq_none_iff.mp h⟩
  | case2 cs rest h ih =>
      obtain ⟨b, rfl⟩ := dropBreak?_eq_some_iff.mp h
      obtain ⟨run, hrun, hend⟩ := ih
      refine ⟨b :: run, ?_, hend⟩
      rw [write_cons, List.append_assoc, ← hrun]

/-- Three line breaks at the front of a text. -/
theorem dropThreeBreaks?_eq_some_iff {cs rest : List Char} :
    dropThreeBreaks? cs = some rest ↔
      ∃ a b c : Break, cs = a.source ++ (b.source ++ (c.source ++ rest)) := by
  simp only [dropThreeBreaks?, Option.bind_eq_some_iff, dropBreak?_eq_some_iff]
  constructor
  · rintro ⟨_, ⟨a, rfl⟩, _, ⟨b, rfl⟩, c, rfl⟩
    exact ⟨a, b, c, rfl⟩
  · rintro ⟨a, b, c, rfl⟩
    exact ⟨_, ⟨a, rfl⟩, _, ⟨b, rfl⟩, c, rfl⟩

/-- Three line breaks at the front of a text are the start of a long run. -/
theorem exists_longRun {cs rest : List Char} (h : dropThreeBreaks? cs = some rest) :
    ∃ run : List Break, longRuns.fits run (dropBreaks rest) ∧
      cs = longRuns.write run ++ dropBreaks rest := by
  obtain ⟨a, b, c, rfl⟩ := dropThreeBreaks?_eq_some_iff.mp h
  obtain ⟨run, hrun, hend⟩ := exists_run_dropBreaks rest
  refine ⟨a :: b :: c :: run, ⟨by simp, hend⟩, ?_⟩
  rw [write_cons, write_cons, write_cons, List.append_assoc, List.append_assoc, List.append_assoc,
    ← hrun]

/-- Where three breaks do not start, no long run starts. -/
theorem not_starts_longRuns {cs : List Char} (h : dropThreeBreaks? cs = none) :
    ¬ longRuns.Starts cs := by
  rintro ⟨run, rest, ⟨hlength, -⟩, rfl⟩
  match run, hlength with
  | a :: b :: c :: run, _ =>
      have hsome : dropThreeBreaks? (longRuns.write (a :: b :: c :: run) ++ rest) =
          some (longRuns.write run ++ rest) := by
        rw [dropThreeBreaks?_eq_some_iff]
        exact ⟨a, b, c, by simp only [write_cons, List.append_assoc]⟩
      rw [h] at hsome
      exact absurd hsome (by simp)

/-- Runs of breaks that end where breaks end are equal if their texts are. -/
theorem eq_of_run_append {run run' : List Break} {rest rest' : List Char}
    (hrest : ¬ StartsWithBreak rest) (hrest' : ¬ StartsWithBreak rest')
    (h : longRuns.write run ++ rest = longRuns.write run' ++ rest') :
    run = run' ∧ rest = rest' := by
  induction run generalizing run' with
  | nil =>
      cases run' with
      | nil => exact ⟨rfl, h⟩
      | cons b run' =>
          rw [write_nil, List.nil_append, write_cons, List.append_assoc] at h
          exact absurd ⟨b, _, h⟩ hrest
  | cons a run ih =>
      cases run' with
      | nil =>
          rw [write_nil, List.nil_append, write_cons, List.append_assoc] at h
          exact absurd ⟨a, _, h.symm⟩ hrest'
      | cons b run' =>
          rw [write_cons, write_cons, List.append_assoc, List.append_assoc] at h
          obtain ⟨rfl, htail⟩ := Break.source_append_inj h
          obtain ⟨rfl, rfl⟩ := ih htail
          exact ⟨rfl, rfl⟩

/-- A text has at most one long run at its front. -/
theorem isUnambiguous_longRuns : longRuns.IsUnambiguous where
  write_ne_nil := by
    rintro (- | ⟨b, run⟩) rest ⟨hlength, -⟩
    · simp at hlength
    · cases b <;> simp [write_cons, Break.source]
  eq_of_write_append := fun ⟨_, hrest⟩ ⟨_, hrest'⟩ h => eq_of_run_append hrest hrest' h

/-- **The cut of a text at its long runs.** Squeezing writes two line feeds for each of them and
copies the plain text. -/
theorem exists_cut_squeezeBreaks (cs : List Char) :
    ∃ k : Cut (List Break), longRuns.IsLeftmost k ∧ k.text longRuns.write = cs ∧
      squeezeBreaks cs = k.text fun _ => ['\n', '\n'] := by
  fun_induction squeezeBreaks cs with
  | case1 cs rest h ih =>
      obtain ⟨k, hk, htext, hsqueeze⟩ := ih
      obtain ⟨run, hfits, rfl⟩ := exists_longRun h
      refine ⟨.mark [] run k, Marking.isLeftmost_mark_nil (htext ▸ hfits) hk, ?_, ?_⟩
      · rw [Cut.text, htext, List.nil_append]
      · rw [Cut.text, hsqueeze]
        rfl
  | case2 h => exact ⟨.plain [], Marking.isFree_nil _, rfl, rfl⟩
  | case3 c cs h ih =>
      obtain ⟨k, hk, htext, hsqueeze⟩ := ih
      refine ⟨k.push c, Marking.isLeftmost_push ?_ hk, ?_, ?_⟩
      · rw [htext]
        exact not_starts_longRuns h
      · rw [Cut.text_push, htext]
      · rw [Cut.text_push, hsqueeze]

end Outreach.Message
