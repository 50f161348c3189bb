/-!
# Runs of Line Breaks

A line break is a line feed, with or without a carriage return before it. Conditional blocks that
drop out leave empty lines behind; a run of three or more breaks shrinks to two line feeds.
-/

namespace Outreach.Message

/-- The rest of a text after a line break at its front. -/
def dropBreak? : List Char → Option (List Char)
  | '\n' :: rest => some rest
  | '\r' :: '\n' :: rest => some rest
  | _ => none

/-- A text without the line break at its front is shorter. -/
theorem length_dropBreak? {cs rest : List Char} (h : dropBreak? cs = some rest) :
    rest.length < cs.length := by
  unfold dropBreak? at h
  split at h
  · obtain rfl := Option.some.inj h
    exact Nat.lt_succ_self _
  · obtain rfl := Option.some.inj h
    exact Nat.lt_succ_of_lt (Nat.lt_succ_self _)
  · simp at h

/-- The rest of a text after all line breaks at its front. -/
def dropBreaks (cs : List Char) : List Char :=
  match h : dropBreak? cs with
  | none => cs
  | some rest => dropBreaks rest
termination_by cs.length
decreasing_by exact length_dropBreak? h

/-- The rest of a text after three line breaks at its front. -/
def dropThreeBreaks? (cs : List Char) : Option (List Char) :=
  (dropBreak? cs).bind fun cs => (dropBreak? cs).bind dropBreak?

/-- A text without the line breaks at its front is no longer. -/
theorem length_dropBreaks (cs : List Char) : (dropBreaks cs).length ≤ cs.length := by
  fun_induction dropBreaks cs with
  | case1 => simp
  | case2 cs rest h ih => exact Nat.le_of_lt (Nat.lt_of_le_of_lt ih (length_dropBreak? h))

/-- A text without three line breaks at its front is shorter, so that squeezing ends. -/
theorem length_dropThreeBreaks? {cs rest : List Char} (h : dropThreeBreaks? cs = some rest) :
    rest.length < cs.length := by
  simp only [dropThreeBreaks?, Option.bind_eq_some_iff] at h
  obtain ⟨a, ha, b, hb, hc⟩ := h
  exact Nat.lt_trans (length_dropBreak? hc)
    (Nat.lt_trans (length_dropBreak? hb) (length_dropBreak? ha))

/-- A text in which every run of three or more line breaks is two line feeds. -/
def squeezeBreaks (cs : List Char) : List Char :=
  match h : dropThreeBreaks? cs with
  | some rest => '\n' :: '\n' :: squeezeBreaks (dropBreaks rest)
  | none =>
    match cs with
    | [] => []
    | c :: cs => c :: squeezeBreaks cs
termination_by cs.length
decreasing_by
  · exact Nat.lt_of_le_of_lt (length_dropBreaks rest) (length_dropThreeBreaks? h)
  · simp

/-- A string in which every run of three or more line breaks is two line feeds. -/
def collapseBlankLines (text : String) : String :=
  String.ofList (squeezeBreaks text.toList)

end Outreach.Message
