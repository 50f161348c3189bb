import Outreach.Deal.Field
import Outreach.Message.Breaks

/-!
# Conditional Blocks

A template may hold *blocks*, `[if: key|content]` and `[if: key=expected|content]`. A key is a
word of ASCII letters, digits and underscores; an expected value is not empty and holds neither
bar nor closing bracket; the content runs to the first closing bracket, so blocks do not nest. A
template is read from left to right into *pieces*, and what is no block is plain text.

## Main results

* `Block.length_read?`: a block takes at least one character.
-/

namespace Outreach.Message

/-- A **block**: content that stays if the condition on a field holds. -/
structure Block where
  key : List Char
  /-- The value that the field must have; without one, it must not be absent. -/
  expected : Option (List Char)
  content : List Char
  deriving DecidableEq, Repr

namespace Block

/-- A character of a key: an ASCII letter, a digit or the underscore. -/
def isKeyChar (c : Char) : Bool :=
  c.isAlphanum || c == '_'

/-- The text that a block is written as. Reading it gives the block back if its parts are well
formed. -/
def source (b : Block) : List Char :=
  "[if: ".toList ++ b.key ++ (b.expected.elim [] ('=' :: ·)) ++ '|' :: b.content ++ [']']

/-- The part of a text before the first of some characters, and the rest from there on. -/
def spanTo (stop : Char → Bool) (cs : List Char) : List Char × List Char :=
  (cs.takeWhile (!stop ·), cs.dropWhile (!stop ·))

/-- The expected value, if one is given, and the rest after the bar. -/
def readExpected? : List Char → Option (Option (List Char) × List Char)
  | '|' :: rest => some (none, rest)
  | '=' :: rest =>
    match spanTo (fun c => c == '|' || c == ']') rest with
    | ([], _) => none
    | (expected, '|' :: rest) => some (some expected, rest)
    | _ => none
  | _ => none

/-- The block after its opening words, with the rest of the text. -/
def readBody? (cs : List Char) : Option (Block × List Char) :=
  match cs.takeWhile isKeyChar with
  | [] => none
  | key =>
    match readExpected? (cs.dropWhile isKeyChar) with
    | none => none
    | some (expected, rest) =>
      match spanTo (· == ']') rest with
      | (content, _ :: rest) => some (⟨key, expected, content⟩, rest)
      | _ => none

/-- The block at the front of a text, with the rest. The opening words must stand there to the
letter. -/
def read? : List Char → Option (Block × List Char)
  | '[' :: 'i' :: 'f' :: ':' :: ' ' :: rest => readBody? rest
  | _ => none

/-- Reading an expected value leaves less than there was, since it reads at least the bar. -/
theorem length_readExpected? {cs rest : List Char} {e : Option (List Char)}
    (h : readExpected? cs = some (e, rest)) : rest.length < cs.length := by
  unfold readExpected? at h
  split at h
  · simp_all
  · split at h
    · simp at h
    · rename_i r _ expected rest' _ heq
      simp only [Option.some.injEq, Prod.mk.injEq] at h
      obtain ⟨-, rfl⟩ := h
      simp only [spanTo, Prod.mk.injEq] at heq
      have := (List.dropWhile_sublist (p := fun c => !(c == '|' || c == ']')) (l := r)).length_le
      rw [heq.2] at this
      simp only [List.length_cons] at this ⊢
      omega
    · simp at h
  · simp at h

/-- Reading the body of a block leaves less than there was, since it reads at least the bracket. -/
theorem length_readBody? {cs rest : List Char} {b : Block}
    (h : readBody? cs = some (b, rest)) : rest.length < cs.length := by
  unfold readBody? at h
  split at h
  · simp at h
  · split at h
    · simp at h
    · rename_i e r he
      split at h
      · rename_i content c rest' heq
        simp only [Option.some.injEq, Prod.mk.injEq] at h
        obtain ⟨-, rfl⟩ := h
        have h1 := length_readExpected? he
        have h2 := (List.dropWhile_sublist (p := isKeyChar) (l := cs)).length_le
        simp only [spanTo, Prod.mk.injEq] at heq
        have h3 := (List.dropWhile_sublist (p := fun x => !(x == ']')) (l := r)).length_le
        rw [heq.2] at h3
        simp only [List.length_cons] at h3
        omega
      · simp at h

/-- A block takes at least one character. -/
theorem length_read? {cs rest : List Char} {b : Block} (h : read? cs = some (b, rest)) :
    rest.length < cs.length := by
  unfold read? at h
  split at h
  · have := length_readBody? h
    simp only [List.length_cons]
    omega
  · simp at h

/-- Whether a block stays, by the raw values of a record. A field that the record lacks reads as
an empty value. -/
def holds (r : Record) (b : Block) : Bool :=
  let actual := (r.get? (String.ofList b.key)).getD ""
  match b.expected with
  | some expected => Text.trimChars actual.toList == Text.trimChars expected
  | none => !isAbsent actual

end Block

/-- A **piece** of a template: a character of plain text, or a block. -/
inductive Piece where
  | char (c : Char)
  | block (b : Block)
  deriving DecidableEq, Repr

namespace Piece

/-- The text that a piece is written as: the character, or the block with its brackets. -/
def source : Piece → List Char
  | char c => [c]
  | block b => b.source

/-- The text that is left of a piece once blocks have been decided. -/
def resolve (keep : Block → Bool) : Piece → List Char
  | char c => [c]
  | block b => if keep b then b.content else []

end Piece

/-- The pieces of a template, read from left to right. Where no block can be read, one character
is passed over as plain text. -/
def pieces (cs : List Char) : List Piece :=
  match h : Block.read? cs with
  | some (b, rest) => .block b :: pieces rest
  | none =>
    match cs with
    | [] => []
    | c :: cs => .char c :: pieces cs
termination_by cs.length
decreasing_by
  · exact Block.length_read? h
  · simp

/-- A template with its blocks decided, the line breaks as they fall. -/
def resolveBlocks (keep : Block → Bool) (template : List Char) : List Char :=
  (pieces template).flatMap (Piece.resolve keep)

/-- A template with its blocks decided by the raw values of a record; the empty lines that dropped
blocks leave behind are squeezed. -/
def evaluateBlocks (r : Record) (template : List Char) : List Char :=
  squeezeBreaks (resolveBlocks (Block.holds r) template)

/-- A template text with its blocks decided by the values of a record: what they hold, or nothing.
-/
def evaluateConditionals (template : String) (r : Record) : String :=
  String.ofList (evaluateBlocks r template.toList)

end Outreach.Message
