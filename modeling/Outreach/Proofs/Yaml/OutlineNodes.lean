import Outreach.Proofs.Yaml.Outline
import Outreach.Yaml.Document

/-!
# The Document of a Text of Two Levels

The tokens of an outline are read as a mapping of mappings, whose values are scalars and sequences
of scalars. An item of a list ends where the next one or the next name starts. There are no tags and no
anchors, so the nodes with numbers for anchors are the same.

## Main results

* `Outline.ofText?_chars`: **the document of an outline** is the mapping of its sections.
-/

namespace Outreach.Yaml

/-! ### Nodes -/

section Nodes

variable {ρ : Type}

/-- The node of a scalar. -/
def Written.node (w : Written) : Node ρ :=
  .scalar .empty w.style w.text

/-- The node of a value. -/
def Part.node : Part → Node ρ
  | .scalar w => w.node
  | .list items => .sequence .empty (items.map Written.node)

/-- The node of a name. -/
def nameNode (name : List Char) : Node ρ :=
  .scalar .empty .plain name

/-- The nodes of an entry. -/
def Entry.node (e : Entry) : Node ρ × Node ρ :=
  (nameNode e.name, e.part.node)

/-- The nodes of a section. -/
def Section.node (s : Section) : Node ρ × Node ρ :=
  (nameNode s.name, .mapping .empty (s.entries.map Entry.node))

/-- The root of an outline. -/
def Outline.node (o : Outline) : Node ρ :=
  .mapping .empty (o.map Section.node)

end Nodes

/-! ### Reading the tokens -/

variable {hs : Handles} {steps : Nat} {place : NodePlace} {ts : List Token}

/-- A scalar token is read as a node of its own, whatever follows. -/
theorem readNode?_scalar (style : ScalarStyle) (text : List Char) :
    readNode? hs (steps + 1) place (.scalar style text :: ts) =
      some (.scalar .empty style text, ts) := by
  cases place with
  | block indentless => cases indentless <;> simp [readNode?, readProperties?]
  | flow => simp [readNode?, readProperties?]

/-- A scalar token is read as the node at a place that may also be left empty. -/
theorem readOptional?_scalar {isLeftOut : List Token → Bool} {style : ScalarStyle}
    {text : List Char} (h : isLeftOut (.scalar style text :: ts) = false) :
    readOptional? hs (steps + 2) place isLeftOut (.scalar style text :: ts) =
      some (.scalar .empty style text, ts) := by
  rw [readOptional?, h]
  exact readNode?_scalar style text

/-- Each item of a list has two tokens, its dash and its scalar. -/
theorem length_itemTokens (items : List Written) :
    (items.flatMap fun w => [Token.blockEntry, w.token]).length = 2 * items.length := by
  induction items with
  | nil => rfl
  | cons w items ih => simp [ih]; omega

/-- The items of a list. -/
theorem readIndentless?_items {steps : Nat} (items : List Written)
    (hsteps : items.length + 3 ≤ steps)
    (hts : ∀ us, ts ≠ .blockEntry :: us) :
    readIndentless? hs steps ((items.flatMap fun w => [Token.blockEntry, w.token]) ++ ts) =
      some (items.map Written.node, ts) := by
  induction items generalizing steps with
  | nil =>
      obtain ⟨steps, rfl⟩ : ∃ n, steps = n + 1 := ⟨steps - 1, by omega⟩
      rw [List.flatMap_nil, List.nil_append, readIndentless?.eq_def]
      rcases ts with - | ⟨t, ts⟩
      · rfl
      · cases t <;> first | rfl | exact absurd rfl (hts ts)
  | cons w items ih =>
      rw [List.length_cons] at hsteps
      obtain ⟨steps, rfl⟩ : ∃ n, steps = n + 2 + 1 := ⟨steps - 3, by omega⟩
      have hrest := @ih (steps + 2) (by omega)
      rw [List.flatMap_cons, List.append_assoc, List.cons_append, readIndentless?,
        List.cons_append, List.nil_append, Written.token, readOptional?_scalar rfl]
      simp only [Option.bind_eq_bind, Option.bind_some, hrest]
      rfl

/-- What follows a value in its section: a further name, or the end. -/
inductive EndsPart : List Token → Prop
  | key (ts : List Token) : EndsPart (.key :: ts)
  | blockEnd (ts : List Token) : EndsPart (.blockEnd :: ts)

/-- A value. -/
theorem readOptional?_part (part : Part) (hsteps : part.tokens.length + 4 ≤ steps)
    (hts : EndsPart ts) :
    readOptional? hs steps (.block true) endsBlockPart (part.tokens ++ ts) =
      some (part.node, ts) := by
  obtain ⟨steps, rfl⟩ : ∃ n, steps = n + 3 := ⟨steps - 3, by omega⟩
  rcases part with w | (- | ⟨w, items⟩)
  · exact readOptional?_scalar rfl
  · simp [readOptional?, endsBlockPart, Part.tokens, readNode?, readProperties?, readFlowSequence?,
      Part.node]
  · have hlength := length_itemTokens (w :: items)
    have hitems : readIndentless? hs (steps + 1) (((w :: items).flatMap fun w =>
        [Token.blockEntry, w.token]) ++ ts) = some ((w :: items).map Written.node, ts) :=
      readIndentless?_items (w :: items)
        (by simp only [Part.tokens, hlength, List.length_cons] at hsteps ⊢; omega)
        (by rintro us rfl; cases hts)
    simp only [List.flatMap_cons, List.cons_append, List.nil_append] at hitems
    simp [readOptional?, endsBlockPart, Part.tokens, readNode?, readProperties?, hitems, Part.node]

/-- A name with its value, and the further entries of a mapping. -/
theorem readBlockMapping?_cons {name : List Char} {node : Tree} {nodes : List (Tree × Tree)}
    {us vs : List Token}
    (hvalue : readOptional? hs (steps + 2) (.block true) endsBlockPart ts = some (node, us))
    (hrest : readBlockMapping? hs (steps + 2) us = some (nodes, vs)) :
    readBlockMapping? hs (steps + 3) (nameTokens name ++ ts) =
      some ((nameNode name, node) :: nodes, vs) := by
  have hname : readOptional? hs (steps + 2) (.block true) endsBlockPart
      (.scalar .plain name :: .value :: ts) = some (nameNode name, .value :: ts) :=
    readOptional?_scalar rfl
  simp only [nameTokens, List.cons_append, List.nil_append]
  rw [readBlockMapping?, hname]
  simp only [Option.bind_eq_bind, Option.bind_some, hvalue, hrest]
  rfl

/-- The end of a mapping. -/
theorem readBlockMapping?_end (hsteps : 0 < steps) :
    readBlockMapping? hs steps (.blockEnd :: ts) = some ([], ts) := by
  obtain ⟨steps, rfl⟩ := Nat.exists_eq_add_one.mpr hsteps
  rfl

/-- The entries of a section, up to its end. -/
theorem readBlockMapping?_entries {entries : List Entry}
    (hsteps : (entries.flatMap Entry.tokens).length + 4 ≤ steps) :
    readBlockMapping? hs steps (entries.flatMap Entry.tokens ++ .blockEnd :: ts) =
      some (entries.map Entry.node, ts) := by
  induction entries generalizing steps with
  | nil => exact readBlockMapping?_end (by omega)
  | cons e entries ih =>
      simp only [List.flatMap_cons, Entry.tokens, nameTokens, List.length_append, List.length_cons,
        List.length_nil] at hsteps
      obtain ⟨steps, rfl⟩ : ∃ n, steps = n + 3 := ⟨steps - 3, by omega⟩
      have hrest := @ih (steps + 2) (by omega)
      have hends : EndsPart (entries.flatMap Entry.tokens ++ .blockEnd :: ts) := by
        cases entries with
        | nil => exact .blockEnd ts
        | cons f entries => exact .key _
      rw [List.flatMap_cons, List.append_assoc, Entry.tokens, List.append_assoc]
      exact readBlockMapping?_cons (readOptional?_part e.part (by omega) hends) hrest

/-- The sections of an outline, up to its end. -/
theorem readBlockMapping?_sections {o : Outline}
    (hsteps : (o.flatMap Section.tokens).length + 4 ≤ steps) :
    readBlockMapping? hs steps (o.flatMap Section.tokens ++ .blockEnd :: ts) =
      some (o.map Section.node, ts) := by
  induction o generalizing steps with
  | nil => exact readBlockMapping?_end (by omega)
  | cons s o ih =>
      simp only [List.flatMap_cons, Section.tokens, nameTokens, List.length_append, List.length_cons,
        List.length_nil] at hsteps
      obtain ⟨steps, rfl⟩ : ∃ n, steps = n + 3 := ⟨steps - 3, by omega⟩
      have hrest := @ih (steps + 2) (by omega)
      have hentries : readBlockMapping? hs steps (s.entries.flatMap Entry.tokens ++
          .blockEnd :: (o.flatMap Section.tokens ++ .blockEnd :: ts)) =
          some (s.entries.map Entry.node, o.flatMap Section.tokens ++ .blockEnd :: ts) :=
        readBlockMapping?_entries (by omega)
      have hsection : readOptional? hs (steps + 2) (.block true) endsBlockPart
          (.blockMappingStart :: (s.entries.flatMap Entry.tokens ++
            .blockEnd :: (o.flatMap Section.tokens ++ .blockEnd :: ts))) =
          some (.mapping .empty (s.entries.map Entry.node),
            o.flatMap Section.tokens ++ .blockEnd :: ts) := by
        simp [readOptional?, endsBlockPart, readNode?, readProperties?, hentries]
      have : readBlockMapping? hs (steps + 3) (nameTokens s.name ++ .blockMappingStart ::
          (s.entries.flatMap Entry.tokens ++
            .blockEnd :: (o.flatMap Section.tokens ++ .blockEnd :: ts))) =
          some ((nameNode s.name, .mapping .empty (s.entries.map Entry.node)) ::
            o.map Section.node, ts) :=
        readBlockMapping?_cons hsection hrest
      simpa [Section.tokens, Section.node] using this

/-- The root of tokens that start a collection and are read as a node. -/
theorem rootOf?_of_readNode? {t : Token} {root : Tree}
    (ht : t = .blockMappingStart ∨ t = .flowMappingStart)
    (h : readNode? standardHandles (4 * (t :: ts).length + 4) (.block false) (t :: ts) =
      some (root, [])) : rootOf? (t :: ts) = some (some root) := by
  have hhandles : handlesOf? [] = some standardHandles := by simp [handlesOf?]
  rw [List.length_cons] at h
  rcases ht with rfl | rfl
  · rw [rootOf?]
    · simp only [readDirectives, Option.bind_eq_bind, hhandles, Option.bind_some]
      simp [h]
    · simp
  · rw [rootOf?]
    · simp only [readDirectives, Option.bind_eq_bind, hhandles, Option.bind_some]
      simp [h]
    · simp

/-- **The root of an outline.** -/
theorem rootOf?_tokens (o : Outline) : rootOf? o.tokens = some (some o.node) := by
  obtain ⟨ts, hts⟩ : ∃ ts, ts = o.flatMap Section.tokens ++ [.blockEnd] := ⟨_, rfl⟩
  have htokens : o.tokens = .blockMappingStart :: ts := by rw [hts]; rfl
  have hsections : readBlockMapping? standardHandles (4 * (ts.length + 1) + 3) ts =
      some (o.map Section.node, []) := by
    rw [hts]
    exact readBlockMapping?_sections (by simp only [List.length_append]; omega)
  rw [htokens]
  refine rootOf?_of_readNode? (.inl rfl) ?_
  rw [readNode?]
  · simp [readProperties?, hsections, Outline.node]
  · simp

/-! ### Numbers for anchors -/

/-- Items without anchors stay as they are when anchors are numbered. -/
theorem numberItems?_written (ns : AnchorNumbers) (items : List Written) :
    numberItems? ns (items.map Written.node) = some (items.map Written.node, ns) := by
  induction items with
  | nil => rfl
  | cons w items ih =>
      simp [numberItems?, Written.node, number?, Properties.empty, AnchorNumbers.declare, ih]

/-- A value without anchors stays as it is when anchors are numbered. -/
theorem number?_part (ns : AnchorNumbers) (part : Part) :
    number? ns part.node = some (part.node, ns) := by
  rcases part with w | items
  · simp [Part.node, Written.node, number?, Properties.empty, AnchorNumbers.declare]
  · have := numberItems?_written ns items
    simp [Part.node, number?, Properties.empty, AnchorNumbers.declare, this]

/-- A name without an anchor stays as it is when anchors are numbered. -/
theorem number?_name (ns : AnchorNumbers) (name : List Char) :
    number? ns (nameNode name) = some (nameNode name, ns) := by
  simp [nameNode, number?, Properties.empty, AnchorNumbers.declare]

/-- Entries without anchors stay as they are when anchors are numbered. -/
theorem numberEntries?_entries (ns : AnchorNumbers) (entries : List Entry) :
    numberEntries? ns (entries.map Entry.node) = some (entries.map Entry.node, ns) := by
  induction entries with
  | nil => rfl
  | cons e entries ih => simp [numberEntries?, Entry.node, number?_name, number?_part, ih]

/-- Sections without anchors stay as they are when anchors are numbered. -/
theorem numberEntries?_sections (ns : AnchorNumbers) (o : Outline) :
    numberEntries? ns (o.map Section.node) = some (o.map Section.node, ns) := by
  induction o with
  | nil => rfl
  | cons s o ih =>
      have hentries : number? ns (.mapping .empty (s.entries.map Entry.node)) =
          some (.mapping .empty (s.entries.map Entry.node), ns) := by
        simp [number?, Properties.empty, AnchorNumbers.declare, numberEntries?_entries]
      simp [numberEntries?, Section.node, number?_name, hentries, ih]

/-- An outline has no anchors, so numbering them leaves it as it is. -/
theorem number?_outline (ns : AnchorNumbers) (o : Outline) :
    number? ns o.node = some (o.node, ns) := by
  simp [Outline.node, number?, Properties.empty, AnchorNumbers.declare, numberEntries?_sections]

/-- **The document of an outline** is the mapping of its sections. -/
theorem Outline.ofText?_chars {o : Outline} (h : ∀ s ∈ o, s.IsReadable) (hne : o ≠ []) :
    Document.ofText? (String.ofList o.chars) = some (Document.ofRoot (some o.node)) := by
  rw [Document.ofText?, String.toList_ofList, Outline.tokens?_chars h hne]
  simp [rootOf?_tokens, number?_outline]

end Outreach.Yaml
