import Outreach.Message.Render

/-!
# Messages as Segments

Two passes make a message, and each reads the record in its own way: blocks are decided by raw
values, and placeholders take the values as they are displayed. This module splits off all that the
values cannot touch. From a template, the decisions of its blocks and the names of the fields alone
comes a list of *segments*, each a text of its own or the name of a field; the message is what the
segments stand for, with each named value copied as it is.

## Main results

* `substituteSlots_eq_flatMap_fill`: the slots of a text give its segments, whatever the values.
* `fillTemplate_eq_flatMap_fill`: a filled template is read off its segments.
* `render_eq_segments`: **values are never interpreted** — records with the same names and the same
  decisions share one list of segments.
-/

namespace Outreach.Message

/-! ### Decisions -/

/-- The blocks of a template, in order, without the plain text between them. -/
def blocks (template : List Char) : List Block :=
  (pieces template).filterMap fun
    | .char _ => none
    | .block b => some b

/-- What a record decides on the blocks of a template, in order. -/
def decisions (r : Record) (template : List Char) : List Bool :=
  (blocks template).map (Block.holds r)

/-- The text that is left of pieces when the first decision goes to the first block, and so on. -/
def resolveBy : List Bool → List Piece → List Char
  | _, [] => []
  | ds, .char c :: ps => c :: resolveBy ds ps
  | [], .block _ :: ps => resolveBy [] ps
  | d :: ds, .block b :: ps => (if d then b.content else []) ++ resolveBy ds ps

/-- Deciding blocks one by one is handing out the list of all decisions. -/
theorem flatMap_resolve (keep : Block → Bool) (ps : List Piece) :
    ps.flatMap (Piece.resolve keep) =
      resolveBy ((ps.filterMap fun | .char _ => none | .block b => some b).map keep) ps := by
  induction ps with
  | nil => rfl
  | cons p ps ih =>
      cases p with
      | char c => simp [resolveBy, Piece.resolve, ih]
      | block b => simp [resolveBy, Piece.resolve, ih]

/-- A template depends on the raw values through the decisions on its blocks only. -/
theorem resolveBlocks_holds (r : Record) (template : List Char) :
    resolveBlocks (Block.holds r) template = resolveBy (decisions r template) (pieces template) :=
  flatMap_resolve _ _

/-! ### Segments -/

/-- A **segment** of a message: a text of its own, or the value of a field. -/
inductive Segment where
  | literal (text : List Char)
  | field (name : String)
  deriving DecidableEq, Repr

/-- The text that a segment stands for: itself, or the value of its field. -/
def Segment.fill (values : Record) : Segment → List Char
  | literal text => text
  | field name => ((values.get? name).getD "").toList

/-- The segment of a slot: a token that names a field is the field, all else is its own text. -/
def Slot.segment (isField : String → Bool) : Slot → Segment
  | char c => .literal [c]
  | token name =>
    if isField (String.ofList name) then .field (String.ofList name)
    else .literal (Slot.source (token name))

/-- The **segments of a template**, from the decisions on its blocks and the names of the fields. -/
def segments (ds : List Bool) (isField : String → Bool) (template : List Char) : List Segment :=
  (slots (squeezeBreaks (resolveBy ds (pieces template)))).map (Slot.segment isField)

/-- A slot stands for what its segment stands for. -/
theorem fill_segment (values : Record) (s : Slot) :
    (s.segment values.contains).fill values = s.fill values := by
  cases s with
  | char c => rfl
  | token name =>
      rcases hv : values.get? (String.ofList name) with _ | value
      · simp [Slot.segment, Slot.fill, Segment.fill, Record.contains, hv]
      · simp [Slot.segment, Slot.fill, Segment.fill, Record.contains, hv]

/-- The slots of a text give its segments, whatever the values are. -/
theorem substituteSlots_eq_flatMap_fill (values : Record) (cs : List Char) :
    substituteSlots values cs =
      ((slots cs).map (Slot.segment values.contains)).flatMap (Segment.fill values) := by
  rw [substituteSlots, List.flatMap_map]
  congr 1
  funext s
  exact (fill_segment values s).symm

/-- Only fields become field segments. -/
theorem isField_of_field_mem_segments {ds : List Bool} {isField : String → Bool}
    {template : List Char} {name : String} (h : .field name ∈ segments ds isField template) :
    isField name = true := by
  obtain ⟨s, -, hs⟩ := List.mem_map.1 h
  cases s with
  | char c => simp [Slot.segment] at hs
  | token name' =>
      simp only [Slot.segment] at hs
      split at hs
      · rename_i hf
        obtain rfl := Segment.field.inj hs
        exact hf
      · simp at hs

/-! ### Messages -/

/-- The display copy of a record has the fields of the record. -/
theorem contains_apply (p : Display) (r : Record) : (p.apply r).contains = r.contains := by
  funext name
  rw [Bool.eq_iff_iff, Record.contains_iff_mem_keys, Record.contains_iff_mem_keys, Display.apply,
    Record.keys_mapValues]

/-- A filled template is read off its segments. -/
theorem fillTemplate_eq_flatMap_fill (p : Display) (r : Record) (template : List Char) :
    fillTemplate p r template =
      (segments (decisions r template) r.contains template).flatMap
        (Segment.fill (p.apply r)) := by
  rw [fillTemplate, evaluateBlocks, resolveBlocks_holds, substituteSlots_eq_flatMap_fill,
    contains_apply, segments]

/-- The two passes over strings, one after the other, fill in the template. -/
theorem substitutePlaceholders_evaluateConditionals (p : Display) (template : String)
    (r : Record) :
    substitutePlaceholders (evaluateConditionals template r) (p.apply r) =
      String.ofList (fillTemplate p r template.toList) := by
  rw [substitutePlaceholders, evaluateConditionals, String.toList_ofList, fillTemplate]

/-- **Values are never interpreted.** Two records with the same names and the same decisions on the
blocks of a template share one list of segments, made from the template, the decisions and the
names alone. For both, the message before trimming is the literal texts and, as they are, the
display values of the named fields; rendering trims it. -/
theorem render_eq_segments (p : Display) (template : String) (r₁ r₂ : Record)
    (hkeys : ∀ name, name ∈ r₁.keys ↔ name ∈ r₂.keys)
    (hkeep : ∀ b ∈ blocks template.toList, b.holds r₁ = b.holds r₂) :
    ∃ ss : List Segment,
      ss = segments (decisions r₁ template.toList) r₁.contains template.toList ∧
      ss = segments (decisions r₂ template.toList) r₂.contains template.toList ∧
      ∀ r ∈ [r₁, r₂],
        (∀ name, Segment.field name ∈ ss → name ∈ (p.apply r).keys) ∧
        substitutePlaceholders (evaluateConditionals template r) (p.apply r) =
          String.ofList (ss.flatMap (Segment.fill (p.apply r))) ∧
        render p template r =
          Text.trim (substitutePlaceholders (evaluateConditionals template r) (p.apply r)) := by
  have hnames : r₁.contains = r₂.contains := by
    funext name
    rw [Bool.eq_iff_iff, Record.contains_iff_mem_keys, Record.contains_iff_mem_keys]
    exact hkeys name
  have hdecisions : decisions r₁ template.toList = decisions r₂ template.toList :=
    List.map_congr_left hkeep
  have hread : ∀ r : Record,
      let ss := segments (decisions r template.toList) r.contains template.toList
      (∀ name, Segment.field name ∈ ss → name ∈ (p.apply r).keys) ∧
      substitutePlaceholders (evaluateConditionals template r) (p.apply r) =
        String.ofList (ss.flatMap (Segment.fill (p.apply r))) ∧
      render p template r =
        Text.trim (substitutePlaceholders (evaluateConditionals template r) (p.apply r)) := by
    intro r ss
    refine ⟨fun name hname => ?_, ?_, ?_⟩
    · rw [← Record.contains_iff_mem_keys, contains_apply]
      exact isField_of_field_mem_segments hname
    · rw [substitutePlaceholders_evaluateConditionals, fillTemplate_eq_flatMap_fill]
    · rw [substitutePlaceholders_evaluateConditionals, Text.trim, String.toList_ofList, render]
  refine ⟨_, rfl, by rw [hdecisions, hnames], fun r hr => ?_⟩
  simp only [List.mem_cons, List.not_mem_nil, or_false] at hr
  rcases hr with rfl | rfl
  · exact hread r
  · rw [hdecisions, hnames]
    exact hread r

/-- A template with a block, a run of breaks and three tokens, for two records whose values look
like blocks, tokens and breaks. -/
theorem render_eq_segments_hostile :
    let template := "[if: a|\x7ba\x7d]\n\n\n\x7bb\x7d\x7bc\x7d"
    let r₁ : Record := .ofList [("a", "\x7bb\x7d"), ("b", "]\n\n\n\n[if: a|")]
    let r₂ : Record := .ofList [("a", "[if: b|\x7bc\x7d]"), ("b", "無")]
    (∀ name, name ∈ r₁.keys ↔ name ∈ r₂.keys) ∧
    (∀ b ∈ blocks template.toList, b.holds r₁ = b.holds r₂) ∧
    ∃ ss : List Segment,
      ss = segments (decisions r₁ template.toList) r₁.contains template.toList ∧
      ss = segments (decisions r₂ template.toList) r₂.contains template.toList ∧
      ∀ r ∈ [r₁, r₂],
        (∀ name, Segment.field name ∈ ss → name ∈ ((default : Display).apply r).keys) ∧
        substitutePlaceholders (evaluateConditionals template r) ((default : Display).apply r) =
          String.ofList (ss.flatMap (Segment.fill ((default : Display).apply r))) ∧
        render default template r =
          Text.trim (substitutePlaceholders (evaluateConditionals template r)
            ((default : Display).apply r)) := by
  intro template r₁ r₂
  have hkeys : ∀ name, name ∈ r₁.keys ↔ name ∈ r₂.keys := by
    have : r₁.keys = r₂.keys := by decide +kernel
    simp [this]
  have hkeep : ∀ b ∈ blocks template.toList, b.holds r₁ = b.holds r₂ := by
    decide +kernel
  exact ⟨hkeys, hkeep, render_eq_segments default template r₁ r₂ hkeys hkeep⟩

end Outreach.Message
