import Outreach.Proofs.Text.Trimming
import Outreach.Proofs.Yaml.OutlineNodes
import Outreach.Proofs.Yaml.WrittenScalars
import Outreach.Settings.Reader
import Outreach.Settings.Writer

/-!
# Settings Read Back

Settings are written as an outline of two sections. The reader finds every part under its name, and
the scalars of a part spell its value, in whatever style they are written. So the text of settings
gives back the settings, whatever characters their texts consist of; if they are not acceptable, it
gives the fault that they have.

## Main results

* `Settings.toText_eq`: settings are written as an outline.
* `Settings.ofText_toText`: **the text of settings reads as the settings**, or as their first fault.
-/

namespace Outreach.Settings

open Yaml (Document Entry Node Outline Part Section indentStep quotedStyleOf scalarStyleOf
  writeQuoted writeScalar)

/-! ### Settings as an outline -/

/-- A text as it is written, in the style that it needs. -/
def writtenText (value : String) : Yaml.Written :=
  ⟨scalarStyleOf value.toList, writeScalar valueIndent value.toList, value.toList⟩

/-- A separator as it is written, always in quotes. -/
def writtenSeparator (c : Char) : Yaml.Written :=
  ⟨quotedStyleOf [c], writeQuoted valueIndent [c], [c]⟩

/-- A whole number as it is written, by its decimal digits. -/
def writtenWhole (value : UInt64) : Yaml.Written :=
  ⟨.plain, Nat.toDigits 10 value.toNat, Nat.toDigits 10 value.toNat⟩

/-- The parts of a display policy, under their names in the file. -/
def displayEntries (d : Display) : List Entry :=
  [⟨"grouping_separator".toList, .scalar (writtenSeparator d.groupingSeparator)⟩,
   ⟨"percent_suffix".toList, .scalar (writtenText d.percentSuffix)⟩,
   ⟨"max_fraction_digits".toList, .scalar (writtenWhole d.maxFractionDigits)⟩,
   ⟨"number_fields".toList, .list (d.numberFields.map writtenText)⟩,
   ⟨"percent_fields".toList, .list (d.percentFields.map writtenText)⟩]

/-- The parts of polish settings, under their names in the file. -/
def polishEntries (p : Polish.Settings) : List Entry :=
  [⟨"model".toList, .scalar (writtenText p.model)⟩,
   ⟨"base_url".toList, .scalar (writtenText p.baseUrl)⟩,
   ⟨"api_key_env".toList, .scalar (writtenText p.keyVariable)⟩,
   ⟨"timeout_secs".toList, .scalar (writtenWhole p.timeoutSeconds)⟩,
   ⟨"min_chars".toList, .scalar (writtenWhole p.minimumLength)⟩]

/-- Settings as an outline: one section for the display and one for polishing. -/
def outline (s : Settings) : Outline :=
  [⟨"format".toList, displayEntries s.display⟩, ⟨"polish".toList, polishEntries s.polish⟩]

/-- What is written for any text, in whatever style it needs, is read back as that text. -/
theorem isReadable_writtenText (value : String) : (writtenText value).IsReadable :=
  Yaml.writes_writeScalar indentStep value.toList

/-- What is written for a separator, always in quotes, is read back as that character. -/
theorem isReadable_writtenSeparator (c : Char) : (writtenSeparator c).IsReadable :=
  Yaml.writes_writeQuoted indentStep [c]

/-- The digits of a whole number, written without quotes, are read back as those digits. -/
theorem isReadable_writtenWhole (value : UInt64) : (writtenWhole value).IsReadable :=
  .plain (Yaml.isPlain_of_isDigit (fun _ => Numeral.isDigit_of_mem_toDigits) Nat.toDigits_ne_nil)

/-- A list of texts can be read back, since each of its items can. -/
theorem isReadable_list (values : List String) :
    (Part.list (values.map writtenText)).IsReadable := by
  intro w hw
  obtain ⟨value, -, rfl⟩ := List.mem_map.mp hw
  exact isReadable_writtenText value

/-- An entry whose name can be a key can be read back if its part can. -/
theorem isReadable_entry {name : String} {part : Part} (hname : Yaml.Scan.IsKey name.toList)
    (hpart : part.IsReadable) : (Entry.mk name.toList part).IsReadable :=
  ⟨hname, hpart⟩

/-- A section whose name can be a key can be read back if it has entries and each of them can. -/
theorem isReadable_section {name : String} {entries : List Entry}
    (hname : Yaml.Scan.IsKey name.toList) (hentries : ∀ e ∈ entries, e.IsReadable)
    (hne : entries ≠ []) : (Section.mk name.toList entries).IsReadable :=
  ⟨hname, hentries, hne⟩

/-- Settings can be read whatever their texts are. -/
theorem isReadable_outline (s : Settings) : ∀ r ∈ s.outline, r.IsReadable := by
  have hdisplay : ∀ e ∈ displayEntries s.display, e.IsReadable := by
    simp only [displayEntries, List.forall_mem_cons, List.not_mem_nil, false_implies, implies_true,
      and_true]
    exact ⟨isReadable_entry (by decide) (isReadable_writtenSeparator _),
      isReadable_entry (by decide) (isReadable_writtenText _),
      isReadable_entry (by decide) (isReadable_writtenWhole _),
      isReadable_entry (by decide) (isReadable_list _),
      isReadable_entry (by decide) (isReadable_list _)⟩
  have hpolish : ∀ e ∈ polishEntries s.polish, e.IsReadable := by
    simp only [polishEntries, List.forall_mem_cons, List.not_mem_nil, false_implies, implies_true,
      and_true]
    exact ⟨isReadable_entry (by decide) (isReadable_writtenText _),
      isReadable_entry (by decide) (isReadable_writtenText _),
      isReadable_entry (by decide) (isReadable_writtenText _),
      isReadable_entry (by decide) (isReadable_writtenWhole _),
      isReadable_entry (by decide) (isReadable_writtenWhole _)⟩
  simp only [outline, List.forall_mem_cons, List.not_mem_nil, false_implies, implies_true, and_true]
  exact ⟨isReadable_section (by decide) hdisplay (List.cons_ne_nil _ _),
    isReadable_section (by decide) hpolish (List.cons_ne_nil _ _)⟩

/-! ### The text of settings -/

/-- Ending a line adds what the text on it still lacks, which is nothing where a literal text ends
it. -/
theorem endLine_eq (written : List Char) : endLine written = written ++ Yaml.lineEnd written := by
  unfold endLine Yaml.lineEnd
  split <;> simp

/-- A line with a name and a scalar is the text of an entry with that name and scalar. -/
theorem line_eq (name : String) (w : Yaml.Written) :
    line name w.chars = (Entry.mk name.toList (.scalar w)).lines := by
  have hmargin : Yaml.margin indentStep = "  ".toList := rfl
  have hcolon : ": ".toList = [':', ' '] := rfl
  simp [line, Entry.lines, Part.lines, Yaml.Written.line, endLine_eq, hmargin, hcolon]

/-- The lines of a list of texts are the text of an entry with the list as its part. -/
theorem listLines_eq (name : String) (values : List String) :
    listLines name values =
      (Entry.mk name.toList (.list (values.map writtenText))).lines := by
  have hmargin : Yaml.margin indentStep = "  ".toList := rfl
  have hcolon : ": ".toList = [':', ' '] := rfl
  have hfeed : ":\n".toList = [':', '\n'] := rfl
  have hdash : "  - ".toList = [' ', ' ', '-', ' '] := rfl
  have hspaces : "  ".toList = [' ', ' '] := rfl
  cases values with
  | nil => simp [listLines, line, endLine, Entry.lines, Part.lines, hmargin, hcolon, Yaml.isBreak]
  | cons value values =>
      simp [listLines, Entry.lines, Part.lines, Yaml.Written.item, Yaml.Written.line, endLine_eq, hmargin,
        List.flatMap_map, writtenText, hfeed, hdash, hspaces]

/-- The line of a text is the text of an entry with the written text as its part. -/
theorem textLine_eq (name value : String) :
    textLine name value = (Entry.mk name.toList (.scalar (writtenText value))).lines :=
  line_eq name (writtenText value)

/-- The line of a whole number is the text of an entry with its digits as the part. -/
theorem wholeLine_eq (name : String) (value : UInt64) :
    wholeLine name value = (Entry.mk name.toList (.scalar (writtenWhole value))).lines :=
  line_eq name (writtenWhole value)

/-- The line of a separator is the text of an entry with the quoted character as its part. -/
theorem separatorLine_eq (name : String) (c : Char) :
    line name (writeQuoted valueIndent [c]) =
      (Entry.mk name.toList (.scalar (writtenSeparator c))).lines :=
  line_eq name (writtenSeparator c)

/-- The lines of a section one by one, behind its heading. -/
theorem section_lines {heading name : List Char} (h : heading = name ++ [':', '\n'])
    (a b c d e : Entry) : (Section.mk name [a, b, c, d, e]).lines =
      heading ++ a.lines ++ b.lines ++ c.lines ++ d.lines ++ e.lines := by
  simp [Section.lines, h]

/-- **Settings are written as an outline.** -/
theorem toText_eq (s : Settings) : s.toText = String.ofList s.outline.chars := by
  have hchars : s.outline.chars =
      (Section.mk "format".toList (displayEntries s.display)).lines ++
        (Section.mk "polish".toList (polishEntries s.polish)).lines := by
    rw [Outline.chars, outline, List.flatMap_cons, List.flatMap_cons, List.flatMap_nil,
      List.append_nil]
  have hformat : "format:\n".toList = "format".toList ++ [':', '\n'] := rfl
  have hpolish : "polish:\n".toList = "polish".toList ++ [':', '\n'] := rfl
  rw [hchars, displayEntries, polishEntries, section_lines hformat, section_lines hpolish]
  unfold toText
  refine congrArg String.ofList ?_
  simp only [separatorLine_eq, textLine_eq, wholeLine_eq, listLines_eq, List.append_assoc]

/-! ### Reading the parts -/

variable {d : Document}

/-- The node of a written scalar gives the text that the scalar stands for. -/
theorem textOf?_written (w : Yaml.Written) : textOf? d w.node = some w.text := rfl

/-- The entries of a mapping are read under their names. -/
theorem entriesOf?_entries (entries : List Entry) :
    entriesOf? d (some (.mapping .empty (entries.map Entry.node))) =
      some (entries.map fun e => (e.name, e.part.node)) := by
  change (entries.map Entry.node).mapM _ = _
  induction entries with
  | nil => rfl
  | cons e entries ih =>
      have htext : textOf? d (Yaml.nameNode e.name) = some e.name := rfl
      simp only [List.map_cons, List.mapM_cons, Entry.node, htext, Option.map_some] at ih ⊢
      rw [ih]
      rfl

/-- **A part is read** that is there under its name, once. -/
theorem part?_of_mem {α : Type} {entries : Entries} {name : String} {node : Node Nat} {default : α}
    {read : Node Nat → Option α} (hnodup : (entries.map Prod.fst).Nodup)
    (hmem : (name.toList, node) ∈ entries) : part? entries name default read = read node := by
  have hfilter : entries.filter (·.1 == name.toList) = [(name.toList, node)] := by
    induction entries with
    | nil => exact absurd hmem List.not_mem_nil
    | cons e entries ih =>
        rw [List.map_cons, List.nodup_cons] at hnodup
        rcases List.mem_cons.mp hmem with rfl | hmem
        · have hnone : ∀ f ∈ entries, ¬ (f.1 == name.toList) = true := by
            intro f hf hname
            exact hnodup.1 (List.mem_map.mpr ⟨f, hf, beq_iff_eq.mp hname⟩)
          simp [List.filter_eq_nil_iff.mpr hnone]
        · have hne : e.1 ≠ name.toList := fun h =>
            hnodup.1 (List.mem_map.mpr ⟨_, hmem, h.symm⟩)
          rw [List.filter_cons_of_neg (by simpa using hne)]
          exact ih hnodup.2 hmem
  rw [part?, hfilter]

/-- The node of a written text gives the text: it is quoted wherever it could be taken for
something else. -/
theorem stringOf?_written (value : String) :
    stringOf? d (writtenText value).node = some value := by
  simp [stringOf?, textOf?_written, writtenText]

/-- The node of a written list gives its texts, each of them by `stringOf?_written`. -/
theorem stringsOf?_written (values : List String) :
    stringsOf? d (Part.list (values.map writtenText)).node = some values := by
  have hitems : itemsOf? d (Part.list (values.map writtenText)).node =
      some ((values.map writtenText).map Yaml.Written.node) := rfl
  rw [stringsOf?, hitems, Option.bind_some]
  induction values with
  | nil => rfl
  | cons value values ih =>
      rw [List.map_cons, List.map_cons, List.mapM_cons, stringOf?_written, ih rfl]
      rfl

/-- The node of a written separator gives the one character. -/
theorem charOf?_written (c : Char) : charOf? d (writtenSeparator c).node = some c := rfl

/-- The node of a written whole number gives the number, since its digits do not overflow. -/
theorem wholeOf?_written (value : UInt64) : wholeOf? d (writtenWhole value).node = some value := by
  have hsize : value.toNat < UInt64.size := value.toNat_lt
  have hfollow : d.follow? (writtenWhole value).node =
      some (.scalar .empty .plain (Nat.toDigits 10 value.toNat)) := rfl
  simp [wholeOf?, hfollow, Yaml.unsignedOf?_toDigits, hsize]

/-- The parts of a display policy. -/
theorem displayOf?_entries (p : Display) :
    displayOf? d (.mapping .empty ((displayEntries p).map Entry.node)) = some p := by
  obtain ⟨entries, hentries⟩ : ∃ entries : Entries,
      entries = (displayEntries p).map fun e => (e.name, e.part.node) := ⟨_, rfl⟩
  have hnodup : (entries.map Prod.fst).Nodup := by
    have hnames : entries.map Prod.fst = ["grouping_separator".toList, "percent_suffix".toList,
        "max_fraction_digits".toList, "number_fields".toList, "percent_fields".toList] := by
      rw [hentries]
      rfl
    rw [hnames]
    decide
  have hmem : ∀ e ∈ displayEntries p, (e.name, e.part.node) ∈ entries := fun e he =>
    hentries ▸ List.mem_map.mpr ⟨e, he, rfl⟩
  simp only [displayEntries, List.forall_mem_cons] at hmem
  obtain ⟨hseparator, hsuffix, hdigits, hnumbers, hpercents, -⟩ := hmem
  rw [displayOf?, entriesOf?_entries, ← hentries]
  simp only [Option.bind_eq_bind, Option.bind_some]
  rw [part?_of_mem hnodup hseparator, part?_of_mem hnodup hsuffix, part?_of_mem hnodup hdigits,
    part?_of_mem hnodup hnumbers, part?_of_mem hnodup hpercents]
  have hscalar : ∀ w : Yaml.Written, (Part.scalar w).node = (w.node : Node Nat) := fun _ => rfl
  simp only [hscalar, charOf?_written, stringOf?_written, wholeOf?_written, stringsOf?_written,
    Option.bind_some, Option.pure_def]

/-- The parts of polish settings. -/
theorem polishOf?_entries (p : Polish.Settings) :
    polishOf? d (.mapping .empty ((polishEntries p).map Entry.node)) = some p := by
  obtain ⟨entries, hentries⟩ : ∃ entries : Entries,
      entries = (polishEntries p).map fun e => (e.name, e.part.node) := ⟨_, rfl⟩
  have hnodup : (entries.map Prod.fst).Nodup := by
    have hnames : entries.map Prod.fst = ["model".toList, "base_url".toList, "api_key_env".toList,
        "timeout_secs".toList, "min_chars".toList] := by
      rw [hentries]
      rfl
    rw [hnames]
    decide
  have hmem : ∀ e ∈ polishEntries p, (e.name, e.part.node) ∈ entries := fun e he =>
    hentries ▸ List.mem_map.mpr ⟨e, he, rfl⟩
  simp only [polishEntries, List.forall_mem_cons] at hmem
  obtain ⟨hmodel, hurl, hkey, htimeout, hminimum, -⟩ := hmem
  rw [polishOf?, entriesOf?_entries, ← hentries]
  simp only [Option.bind_eq_bind, Option.bind_some]
  rw [part?_of_mem hnodup hmodel, part?_of_mem hnodup hurl, part?_of_mem hnodup hkey,
    part?_of_mem hnodup htimeout, part?_of_mem hnodup hminimum]
  have hscalar : ∀ w : Yaml.Written, (Part.scalar w).node = (w.node : Node Nat) := fun _ => rfl
  simp only [hscalar, stringOf?_written, wholeOf?_written, Option.bind_some, Option.pure_def]

/-! ### Settings -/

/-- **The outline of settings** reads as the settings, acceptable or not. -/
theorem ofDocument?_outline (s : Settings) :
    ofDocument? (Document.ofRoot (some s.outline.node)) = some s := by
  obtain ⟨d, hd⟩ : ∃ d, d = Document.ofRoot (some s.outline.node) := ⟨_, rfl⟩
  have hroot : entriesOf? d d.root = some [("format".toList,
      .mapping .empty ((displayEntries s.display).map Entry.node)),
      ("polish".toList, .mapping .empty ((polishEntries s.polish).map Entry.node))] := by
    rw [hd]
    rfl
  obtain ⟨entries, hentries⟩ : ∃ entries : Entries, entries = [("format".toList,
      .mapping .empty ((displayEntries s.display).map Entry.node)),
      ("polish".toList, .mapping .empty ((polishEntries s.polish).map Entry.node))] := ⟨_, rfl⟩
  have hnodup : (entries.map Prod.fst).Nodup := by
    have hnames : entries.map Prod.fst = ["format".toList, "polish".toList] := by
      rw [hentries]
      rfl
    rw [hnames]
    decide
  rw [← hd, ofDocument?, hroot, ← hentries]
  simp only [Option.bind_eq_bind, Option.bind_some]
  rw [part?_of_mem hnodup (hentries ▸ List.mem_cons_self),
    part?_of_mem hnodup (hentries ▸ List.mem_cons_of_mem _ List.mem_cons_self), displayOf?_entries,
    polishOf?_entries]
  rfl

/-- The text of settings is not blank: it starts with a name. -/
theorem isBlankText_toText (s : Settings) : Text.isBlankText s.toText = false := by
  obtain ⟨cs, hcs⟩ : ∃ cs, s.outline.chars = 'f' :: cs := ⟨_, rfl⟩
  refine Text.isBlankText_of_mem (c := 'f') ?_ rfl
  rw [toText_eq, String.toList_ofList, hcs]
  exact List.mem_cons_self

/-- **The document in the text of settings** holds the settings, acceptable or not. -/
theorem ofDocument?_toText (s : Settings) :
    (Document.ofText? s.toText).bind ofDocument? = some s := by
  rw [toText_eq, Outline.ofText?_chars s.isReadable_outline (List.cons_ne_nil _ _),
    Option.bind_some, ofDocument?_outline]

/-- A text that is not blank gives the settings in its document, or their first fault. -/
theorem ofText_of_document {text : String} {s : Settings} (hblank : Text.isBlankText text = false)
    (h : (Document.ofText? text).bind ofDocument? = some s) :
    ofText text = s.check.map fun _ => s := by
  rw [ofText, hblank, h]
  cases hcheck : s.check <;> simp [hcheck, bind, Except.bind, pure, Except.pure, Except.map]

/-- **The text of settings reads as the settings** if they are acceptable, and else as their first
fault. -/
theorem ofText_toText (s : Settings) : ofText s.toText = s.check.map fun _ => s :=
  ofText_of_document s.isBlankText_toText s.ofDocument?_toText

end Outreach.Settings
