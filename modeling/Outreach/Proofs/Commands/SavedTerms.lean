import Outreach.Proofs.Commands.HandleFailures
import Outreach.Proofs.Commands.TemplateProcesses
import Outreach.Proofs.Preset.Runs

/-!
# Terms That Are Saved First

Terms can be saved as a preset and used for a message later, or be given with the message. Both give
the same message, or the same failure, as long as the names are given with the message: a preset
does not store them. What a preset lacks comes from the initial terms, which were laid under it
before it was saved.

## Main results

* `runPresetAdd_eq_ok`: what saving terms as a preset does.
* `textAt_of_save`: a file outside the directory of the presets is read as before.
* `generate_savedTerms`: **messages from saved terms and from the terms themselves agree**, and no
  saved preset makes a message fail on the hand controller.
-/

namespace Outreach

variable {w v : World} {d : DataDirectory}

/-! ### Saving terms -/

/-- What saving terms as a preset does: it reads terms, adds them to the presets that are loaded, and
saves these. -/
theorem runPresetAdd_eq_ok {name text : String} {source : RecordSource}
    (h : w.runTask (runPresetAdd d name source) = (.ok text, v)) :
    let initial := Terms.initial w.date
    ∃ given terms s p s', w.runTask source.read = (.ok given, w) ∧
      Terms.ofRecord (initial.toRecord.merge given) initial = .ok terms ∧
      Presets.add s w.clock name (initial.toRecord.merge given) = (.ok p, s') ∧
      w.runTask (s'.save d.presetsPath) = (.ok (), v) ∧
      text = unlines [s!"Added preset: {p.name} ({p.id})"] := by
  intro initial
  obtain ⟨date, hdate, h⟩ := observes_today.bind_eq_ok.mp h
  obtain rfl := Except.ok.inj (congrArg Prod.fst hdate)
  obtain ⟨given, hread, h⟩ := source.observes_read.bind_eq_ok.mp h
  obtain ⟨terms, hterms, h⟩ := (Task.Observes.ofExcept _).bind_eq_ok.mp h
  obtain ⟨s, hload, h⟩ := d.observes_loadPresets.bind_eq_ok.mp h
  obtain ⟨clock, hclock, h⟩ := observes_now.bind_eq_ok.mp h
  obtain rfl := Except.ok.inj (congrArg Prod.fst hclock)
  obtain ⟨⟨p, s'⟩, hadd, h⟩ := (Task.Observes.ofExcept _).bind_eq_ok.mp h
  obtain ⟨⟨⟩, u, hsave, h⟩ := World.runTask_bind_eq_ok.mp h
  rw [runTask_ofExcept, Prod.mk.injEq] at hterms hadd
  rw [World.runTask_pure, Prod.mk.injEq] at h
  obtain ⟨htext, rfl⟩ := h
  exact ⟨given, terms, s, p, s', hread, hterms.1, Outcome.toExcept_eq_ok_iff.mp hadd.1, hsave,
    (Except.ok.inj htext).symm⟩

/-- The line that is printed tells the id. -/
theorem id_eq_of_unlines_eq {name id other : String}
    (h : unlines [s!"Added preset: {name} ({id})"] = unlines [s!"Added preset: {name} ({other})"]) :
    id = other := by
  have hlist := congrArg String.toList h
  have hid : (toString id).toList = (toString other).toList := by
    simpa [unlines, String.join] using hlist
  exact String.toList_inj.mp hid

/-! ### What a save leaves as it was -/

/-- A file is read as before if its path leads where it led and the file has not changed. -/
theorem FileTree.readText_of_kept {t t' : FileTree} {here : Option Location} {path text : String}
    {l : Location} (hkept : t.KeepsDirectories t') (hl : t.locate here path = .ok l)
    (hfile : t'.fileAt? l = t.fileAt? l) (hread : t.readText here path = .ok text) :
    t'.readText here path = .ok text := by
  have hget : t.get? l ≠ none := by
    intro hnone
    simp [readText, read, find, hl, hnone] at hread
  have hread' := read_congr hkept hl hget hfile
  rwa [readText, hread', ← readText]

/-- A location is **outside** the directory in which presets have been saved if nothing there is its
file, under whatever name. -/
def OutsidePresets (w v : World) (d : DataDirectory) (k : Location) : Prop :=
  ∀ dir, v.files.locate v.workingDirectory d.presetsPath = .ok (dir ++ [Store.presets.name]) →
    ∀ name, k ≠ dir ++ [name] ∧ ¬ w.files.SharesFile k (dir ++ [name])

/-- **A file outside the directory of the presets is read as before** they were saved. -/
theorem textAt_of_save {s : Presets} {path text : String}
    (hsave : w.runTask (s.save d.presetsPath) = (.ok (), v)) (htext : w.textAt path = .ok text)
    (houtside : ∀ k, w.files.locate w.workingDirectory path = .ok k → OutsidePresets w v d k) :
    v.textAt path = .ok text := by
  obtain ⟨dir, htarget, -, -, hothers⟩ := exists_of_save (s := .presets) hsave
  rw [Presets.save, StoreFile.save_eq] at hsave
  have hkept : w.files.KeepsDirectories v.files := by
    have hparents :=
      (parentsMade_writeAtomically w d.presetsPath (StoreFile.bytes s.toJson)).kept
    rwa [hsave] at hparents
  have hhere : v.workingDirectory = w.workingDirectory := by
    have hrun := w.workingDirectory_run
      (writeAtomically d.presetsPath (StoreFile.bytes s.toJson)).run
    rwa [← World.runTask, hsave] at hrun
  -- the path leads somewhere, since the file could be read before
  rcases hl : w.files.locate w.workingDirectory path with e | k
  · rw [World.textAt, FileTree.readText, FileTree.read, FileTree.find, hl] at htext
    exact absurd htext (by simp)
  · have hapart := houtside k hl dir htarget
    have hfile := hothers k (hapart _).1 (hapart _).2
    rw [World.textAt, hhere]
    exact FileTree.readText_of_kept hkept hl hfile htext

/-! ### Messages at other times -/

/-- Without polishing, a message is what settings, templates and its record make of it. -/
theorem MessageOptions.fst_runTask_message {o : MessageOptions} {fields : Record}
    (hpolish : o.polish = false)
    (hfields : w.runTask (o.fields d w.date) = (.ok fields, w)) :
    (w.runTask (o.message d)).1 = do
      let settings ← (w.runTask (Settings.loadOrDefault d.settingsPath)).1
      let terms ← Terms.ofRecord fields (Terms.initial w.date)
      terms.checkRequired
      let templates ← (w.runTask (Templates.load d.templatesPath)).1
      let template ← templates.choose o.template
      return Message.render settings.display template.content fields := by
  have hcomplete : ∀ s : Polish.Settings, (w.runTask (o.completeFields d s)).1 = do
      let terms ← Terms.ofRecord fields (Terms.initial w.date)
      terms.checkRequired
      return fields := by
    intro s
    have htoday : w.runTask today = (.ok w.date, w) := rfl
    rw [completeFields, World.runTask_bind, htoday]
    dsimp only
    rw [World.runTask_bind, hfields]
    simp only [(Task.Observes.ofExcept _).fst_runTask_bind, runTask_ofExcept, hpolish,
      Bool.false_eq_true, if_false, World.runTask_pure]
    rfl
  rw [message, (Settings.observes_loadOrDefault _).fst_runTask_bind]
  simp only [(observes_completeFields hpolish _).fst_runTask_bind, hcomplete, bind_assoc,
    (Templates.observes_load _).fst_runTask_bind, (Task.Observes.ofExcept _).fst_runTask_bind,
    runTask_ofExcept, World.runTask_pure, pure_bind]
  rfl

/-- Generating prints the message on a line, or fails as putting the message together does. -/
theorem fst_runTask_runGenerate (w : World) (d : DataDirectory) (o : MessageOptions) :
    (w.runTask (runGenerate d o)).1 = (w.runTask (o.message d)).1.map fun text => unlines [text] := by
  rw [runGenerate, World.runTask_bind]
  rcases w.runTask (o.message d) with ⟨e | text, u⟩ <;> rfl

/-- The settings that are loaded do not depend on the time. -/
theorem Settings.fst_runTask_restart (path : String) (clock : Nat) :
    ((v.restart clock).runTask (loadOrDefault path)).1 = (v.runTask (loadOrDefault path)).1 := by
  refine World.runTask_bind_congr (.request rfl) rfl fun there => ?_
  split
  · refine World.runTask_bind_congr (.request rfl) rfl fun text => ?_
    split
    · rfl
    · rw [runTask_ofExcept, runTask_ofExcept]
  · rfl

/-- Presets that are loaded in a world are loaded by the next process as well. -/
theorem runTask_load_restart {s : Presets} {path : String} {day : Date} (clock : Nat)
    (h : v.runTask (Presets.load path day) = (.ok s, v)) :
    (v.restart clock).runTask (Presets.load path day) = (.ok s, v.restart clock) := by
  have hsame : ((v.restart clock).runTask (Presets.load path day)).1 =
      (v.runTask (Presets.load path day)).1 :=
    World.runTask_bind_congr (StoreFile.observes_load _ path) (StoreFile.load_congr _ rfl)
      fun _ => rfl
  rw [(Presets.observes_load path day).runTask_eq, hsame, h]

/-! ### Saved terms -/

/-- A preset that has been added is found by its id. -/
theorem Presets.find?_of_add {s s' : Presets} {clock : Nat} {name : String} {fields : Record}
    {p : Preset} (h : s.add clock name fields = (.ok p, s')) : s'.find? p.id = some p := by
  obtain ⟨-, -, hid, -, rfl⟩ := add_eq_ok h
  have hnone := find?_eq_none_iff.mpr (hid ▸ freshId_notMem s.ids clock)
  rw [find?] at hnone ⊢
  rw [List.find?_append, hnone, Option.none_or]
  simp

/-- A field that is not stored is one of the two names. -/
theorem Field.mem_stored_of_mem_all {key : String} (h : key ∈ all.map name) :
    key = contactPerson.name ∨ key = kolName.name ∨ key ∈ stored.map name := by
  obtain ⟨f, -, rfl⟩ := List.mem_map.mp h
  cases f <;> decide

/-- **The record is the same**, whether terms have been saved in between or not, if the names are
given and the terms have no fields of their own. -/
theorem withNames_savedTerms {o : MessageOptions} {initial given : Record}
    (hcontact : o.contact.isSome = true) (hkol : o.kol.isSome = true)
    (hgiven : ∀ key ∈ given.keys, key ∈ Field.all.map Field.name) :
    o.withNames ((initial.merge ((initial.merge given).retain (Field.stored.map Field.name))).merge
      ∅) = o.withNames ((initial.merge ∅).merge given) := by
  obtain ⟨contact, hcontact⟩ := Option.isSome_iff_exists.mp hcontact
  obtain ⟨kol, hkol⟩ := Option.isSome_iff_exists.mp hkol
  refine Record.ext_get? fun key => ?_
  simp only [MessageOptions.get?_withNames, Record.get?_merge, Record.get?_retain,
    Record.get?_empty, Option.none_or, List.contains_iff_mem]
  by_cases hkey : key ∈ Field.all.map Field.name
  · rcases Field.mem_stored_of_mem_all hkey with rfl | rfl | hstored
    · rw [MessageOptions.named?, if_pos rfl, hcontact]
      rfl
    · rw [MessageOptions.named?, if_neg (by decide), if_pos rfl, hkol]
      rfl
    · rw [if_pos hstored, Option.or_assoc, Option.or_self]
  · have hnone : given.get? key = none :=
      Record.get?_eq_none_iff.mpr fun hmem => hkey (hgiven key hmem)
    have hstored : key ∉ Field.stored.map Field.name := by
      intro hstored
      obtain ⟨f, -, rfl⟩ := List.mem_map.mp hstored
      exact hkey (List.mem_map_of_mem (by cases f <;> decide))
    rw [if_neg hstored, hnone, Option.none_or]

/-- How terms have been **saved**: as a preset that is loaded from now on. It has what a preset stores
of the terms over the initial ones, and what the terms were read from is there as before. -/
structure TermsSaved (w v : World) (d : DataDirectory) (id : String) (source : RecordSource)
    (given : Record) (presets : Presets) (p : Preset) : Prop where
  read : ∀ clock, (v.restart clock).runTask source.read = (.ok given, v.restart clock)
  loads : ∀ clock day, (v.restart clock).runTask (Presets.load d.presetsPath day) =
    (.ok presets, v.restart clock)
  finds : presets.find? id = some p
  data : p.data = ((Terms.initial w.date).toRecord.merge given).retain
    (Field.stored.map Field.name)
  valid : ∃ terms, Terms.ofRecord ((Terms.initial w.date).toRecord.merge given)
    (Terms.initial w.date) = .ok terms

/-- Adding a preset saves the terms, if they come from a file outside the directory of the presets. -/
theorem exists_termsSaved {name id : String} {source : RecordSource}
    (hadd : w.runTask (runPresetAdd d name source) =
      (.ok (unlines [s!"Added preset: {Text.trim name} ({id})"]), v))
    (houtside : ∀ path, source.file = some path →
      ∀ k, w.files.locate w.workingDirectory path = .ok k → OutsidePresets w v d k) :
    ∃ given presets p, w.runTask source.read = (.ok given, w) ∧
      TermsSaved w v d id source given presets p := by
  obtain ⟨given, terms, s, p, s', hread, hterms, hs, hsave, htext⟩ := runPresetAdd_eq_ok hadd
  obtain ⟨hname, -, -, hdata, -⟩ := Presets.add_eq_ok hs
  rw [hname] at htext
  obtain rfl := id_eq_of_unlines_eq htext
  refine ⟨given, s', p, hread, ⟨fun clock => ?_, fun clock day => ?_, Presets.find?_of_add hs,
    hdata, terms, hterms⟩⟩
  · obtain ⟨file, hfile, hassigned⟩ := RecordSource.runTask_read_eq_ok_iff.mp hread
    refine RecordSource.runTask_read_eq_ok_iff.mpr ⟨file, ?_, hassigned⟩
    rw [RecordSource.Holds] at hfile ⊢
    cases hpath : source.file with
    | none => rwa [hpath] at hfile
    | some path =>
        rw [hpath] at hfile
        obtain ⟨text, htext, hrecord⟩ := hfile
        have hkept := textAt_of_save hsave htext (houtside path hpath)
        exact ⟨text, hkept, hrecord⟩
  · exact runTask_load_restart clock (Presets.load_of_save day hsave)

namespace TermsSaved

variable {id : String} {source : RecordSource} {given : Record} {presets : Presets} {p : Preset}
  {o : MessageOptions} {clock clock' : Nat} {day : Date}

/-- The record of a message that starts from the preset. -/
theorem runTask_fields_iff (h : TermsSaved w v d id source given presets p)
    (hpreset : o.preset = some id) {fields : Record} :
    (v.restart clock).runTask (o.fields d day) = (.ok fields, v.restart clock) ↔
      ∃ own, (v.restart clock).runTask o.source.read = (.ok own, v.restart clock) ∧
        o.withNames (((Terms.initial day).toRecord.merge p.data).merge own) = fields := by
  have hstarts : ∀ preset, o.StartsFrom d day (v.restart clock) preset ↔ p.data = preset := by
    intro preset
    simp only [MessageOptions.StartsFrom, hpreset, h.loads, Prod.mk.injEq, and_true,
      Except.ok.injEq]
    constructor
    · rintro ⟨_, q, rfl, hq, hdata⟩
      obtain rfl := Option.some.inj (h.finds.symm.trans hq)
      exact hdata
    · intro hdata
      exact ⟨presets, p, rfl, h.finds, hdata⟩
  rw [MessageOptions.runTask_fields_eq_ok_iff]
  simp only [hstarts]
  constructor
  · rintro ⟨_, own, rfl, hown, hfields⟩
    exact ⟨own, hown, hfields⟩
  · rintro ⟨own, hown, hfields⟩
    exact ⟨p.data, own, rfl, hown, hfields⟩

/-- A message that starts from the preset, with nothing but the names of its own, has the record of
one that is given the terms instead. -/
theorem exists_fields (h : TermsSaved w v d id source given presets p)
    (hgiven : ∀ key ∈ given.keys, key ∈ Field.all.map Field.name)
    (hday : (v.restart clock).date = w.date) (hday' : (v.restart clock').date = w.date)
    (hpreset : o.preset = some id) (hsource : o.source = ⟨none, []⟩)
    (hcontact : o.contact.isSome = true) (hkol : o.kol.isSome = true) :
    ∃ fields,
      (v.restart clock).runTask (o.fields d (v.restart clock).date) =
        (.ok fields, v.restart clock) ∧
      (v.restart clock').runTask
          ({ o with preset := none, source }.fields d (v.restart clock').date) =
        (.ok fields, v.restart clock') := by
  refine ⟨_, (h.runTask_fields_iff hpreset).mpr ⟨∅, ?_, rfl⟩,
    MessageOptions.runTask_fields_eq_ok_iff.mpr ⟨∅, given, rfl, h.read clock', ?_⟩⟩
  · rw [hsource]
    exact RecordSource.runTask_read_eq_ok_iff.mpr ⟨∅, rfl, rfl⟩
  · rw [hday, hday', h.data]
    exact (withNames_savedTerms hcontact hkol hgiven).symm

/-- **The same message**, or the same failure, comes of the preset and of the terms. -/
theorem fst_runTask_message (h : TermsSaved w v d id source given presets p)
    (hgiven : ∀ key ∈ given.keys, key ∈ Field.all.map Field.name)
    (hday : (v.restart clock).date = w.date) (hday' : (v.restart clock').date = w.date)
    (hpreset : o.preset = some id) (hsource : o.source = ⟨none, []⟩)
    (hcontact : o.contact.isSome = true) (hkol : o.kol.isSome = true) (hpolish : o.polish = false) :
    ((v.restart clock).runTask (o.message d)).1 =
      ((v.restart clock').runTask ({ o with preset := none, source }.message d)).1 := by
  obtain ⟨fields, hfields, hfields'⟩ :=
    h.exists_fields hgiven hday hday' hpreset hsource hcontact hkol
  have htemplates : ∀ clock, ((v.restart clock).runTask (Templates.load d.templatesPath)).1 =
      (v.runTask (Templates.load d.templatesPath)).1 := fun _ => Templates.load_congr rfl
  rw [MessageOptions.fst_runTask_message hpolish hfields,
    MessageOptions.fst_runTask_message (o := { o with preset := none, source }) hpolish hfields']
  simp only [hday, hday', Settings.fst_runTask_restart, htemplates]

/-- The preset has a choice for the hand controller, and it is one of the two words. -/
theorem exists_get?_sendHandle (h : TermsSaved w v d id source given presets p) :
    ∃ text choice, p.data.get? Field.sendHandle.name = some text ∧
      SendHandle.ofText? text = some choice := by
  obtain ⟨terms, hterms⟩ := h.valid
  have hstored : (Field.stored.map Field.name).contains Field.sendHandle.name = true := by decide
  have hdata : p.data.get? Field.sendHandle.name =
      ((Terms.initial w.date).toRecord.merge given).get?
        Field.sendHandle.name := by
    rw [h.data, Record.get?_retain, if_pos hstored]
  obtain ⟨text, htext⟩ : ∃ text, p.data.get? Field.sendHandle.name = some text := by
    rw [hdata, Record.get?_merge, Terms.get?_toRecord, ← Option.isSome_iff_exists]
    simp
  exact ⟨text, terms.sendHandle, htext,
    (Terms.ofRecord_eq_ok hterms).2 text (hdata.symm.trans htext)⟩

/-- **The preset never makes a message fail on the hand controller**: the choice that does is one of
the message's own. -/
theorem get?_of_unknownSendHandle (h : TermsSaved w v d id source given presets p) {text : String}
    (hpreset : o.preset = some id)
    (hfails : ((v.restart clock).runTask (runGenerate d o)).1 =
      .error (.unknownSendHandle text)) :
    ∃ own, (v.restart clock).runTask o.source.read = (.ok own, v.restart clock) ∧
      own.get? Field.sendHandle.name = some text := by
  obtain ⟨fields, hfields, htext, hunknown⟩ := MessageOptions.exists_of_unknownSendHandle hfails
  obtain ⟨own, hown, rfl⟩ := (h.runTask_fields_iff hpreset).mp hfields
  refine ⟨own, hown, ?_⟩
  have hnamed : o.named? Field.sendHandle.name = none := by
    rw [MessageOptions.named?, if_neg (by decide), if_neg (by decide)]
  cases howns : own.get? Field.sendHandle.name with
  | some word =>
      rwa [MessageOptions.get?_withNames, hnamed, Option.none_or, Record.get?_merge, howns] at htext
  | none =>
      -- then the choice is one of the terms, which could be read when they were saved
      obtain ⟨saved, choice, hsaved, hchoice⟩ := h.exists_get?_sendHandle
      rw [MessageOptions.get?_withNames, hnamed, Option.none_or, Record.get?_merge, howns,
        Option.none_or, Record.get?_merge, hsaved, Option.some_or] at htext
      obtain rfl := Option.some.inj htext
      exact absurd (hunknown.symm.trans hchoice) (by simp)

end TermsSaved

/-- **Messages from saved terms and from the terms themselves agree.** Terms are saved as a preset,
from a file outside the directory of the presets, with no fields but those of a deal. On the same
day, as days go where the commands run, a message that starts from the preset, and one that is given the terms, are the same or fail in
the same way, if the two names are given. And no message that starts from the preset fails on the
hand controller, on any day, unless its own fields say so. -/
theorem generate_savedTerms {name id : String} {source : RecordSource}
    (hadd : w.runTask (Command.runIn d (.presetAdd name source)) =
      (.ok (unlines [s!"Added preset: {Text.trim name} ({id})"]), v))
    (hfields : ∀ given, w.runTask source.read = (.ok given, w) →
      ∀ key ∈ given.keys, key ∈ Field.all.map Field.name)
    (houtside : ∀ path, source.file = some path →
      ∀ k, w.files.locate w.workingDirectory path = .ok k → OutsidePresets w v d k) :
    (∀ (contact kol : String) (template : Option String) (clock clock' : Nat),
      (v.restart clock).date = w.date → (v.restart clock').date = w.date →
      ((v.restart clock).runTask (Command.runIn d (.generate
          { preset := some id, template, contact := some contact, kol := some kol,
            source := ⟨none, []⟩, polish := false }))).1 =
        ((v.restart clock').runTask (Command.runIn d (.generate
          { preset := none, template, contact := some contact, kol := some kol,
            source, polish := false }))).1) ∧
      ∀ (o : MessageOptions) (clock : Nat) (text : String), o.preset = some id →
        ((v.restart clock).runTask (Command.runIn d (.generate o))).1 =
          .error (.unknownSendHandle text) →
        ∃ given, ((v.restart clock).runTask o.source.read).1 = .ok given ∧
          given.get? Field.sendHandle.name = some text := by
  obtain ⟨given, presets, p, hread, hsaved⟩ := exists_termsSaved hadd houtside
  constructor
  · intro contact kol template clock clock' hday hday'
    have hmessage := hsaved.fst_runTask_message (hfields given hread) hday hday'
      (o := { preset := some id, template, contact := some contact, kol := some kol,
              source := ⟨none, []⟩, polish := false }) rfl rfl rfl rfl rfl
    rw [Command.runIn, Command.runIn, fst_runTask_runGenerate, fst_runTask_runGenerate, hmessage]
  · intro o clock text hpreset hfails
    obtain ⟨own, hown, htext⟩ := hsaved.get?_of_unknownSendHandle hpreset hfails
    exact ⟨own, congrArg Prod.fst hown, htext⟩

/-- Terms with an offer from a file beside the data directory, and an end that is assigned. They are
saved first, at the start of 1970, and used within that day. -/
theorem generate_savedTerms_fanOffer :
    let w := ((default : World).runTask (do
      let _ ← Task.request (.makeDirectories "d")
      writeTextAtomically "r.yaml" "fanOffer: r\n")).2
    let d : DataDirectory := ⟨"d"⟩
    let source : RecordSource := ⟨some "r.yaml", ["endDate= s"]⟩
    let name := " n "
    let id := "0"
    ∃ v,
      w.runTask (Command.runIn d (.presetAdd name source)) =
        (.ok (unlines [s!"Added preset: {Text.trim name} ({id})"]), v) ∧
      (∀ given, w.runTask source.read = (.ok given, w) →
        ∀ key ∈ given.keys, key ∈ Field.all.map Field.name) ∧
      (∀ path, source.file = some path →
        ∀ k, w.files.locate w.workingDirectory path = .ok k → OutsidePresets w v d k) ∧
      ((v.restart 7).runTask (Command.runIn d (.generate
          { preset := some id, template := none, contact := some "C", kol := some "K",
            source := ⟨none, []⟩, polish := false }))).1 =
        ((v.restart 8).runTask (Command.runIn d (.generate
          { preset := none, template := none, contact := some "C", kol := some "K",
            source, polish := false }))).1 := by
  intro w d source name id
  have hprinted : (w.runTask (Command.runIn d (.presetAdd name source))).1.toOption =
      some (unlines [s!"Added preset: {Text.trim name} ({id})"]) := by decide +kernel
  have hkeys : (w.runTask source.read).1.toOption.map Record.keys = some ["endDate", "fanOffer"] := by
    decide +kernel
  have hfile : (w.files.locate w.workingDirectory "r.yaml").toOption = some ["r.yaml"] := by
    decide +kernel
  have hentries : w.files.entries = [(["r.yaml"], .file 0), (["d"], .directory)] := by
    decide +kernel
  have hstore : ((w.runTask (Command.runIn d (.presetAdd name source))).2.files.locate
      (w.runTask (Command.runIn d (.presetAdd name source))).2.workingDirectory
      d.presetsPath).toOption = some ["d", "presets.json"] := by decide +kernel
  have hday : ∀ clock ∈ [7, 8], w.dateAt clock = w.date := by decide +kernel
  clear_value w
  rcases hadd : w.runTask (Command.runIn d (.presetAdd name source)) with ⟨x, v⟩
  rw [hadd] at hprinted hstore
  obtain rfl := eq_ok_of_toOption_eq hprinted
  have hday' : ∀ clock ∈ [7, 8], (v.restart clock).date = w.date := by
    intro clock hclock
    have hzone := w.dateAt_run (Command.runIn d (.presetAdd name source)).run
    rw [← World.runTask, hadd] at hzone
    exact (congrFun hzone clock).trans (hday clock hclock)
  have hfields : ∀ given, w.runTask source.read = (.ok given, w) →
      ∀ key ∈ given.keys, key ∈ Field.all.map Field.name := by
    intro given hread
    rw [hread] at hkeys
    have hgiven : given.keys = ["endDate", "fanOffer"] := Option.some.inj hkeys
    rw [hgiven]
    decide
  have houtside : ∀ path, source.file = some path →
      ∀ k, w.files.locate w.workingDirectory path = .ok k → OutsidePresets w v d k := by
    intro path hpath k hk dir hdir entry
    obtain rfl : "r.yaml" = path := Option.some.inj hpath
    obtain rfl := Except.ok.inj ((eq_ok_of_toOption_eq hfile).symm.trans hk)
    have hpresets := Except.ok.inj ((eq_ok_of_toOption_eq hstore).symm.trans hdir)
    obtain rfl : ["d"] = dir := (List.append_inj' hpresets rfl).1
    refine ⟨by simp, ?_⟩
    rintro ⟨file, -, hshared⟩
    rw [FileTree.get?, hentries] at hshared
    simp [entryAt, List.lookup_cons] at hshared
  exact ⟨v, rfl, hfields, houtside, (generate_savedTerms hadd hfields houtside).1 "C" "K" none 7 8
    (hday' 7 (by decide)) (hday' 8 (by decide))⟩

end Outreach
