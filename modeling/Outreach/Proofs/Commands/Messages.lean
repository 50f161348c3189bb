import Outreach.Proofs.Commands.TemplateOrders
import Outreach.Proofs.Deal.Assignments
import Outreach.Proofs.Deal.Terms

/-!
# What a Message Is Made Of

The record of a message has five layers: the initial terms, the preset, the record file, the
assignments and the two names. For each field the uppermost layer that has it counts. A message is
written only for a complete record, and it shows that record.

## Main results

* `MessageOptions.runTask_fields_eq_ok_iff`: the record of a message, by what its sources hold.
* `MessageOptions.isLayered_of_fields`: **its layers**.
* `MessageOptions.runTask_completeFields_eq_ok_iff`: what is done with it before the message is
  written.
* `Record.isComplete_of_check`: what is checked before a message is written.
* `MessageOptions.message_isLayered`: **what a message is made of.**
-/

namespace Outreach

variable {w v : World} {d : DataDirectory} {o : MessageOptions} {date : Date}
  {preset file given fields : Record} {key : String}

/-! ### Sources -/

/-- The record that a source **holds** in its file, without the assignments; one without a file holds
none. -/
def RecordSource.Holds (s : RecordSource) (w : World) (file : Record) : Prop :=
  match s.file with
  | none => file = ∅
  | some path => ∃ text, w.textAt path = .ok text ∧ Record.ofText text = .ok file

/-- The record that a message **starts from**: the data of the preset that is chosen, among those
that are loaded on a day, or none. -/
def MessageOptions.StartsFrom (o : MessageOptions) (d : DataDirectory) (date : Date) (w : World)
    (preset : Record) : Prop :=
  match o.preset with
  | none => preset = ∅
  | some id => ∃ presets p, w.runTask (Presets.load d.presetsPath date) = (.ok presets, w) ∧
      presets.find? id = some p ∧ p.data = preset

/-- The name that is given for a field, if it is one of the two that name people. -/
def MessageOptions.named? (o : MessageOptions) (key : String) : Option String :=
  if key = Field.contactPerson.name then o.contact
  else if key = Field.kolName.name then o.kol
  else none

/-- Reading the record of a file, if one is named, changes nothing. -/
theorem RecordSource.observes_readFile (s : RecordSource) : s.readFile.Observes := by
  rw [readFile]
  split
  · exact .pure _
  · exact .bind (observes_readInput _ _) fun text => .ofExcept _

/-- The record of a file is read exactly if the file holds its text. -/
theorem RecordSource.runTask_readFile_eq_ok_iff {s : RecordSource} :
    w.runTask s.readFile = (.ok file, w) ↔ s.Holds w file := by
  rw [readFile, Holds]
  cases s.file with
  | none =>
      rw [World.runTask_pure]
      exact ⟨fun h => (Except.ok.inj (congrArg Prod.fst h)).symm, fun h => h ▸ rfl⟩
  | some path =>
      rw [(observes_readInput _ _).bind_eq_ok]
      simp only [runTask_readInput, runTask_ofExcept, Prod.mk.injEq, and_true]
      rcases w.textAt path with e | text
      · simp [Except.mapError]
      · simp [Except.mapError]

/-- Reading a source gives the record of its file after the assignments. -/
theorem RecordSource.runTask_read_eq_ok_iff {s : RecordSource} :
    w.runTask s.read = (.ok given, w) ↔
      ∃ file, s.Holds w file ∧ file.assignAll s.assignments = .ok given := by
  rw [read, s.observes_readFile.bind_eq_ok]
  simp only [runTask_readFile_eq_ok_iff, runTask_ofExcept, Prod.mk.injEq, and_true]

/-- Looking up the preset of a message changes nothing. -/
theorem MessageOptions.observes_presetData (o : MessageOptions) (d : DataDirectory) (date : Date) :
    (o.presetData d date).Observes := by
  rw [presetData]
  split
  · exact .pure _
  · exact .bind (Presets.observes_load _ _) fun presets => .bind (.ofExcept _) fun _ => .pure _

/-- A preset is given for an id exactly if it is found under it. -/
theorem Presets.get_eq_ok_iff {s : Presets} {id : String} {p : Preset} :
    s.get id = .ok p ↔ s.find? id = some p := by
  rw [get]
  cases s.find? id <;> simp

/-- The record of the preset is looked up exactly if the message starts from it. -/
theorem MessageOptions.runTask_presetData_eq_ok_iff :
    w.runTask (o.presetData d date) = (.ok preset, w) ↔ o.StartsFrom d date w preset := by
  rw [presetData, StartsFrom]
  cases o.preset with
  | none =>
      rw [World.runTask_pure]
      exact ⟨fun h => (Except.ok.inj (congrArg Prod.fst h)).symm, fun h => h ▸ rfl⟩
  | some id =>
      simp only [(Presets.observes_load _ _).bind_eq_ok, (Task.Observes.ofExcept _).bind_eq_ok,
        runTask_ofExcept, World.runTask_pure, Prod.mk.injEq, and_true, Except.ok.injEq,
        Presets.get_eq_ok_iff]
      constructor
      · rintro ⟨presets, hload, p, hp, hdata⟩
        exact ⟨presets, p, hload, hp, hdata⟩
      · rintro ⟨presets, p, hload, hp, hdata⟩
        exact ⟨presets, hload, p, hp, hdata⟩

/-! ### Layers -/

/-- What a record with the names of a message over it gives. -/
theorem MessageOptions.get?_withNames (o : MessageOptions) (r : Record) (key : String) :
    (o.withNames r).get? key = (o.named? key).or (r.get? key) := by
  have hdistinct : Field.contactPerson.name ≠ Field.kolName.name := by decide
  have hset : ∀ (name : Option String) (r : Record) (f : Field),
      (name.elim r (r.set f.name)).get? key =
        (if key = f.name then name else none).or (r.get? key) := by
    intro name r f
    cases name with
    | none => simp
    | some value =>
        rw [Option.elim_some, Record.get?_set]
        split <;> rfl
  rw [withNames, hset, hset, named?, ← Option.or_assoc]
  congr 1
  by_cases hcontact : key = Field.contactPerson.name
  · rw [if_pos hcontact, if_pos hcontact, if_neg (hcontact ▸ hdistinct), Option.none_or]
  · rw [if_neg hcontact, if_neg hcontact, Option.or_none]

/-- The record of a message is put together of what its sources hold. -/
theorem MessageOptions.runTask_fields_eq_ok_iff :
    w.runTask (o.fields d date) = (.ok fields, w) ↔
      ∃ preset given, o.StartsFrom d date w preset ∧ w.runTask o.source.read = (.ok given, w) ∧
        o.withNames (((Terms.initial date).toRecord.merge preset).merge given) = fields := by
  rw [MessageOptions.fields]
  simp only [(o.observes_presetData d date).bind_eq_ok, o.source.observes_read.bind_eq_ok,
    runTask_presetData_eq_ok_iff, World.runTask_pure, Prod.mk.injEq, and_true, Except.ok.injEq]
  constructor
  · rintro ⟨preset, hpreset, given, hread, heq⟩
    exact ⟨preset, given, hpreset, hread, heq⟩
  · rintro ⟨preset, given, hpreset, hread, heq⟩
    exact ⟨preset, hpreset, given, hread, heq⟩

/-- The record of a message is **layered**: for each key it gives the first text there is of the name
that is given, the last assignment, the record file, the preset and the initial terms. -/
def MessageOptions.IsLayered (o : MessageOptions) (date : Date) (preset file fields : Record) :
    Prop :=
  ∀ key, ∃ assigned : Option String,
    (∀ value, assigned = some value ↔ LastAssigns o.source.assignments key value) ∧
    fields.get? key = (o.named? key).or (assigned.or ((file.get? key).or
      ((preset.get? key).or ((Terms.initial date).toRecord.get? key))))

/-- **The record of a message is layered.** -/
theorem MessageOptions.isLayered_of_fields (h : w.runTask (o.fields d date) = (.ok fields, w)) :
    ∃ preset file, o.StartsFrom d date w preset ∧ o.source.Holds w file ∧
      o.IsLayered date preset file fields := by
  obtain ⟨preset, given, hpreset, hread, rfl⟩ := runTask_fields_eq_ok_iff.mp h
  obtain ⟨file, hfile, hgiven⟩ := RecordSource.runTask_read_eq_ok_iff.mp hread
  refine ⟨preset, file, hpreset, hfile, fun key => ?_⟩
  obtain ⟨assigned, hassigned, hget⟩ := Record.exists_assigned_of_assignAll hgiven key
  refine ⟨assigned, hassigned, ?_⟩
  rw [get?_withNames, Record.get?_merge, Record.get?_merge, hget, Option.or_assoc]

/-! ### Completeness -/

/-- A record is **complete** if the two names are not blank and the choice for the hand controller is
one of its words, blanks at the ends aside. -/
structure Record.IsComplete (r : Record) : Prop where
  contactPerson : ∃ name, r.get? Field.contactPerson.name = some name ∧ Text.trim name ≠ ""
  kolName : ∃ name, r.get? Field.kolName.name = some name ∧ Text.trim name ≠ ""
  sendHandle : ∃ word, r.get? Field.sendHandle.name = some word ∧
    (Text.trim word = "是" ∨ Text.trim word = "否")

/-- A field that is filled in is in the record, if it would be blank without. -/
theorem Record.exists_get?_of_isBlankText {r : Record} {f : Field}
    (h : Text.isBlankText ((r.get? f.name).getD "") = false) :
    ∃ value, r.get? f.name = some value ∧ Text.trim value ≠ "" := by
  cases hvalue : r.get? f.name with
  | none =>
      rw [hvalue] at h
      exact absurd h (by decide)
  | some value =>
      rw [hvalue, Option.getD_some, Text.isBlankText, String.isEmpty_eq_false_iff] at h
      exact ⟨value, rfl, h⟩

/-- **What is checked before a message is written**: that its record is complete. -/
theorem Record.isComplete_of_check {r : Record} {t : Terms}
    (hhandle : ∃ word, r.get? Field.sendHandle.name = some word)
    (hread : Terms.ofRecord r (Terms.initial date) = .ok t) (hcheck : t.checkRequired = .ok ()) :
    r.IsComplete := by
  obtain ⟨hfields, hchoice⟩ := Terms.ofRecord_eq_ok hread
  obtain ⟨hcontact, hkol⟩ := Terms.checkRequired_eq_ok_iff.mp hcheck
  have hcontact' : t.contactPerson = (r.get? Field.contactPerson.name).getD "" :=
    hfields .contactPerson (by decide)
  have hkol' : t.kolName = (r.get? Field.kolName.name).getD "" := hfields .kolName (by decide)
  rw [hcontact'] at hcontact
  rw [hkol'] at hkol
  obtain ⟨word, hword⟩ := hhandle
  refine ⟨exists_get?_of_isBlankText hcontact, exists_get?_of_isBlankText hkol, word, hword, ?_⟩
  have htrim := SendHandle.ofText?_eq_some_iff.mp (hchoice word hword)
  cases hc : t.sendHandle with
  | yes => exact .inl (htrim.trans (congrArg SendHandle.text hc))
  | no => exact .inr (htrim.trans (congrArg SendHandle.text hc))

/-- A layered record has all fields of a deal: the initial terms have them. -/
theorem MessageOptions.IsLayered.exists_get? (h : o.IsLayered date preset file fields) (f : Field) :
    ∃ value, fields.get? f.name = some value := by
  obtain ⟨assigned, -, hget⟩ := h f.name
  rw [Terms.get?_toRecord] at hget
  rw [← Option.isSome_iff_exists, hget]
  simp

/-! ### Messages -/

/-- Without polishing, all that a message is made of is looked up. -/
theorem MessageOptions.observes_completeFields (hpolish : o.polish = false)
    (s : Polish.Settings) : (o.completeFields d s).Observes := by
  rw [completeFields]
  refine .bind observes_today fun date => .bind (o.observes_fields d date) fun fields =>
    .bind (.ofExcept _) fun terms => .bind (.ofExcept _) fun _ => ?_
  simp only [hpolish, Bool.false_eq_true, if_false]
  exact .pure _

/-- The record of a message is checked once its layers are put together; with polishing, the fan offer
is replaced then. -/
theorem MessageOptions.runTask_completeFields_eq_ok_iff {s : Polish.Settings} :
    w.runTask (o.completeFields d s) = (.ok fields, v) ↔
      ∃ plain terms, w.runTask (o.fields d w.date) = (.ok plain, w) ∧
        Terms.ofRecord plain (Terms.initial w.date) = .ok terms ∧
        terms.checkRequired = .ok () ∧
        w.runTask (if o.polish then do
            return plain.set Field.fanOffer.name (← Polish.polish s terms.fanOffer)
          else return plain) = (.ok fields, v) := by
  have htoday : w.runTask today = (.ok w.date, w) := rfl
  rw [completeFields, World.runTask_bind, htoday]
  simp only [(o.observes_fields d _).bind_eq_ok, (Task.Observes.ofExcept _).bind_eq_ok,
    runTask_ofExcept, Prod.mk.injEq, and_true]
  constructor
  · rintro ⟨plain, hplain, terms, hterms, ⟨⟩, hcheck, h⟩
    exact ⟨plain, terms, hplain, hterms, hcheck, h⟩
  · rintro ⟨plain, terms, hplain, hterms, hcheck, h⟩
    exact ⟨plain, hplain, terms, hterms, ⟨⟩, hcheck, h⟩

/-- Without polishing, the record of a message is that of its layers, and it is complete. -/
theorem MessageOptions.isLayered_of_completeFields (hpolish : o.polish = false)
    {s : Polish.Settings} (h : w.runTask (o.completeFields d s) = (.ok fields, w)) :
    ∃ preset file, o.StartsFrom d w.date w preset ∧ o.source.Holds w file ∧
      o.IsLayered w.date preset file fields ∧ fields.IsComplete := by
  obtain ⟨plain, terms, hfields, hterms, hcheck, h⟩ := runTask_completeFields_eq_ok_iff.mp h
  simp only [hpolish, Bool.false_eq_true, if_false, World.runTask_pure, Prod.mk.injEq, and_true,
    Except.ok.injEq] at h
  subst h
  obtain ⟨preset, file, hpreset, hfile, hlayered⟩ := isLayered_of_fields hfields
  have hhandle := hlayered.exists_get? .sendHandle
  exact ⟨preset, file, hpreset, hfile, hlayered,
    Record.isComplete_of_check hhandle hterms hcheck⟩

/-- **What a message is made of.** Without polishing, a message that is written shows a record that is
layered over what its sources hold, and complete. It is rendered with the template that is chosen
and the settings. -/
theorem MessageOptions.message_isLayered (hpolish : o.polish = false) {text : String}
    (h : w.runTask (o.message d) = (.ok text, v)) :
    ∃ settings templates template fields preset file,
      w.runTask (Settings.loadOrDefault d.settingsPath) = (.ok settings, w) ∧
      w.runTask (Templates.load d.templatesPath) = (.ok templates, w) ∧
      templates.choose o.template = .ok template ∧
      w.runTask (o.completeFields d settings.polish) = (.ok fields, w) ∧
      text = Message.render settings.display template.content fields ∧
      o.StartsFrom d w.date w preset ∧ o.source.Holds w file ∧
      o.IsLayered w.date preset file fields ∧ fields.IsComplete := by
  obtain ⟨settings, hsettings, h⟩ := (Settings.observes_loadOrDefault _).bind_eq_ok.mp h
  obtain ⟨fields, hfields, h⟩ := (observes_completeFields hpolish _).bind_eq_ok.mp h
  obtain ⟨templates, htemplates, h⟩ := (Templates.observes_load _).bind_eq_ok.mp h
  obtain ⟨template, htemplate, h⟩ := (Task.Observes.ofExcept _).bind_eq_ok.mp h
  rw [runTask_ofExcept, Prod.mk.injEq] at htemplate
  rw [World.runTask_pure, Prod.mk.injEq] at h
  obtain ⟨preset, file, hpreset, hfile, hlayered, hcomplete⟩ :=
    isLayered_of_completeFields hpolish hfields
  have htext := Except.ok.inj h.1
  exact ⟨settings, templates, template, fields, preset, file, hsettings, htemplates,
    htemplate.1, hfields, htext.symm, hpreset, hfile, hlayered, hcomplete⟩

/-- A preset that is built in, a record file, two assignments to one field, the later of which has a
value with an equals sign, and one of the two names. The other is assigned. -/
theorem MessageOptions.message_isLayered_all :
    let w := ((default : World).runTask (writeTextAtomically "r.yaml" "endDate: r\nremark: r\n")).2
    let d : DataDirectory := ⟨"d"⟩
    let o : MessageOptions :=
      { preset := some "B", template := none, contact := some "C", kol := none, polish := false,
        source := ⟨some "r.yaml", ["endDate=s", "kolName= K", " endDate = =t "]⟩ }
    ∃ text v, o.polish = false ∧ w.runTask (o.message d) = (.ok text, v) ∧
      ∃ settings templates template fields preset file,
        w.runTask (Settings.loadOrDefault d.settingsPath) = (.ok settings, w) ∧
        w.runTask (Templates.load d.templatesPath) = (.ok templates, w) ∧
        templates.choose o.template = .ok template ∧
        w.runTask (o.completeFields d settings.polish) = (.ok fields, w) ∧
        text = Message.render settings.display template.content fields ∧
        o.StartsFrom d w.date w preset ∧ o.source.Holds w file ∧
        o.IsLayered w.date preset file fields ∧ fields.IsComplete := by
  intro w d o
  have hdone : (w.runTask (o.message d)).1.isOk = true := by decide +kernel
  rcases h : w.runTask (o.message d) with ⟨f | text, v⟩
  · rw [h] at hdone
    exact absurd hdone (by simp [Except.isOk, Except.toBool])
  · exact ⟨text, v, rfl, rfl, message_isLayered rfl h⟩

end Outreach
