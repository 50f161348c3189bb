import Outreach.Proofs.Commands.TemplateProcesses
import Outreach.Proofs.Template.Runs

/-!
# Commands Without an Id

Without an id, commands act on the active template. Some use it as they find it, and one goes by its
id, with a search of its own. The list may have been edited by hand, so ids may occur twice and the
active id may be stale; still all of them end at one place of the list.

## Main results

* `Templates.ActiveAt.splitsAt`: **the id of the active template leads back to its place.**
* `Templates.ActiveAt.changeContent`: with another content, the place is still the active one.
* `MessageOptions.runTask_message`: a message is rendered with the template that is chosen.
* `exists_actsOn`: **commands without an id act on the same template.**
-/

namespace Outreach

/-! ### The active place -/

namespace Templates

/-- The **active place** of a collection, with the templates before and behind it: there stands the
first template with the active id, or if none has that id, the first of all. -/
def ActiveAt (s : Templates) (before : List Template) (t : Template) (after : List Template) :
    Prop :=
  s.list = before ++ t :: after ∧
    ((t.id = s.activeId ∧ ∀ u ∈ before, u.id ≠ s.activeId) ∨ (s.activeId ∉ s.ids ∧ before = []))

/-- The collection with another content at a place. Ids, names and the order stay, and so does the
active id. -/
def withContentAt (s : Templates) (before : List Template) (t : Template) (after : List Template)
    (content : String) : Templates :=
  { s with list := before ++ { t with content } :: after }

variable {s : Templates} {before after : List Template} {t : Template}

/-- A collection that is not empty has an active place. -/
theorem exists_activeAt (h : s.list ≠ []) : ∃ before t after, s.ActiveAt before t after := by
  by_cases hactive : s.activeId ∈ s.ids
  · obtain ⟨t, ht⟩ := exists_find?_iff.mpr hactive
    obtain ⟨before, after, hlist, hid, hbefore⟩ := find?_eq_some_iff.mp ht
    exact ⟨before, t, after, hlist, .inl ⟨hid, hbefore⟩⟩
  · obtain ⟨t, after, hlist⟩ := List.exists_cons_of_ne_nil h
    exact ⟨[], t, after, hlist, .inr ⟨hactive, rfl⟩⟩

namespace ActiveAt

/-- The active template is the one at the active place. -/
theorem active?_eq (h : s.ActiveAt before t after) : s.active? = some t := by
  obtain ⟨hlist, ⟨hid, hbefore⟩ | ⟨hstale, rfl⟩⟩ := h
  · rw [active?, find?_eq_some_iff.mpr ⟨before, after, hlist, hid, hbefore⟩, Option.some_or]
  · rw [active?, find?_eq_none_iff.mpr hstale, Option.none_or, hlist]
    rfl

/-- If no template is named, the active one is chosen. -/
theorem choose_none (h : s.ActiveAt before t after) : s.choose none = .ok t := by
  rw [choose, h.active?_eq]

/-- **The id of the active template leads back to its place**: no template before it has its id,
whether or not that is the active id. -/
theorem splitsAt (h : s.ActiveAt before t after) : SplitsAt s.list t.id before t after := by
  obtain ⟨hlist, ⟨hid, hbefore⟩ | ⟨-, rfl⟩⟩ := h
  · exact ⟨hlist, rfl, hid.symm ▸ hbefore⟩
  · exact ⟨hlist, rfl, fun u hu => absurd hu List.not_mem_nil⟩

/-- Changing the content by the id of the active template changes it at the active place. -/
theorem update_eq (h : s.ActiveAt before t after) (content : String) :
    s.update t.id content = (.ok (), s.withContentAt before t after content) := by
  obtain ⟨hlist, -, hbefore⟩ := h.splitsAt
  rw [Templates.update_eq, find?_eq_some_iff.mpr ⟨before, after, h.splitsAt⟩, withContentAt]
  dsimp only
  rw [hlist, replaceContent_of_splitsAt rfl hbefore]

/-- With another content, the place is still the active one. -/
theorem changeContent (h : s.ActiveAt before t after) (content : String) :
    (s.withContentAt before t after content).ActiveAt before { t with content } after := by
  refine ⟨rfl, h.2.imp_right fun ⟨hstale, hbefore⟩ => ⟨?_, hbefore⟩⟩
  have hids : (s.withContentAt before t after content).ids = s.ids := by
    simp [ids, withContentAt, h.1]
  rwa [hids]

end ActiveAt

end Templates

/-! ### Commands -/

/-- The message of a deal **with a template** that is given. -/
def MessageOptions.messageWith (o : MessageOptions) (d : DataDirectory) (t : Template) :
    Task String := do
  let settings ← Settings.loadOrDefault d.settingsPath
  let fields ← o.completeFields d settings.polish
  return Message.render settings.display t.content fields

section Commands

variable {w v : World} {d : DataDirectory} {s : Templates} {before after : List Template}
  {t : Template}

/-- Files are read as before once the record of a message is complete: polishing changes none. -/
theorem MessageOptions.textAt_of_completeFields {o : MessageOptions} {p : Polish.Settings}
    {x : Except Failure Record} (h : w.runTask (o.completeFields d p) = (x, v)) (path : String) :
    v.textAt path = w.textAt path := by
  have hfiles : v.files = w.files :=
    (congrArg (World.files ∘ Prod.snd) h).symm.trans (o.keepsFiles_completeFields d p w)
  have hhere : v.workingDirectory = w.workingDirectory :=
    (congrArg (World.workingDirectory ∘ Prod.snd) h).symm.trans (w.workingDirectory_run _)
  rw [World.textAt, World.textAt, hfiles, hhere]

/-- So are templates. -/
theorem MessageOptions.load_of_completeFields {o : MessageOptions} {p : Polish.Settings}
    {x : Except Failure Record} (h : w.runTask (o.completeFields d p) = (x, v)) :
    v.runTask d.loadTemplates = ((w.runTask d.loadTemplates).1, v) :=
  Prod.ext (Templates.load_congr (textAt_of_completeFields h _)) (Templates.observes_load _ v)

/-- **A message is rendered with the template that is chosen.** -/
theorem MessageOptions.runTask_message {o : MessageOptions}
    (hload : (w.runTask d.loadTemplates).1 = .ok s) (hchoose : s.choose o.template = .ok t) :
    w.runTask (o.message d) = w.runTask (o.messageWith d t) := by
  rw [message, messageWith, World.runTask_bind, World.runTask_bind,
    (Settings.observes_loadOrDefault _).runTask_eq w]
  rcases (w.runTask (Settings.loadOrDefault d.settingsPath)).1 with e | settings
  · rfl
  · dsimp only
    rw [World.runTask_bind, World.runTask_bind]
    rcases hfields : w.runTask (o.completeFields d settings.polish) with ⟨e | fields, v⟩
    · rfl
    · have hloaded : v.runTask (Templates.load d.templatesPath) = (.ok s, v) :=
        (load_of_completeFields hfields).trans (congrArg (·, v) hload)
      dsimp only
      rw [World.runTask_bind, hloaded]
      dsimp only
      rw [World.runTask_bind, runTask_ofExcept, hchoose]

/-- What has been stored is loaded. -/
theorem Task.Stores.loadTemplates_of_eq_ok {t : Task String} {text : String}
    {x : Except Failure Templates} (h : Task.Stores d w x t) (hrun : w.runTask t = (.ok text, v)) :
    ∃ s', x = .ok s' ∧ v.runTask d.loadTemplates = (.ok s', v) := by
  cases h with
  | failed hfailed => exact absurd (hrun.symm.trans hfailed) (by simp)
  | @saved s' _ text' hsaved =>
      obtain ⟨⟨⟩, u, hsave, hdone⟩ := World.runTask_bind_eq_ok.mp (hsaved.symm.trans hrun)
      obtain ⟨-, rfl⟩ := Prod.mk.inj hdone
      exact ⟨s', rfl, Templates.load_of_save hsave⟩

end Commands

/-- Commands without an id **act on** the template at a place. -/
structure ActsOn (w : World) (d : DataDirectory) (s : Templates) (before : List Template)
    (t : Template) (after : List Template) : Prop where
  list_eq : s.list = before ++ t :: after
  /-- It is printed. -/
  shown : w.runTask ((Command.templateShow none).runIn d) = (.ok (unlines [t.content]), w)
  /-- Messages are rendered with it. -/
  rendered (o : MessageOptions) (ho : o.template = none) :
    w.runTask ((Command.generate o).runIn d) = w.runTask (do return unlines [← o.messageWith d t])
  /-- A template that is added without a file has its content. -/
  copied (name : String) :
    Task.Stores d w ((s.add w.clock name t.content).kept)
      ((Command.templateAdd name none).runIn d)
  /-- It gets the built-in content, and nothing else changes. -/
  reset :
    Task.Stores d w (.ok (s.withContentAt before t after Message.builtInTemplate))
      ((Command.templateReset none).runIn d)

/-- Commands without an id act on the template at the active place. -/
theorem Templates.ActiveAt.actsOn {w : World} {d : DataDirectory} {s : Templates}
    {before after : List Template} {t : Template} (hload : (w.runTask d.loadTemplates).1 = .ok s)
    (h : s.ActiveAt before t after) : ActsOn w d s before t after := by
  have hload' : w.runTask d.loadTemplates = (.ok s, w) :=
    Prod.ext hload (Templates.observes_load _ w)
  constructor
  case list_eq => exact h.1
  case shown =>
    change w.runTask (runTemplateShow d none) = _
    rw [runTemplateShow, World.runTask_bind, hload']
    dsimp only
    rw [World.runTask_bind, runTask_ofExcept, h.choose_none]
    rfl
  case rendered =>
    intro o ho
    change w.runTask (runGenerate d o) = _
    rw [runGenerate, World.runTask_bind, World.runTask_bind,
      MessageOptions.runTask_message hload (ho ▸ h.choose_none)]
  case copied =>
    intro name
    have hstores := TemplateOrder.stores_command (o := .add name none) hload' rfl
    have hobey : s.obey w.textAt w.clock (.add name none) =
        (s.add w.clock name t.content).kept := by
      simp only [obey, contentFor, h.active?_eq, Option.map_some, Option.getD_some, bind,
        Except.bind]
    rwa [hobey] at hstores
  case reset =>
    have hstores := TemplateOrder.stores_command (o := .reset none) hload' rfl
    have hobey : s.obey w.textAt w.clock (.reset none) =
        .ok (s.withContentAt before t after Message.builtInTemplate) := by
      rw [obey, h.choose_none]
      exact Outcome.kept_eq_ok_iff.mpr ⟨(), h.update_eq Message.builtInTemplate⟩
    rwa [hobey] at hstores

/-- **Commands without an id act on the same template.** As long as there are templates, there is a
place in their list that all of these commands act on, whatever the ids are: the template there is
printed, it is the one that messages are rendered with, a template that is added without a file gets
its content, and resetting changes its content. Once a template has been added, it stands behind the
others. After resetting, the content at the place is the built-in one, which is printed from then
on; the active id and all else in the list are as before. -/
theorem exists_actsOn (w : World) (d : DataDirectory) (s : Templates)
    (hload : (w.runTask d.loadTemplates).1 = .ok s) (hne : s.list ≠ []) :
    ∃ before t after, ActsOn w d s before t after ∧
      (∀ name text v, w.runTask ((Command.templateAdd name none).runIn d) = (.ok text, v) →
        ∃ new : Template, new.content = t.content ∧
          v.runTask d.loadTemplates = (.ok ⟨new.id, s.list ++ [new]⟩, v)) ∧
      ∀ text v, w.runTask ((Command.templateReset none).runIn d) = (.ok text, v) →
        v.runTask d.loadTemplates =
          (.ok ⟨s.activeId, before ++ { t with content := Message.builtInTemplate } :: after⟩, v) ∧
        v.runTask ((Command.templateShow none).runIn d) =
          (.ok (unlines [Message.builtInTemplate]), v) := by
  obtain ⟨before, t, after, hactive⟩ := Templates.exists_activeAt hne
  have hacts := hactive.actsOn hload
  refine ⟨before, t, after, hacts, fun name text v hrun => ?_, fun text v hrun => ?_⟩
  · obtain ⟨s', hkept, hloaded⟩ := (hacts.copied name).loadTemplates_of_eq_ok hrun
    obtain ⟨new, hadd⟩ := Outcome.kept_eq_ok_iff.mp hkept
    obtain ⟨-, hcontent, -, rfl⟩ := Templates.add_eq_ok hadd
    exact ⟨new, hcontent, hloaded⟩
  · obtain ⟨s', hreset, hloaded⟩ := hacts.reset.loadTemplates_of_eq_ok hrun
    obtain rfl := Except.ok.inj hreset
    refine ⟨hloaded, ?_⟩
    exact ((hactive.changeContent _).actsOn (congrArg Prod.fst hloaded)).shown

/-- Templates edited by hand, with a stale active id and an id that occurs twice. Both commands that
store something succeed. -/
theorem exists_actsOn_stale :
    let w := ((default : World).runTask (writeTextAtomically "x/templates.json"
      ("\x7b\"active_id\":\"gone\",\"templates\":[" ++
        "\x7b\"id\":\"1\",\"name\":\"a\",\"template\":\"A\"\x7d," ++
        "\x7b\"id\":\"1\",\"name\":\"b\",\"template\":\"B\"\x7d]\x7d"))).2
    let d : DataDirectory := ⟨"x"⟩
    let s : Templates := ⟨"gone", [⟨"1", "a", "A"⟩, ⟨"1", "b", "B"⟩]⟩
    (w.runTask d.loadTemplates).1 = .ok s ∧ s.list ≠ [] ∧
      (w.runTask ((Command.templateAdd "c" none).runIn d)).1.isOk = true ∧
      (w.runTask ((Command.templateReset none).runIn d)).1.isOk = true ∧
      ∃ before t after, ActsOn w d s before t after ∧
        (∀ name text v, w.runTask ((Command.templateAdd name none).runIn d) = (.ok text, v) →
          ∃ new : Template, new.content = t.content ∧
            v.runTask d.loadTemplates = (.ok ⟨new.id, s.list ++ [new]⟩, v)) ∧
        ∀ text v, w.runTask ((Command.templateReset none).runIn d) = (.ok text, v) →
          v.runTask d.loadTemplates =
            (.ok ⟨s.activeId, before ++ { t with content := Message.builtInTemplate } :: after⟩,
              v) ∧
          v.runTask ((Command.templateShow none).runIn d) =
            (.ok (unlines [Message.builtInTemplate]), v) := by
  intro w d s
  have hload : (w.runTask d.loadTemplates).1 = .ok s :=
    eq_ok_of_toOption_eq (by decide +kernel)
  have hne : s.list ≠ [] := by decide
  have hadd : (w.runTask ((Command.templateAdd "c" none).runIn d)).1.isOk = true := by
    decide +kernel
  have hreset : (w.runTask ((Command.templateReset none).runIn d)).1.isOk = true := by
    decide +kernel
  exact ⟨hload, hne, hadd, hreset, exists_actsOn w d s hload hne⟩

end Outreach
