import Outreach.Proofs.Commands.ActiveTemplate
import Outreach.Proofs.Commands.FailedSaves
import Outreach.Proofs.Template.Runs
import Outreach.Proofs.Text.Trimming

/-!
# Filled Templates

A template is added only with a name and a content, and resetting one gives it the built-in content.
Only a command that gives a template the content of a file does not look at it: from an empty file
it makes an empty template. From then on templates can no longer be added without a file, and
messages are empty.

A history of template commands starts from the built-in templates. Between the commands anything may
happen that leaves the templates as they are, and a command may fail to save what it has made.

## Main results

* `Templates.Change.comesFrom`: where the templates after an operation come from.
* `Templates.isFilled_obey_iff`: an order keeps all templates filled, unless it empties one.
* `TemplateRun.Continues.loads_cases`: what is loaded after a command has been run.
* `TemplateHistory.kept`: what is loaded at the end of a history.
* `TemplateHistory.isFilled_throughout_iff`: **templates stay filled exactly if no command empties
  one.**
-/

namespace Outreach

/-! ### Operations -/

namespace Templates

/-- Templates that are **named**: no name is blank, and no blank stands at the ends of one. -/
def IsNamed (s : Templates) : Prop :=
  ∀ t ∈ s.list, t.name ≠ "" ∧ Text.trim t.name = t.name

/-- Templates that are **filled**: no content is empty, so that whichever is chosen gives a
message. -/
def IsFilled (s : Templates) : Prop :=
  ∀ t ∈ s.list, t.content ≠ ""

/-- The built-in templates all have names. -/
theorem isNamed_builtIn : builtIn.IsNamed := by
  intro t ht
  rw [List.mem_singleton.mp ht]
  decide

/-- The built-in templates all have content. -/
theorem isFilled_builtIn : builtIn.IsFilled := by
  intro t ht
  rw [List.mem_singleton.mp ht]
  decide

/-- Where a template **comes from** that is there after an operation. -/
inductive ComesFrom (s : Templates) : Operation → Template → Prop
  | kept {op : Operation} {t : Template} (ht : t ∈ s.list) : ComesFrom s op t
  | added {clock : Nat} {name content : String} {t : Template} (named : t.name = Text.trim name)
      (filled : t.content = content) : ComesFrom s (.add clock name content) t
  | updated {id content : String} {t : Template} (ht : t ∈ s.list) :
      ComesFrom s (.update id content) { t with content }
  | reset {id : String} {t : Template} (ht : t ∈ s.list) :
      ComesFrom s (.reset id) { t with content := Message.builtInTemplate }

variable {s s' : Templates} {op : Operation} {t : Template}

/-- With one template replaced, each one is an old one, or the new one in place of an old one. -/
theorem mem_of_splitsAt {id : String} {before after : List Template} {u v : Template}
    (h : SplitsAt s.list id before u after) (ht : t ∈ before ++ v :: after) :
    t ∈ s.list ∨ t = v ∧ u ∈ s.list := by
  rw [h.1]
  rcases List.mem_append.mp ht with ht | ht
  · exact .inl (List.mem_append_left _ ht)
  · rcases List.mem_cons.mp ht with rfl | ht
    · exact .inr ⟨rfl, List.mem_append_right _ List.mem_cons_self⟩
    · exact .inl (List.mem_append_right _ (List.mem_cons_of_mem u ht))

/-- **Each template is an old one**, or the one that has been added, or an old one with another
content. -/
theorem Change.comesFrom (h : Change s op s') (ht : t ∈ s'.list) : ComesFrom s op t := by
  cases h with
  | add hname hcontent =>
      rcases List.mem_append.mp ht with ht | ht
      · exact .kept ht
      · rw [List.mem_singleton.mp ht]
        exact .added hname hcontent
  | select => exact .kept ht
  | update hsplit =>
      rcases mem_of_splitsAt hsplit ht with ht | ⟨rfl, hu⟩
      · exact .kept ht
      · exact .updated hu
  | reset hsplit =>
      rcases mem_of_splitsAt hsplit ht with ht | ⟨rfl, hu⟩
      · exact .kept ht
      · exact .reset hu
  | delete hsplit =>
      refine .kept ?_
      rw [hsplit.1]
      exact (List.sublist_cons_self _ _).append_left _ |>.subset ht
  | reload => exact .kept ht

/-- Names stay, and new ones are trimmed and not blank. -/
theorem IsNamed.of_attempt (hs : s.IsNamed) (h : s.attempt op = (.ok (), s')) : s'.IsNamed := by
  have hallowed : s.Allows op := exists_attempt_eq_ok_iff.mp ⟨s', h⟩
  intro t ht
  cases (change_of_attempt h).comesFrom ht with
  | kept ht => exact hs t ht
  | added hname => exact hname ▸ ⟨hallowed.1, Text.trim_trim _⟩
  | @updated id content u hu => exact hs u hu
  | @reset id u hu => exact hs u hu

/-- Templates stay filled, unless one is given the empty content. -/
theorem IsFilled.of_attempt (hs : s.IsFilled) (h : s.attempt op = (.ok (), s'))
    (hop : ∀ id, op ≠ .update id "") : s'.IsFilled := by
  have hallowed : s.Allows op := exists_attempt_eq_ok_iff.mp ⟨s', h⟩
  intro t ht
  cases (change_of_attempt h).comesFrom ht with
  | kept ht => exact hs t ht
  | added _ hcontent => exact hcontent ▸ hallowed.2
  | @updated id content u hu =>
      rintro rfl
      exact hop id rfl
  | reset => exact isFilled_builtIn Template.builtIn List.mem_cons_self

/-- A template that is given the empty content is empty. -/
theorem not_isFilled_of_attempt {id : String} (h : s.attempt (.update id "") = (.ok (), s')) :
    ¬ s'.IsFilled := by
  cases change_of_attempt h with
  | update hsplit => exact fun hs => hs _ (List.mem_append_right _ List.mem_cons_self) rfl

end Templates

/-! ### Orders -/

/-- An order to **empty** a template: to give it the content of a file that is empty. -/
def TemplateOrder.Empties (o : TemplateOrder) (inputs : String → Except FileError String) : Prop :=
  ∃ id file, o = .update id file ∧ inputs file = .ok ""

/-- What succeeds after a step goes on from what the step gives. -/
theorem exists_of_bind_eq_ok {α β : Type} {x : Except Failure α} {f : α → Except Failure β} {b : β}
    (h : (x >>= f) = .ok b) : ∃ a, x = .ok a ∧ f a = .ok b := by
  cases x with
  | error e => exact absurd h (by simp [bind, Except.bind])
  | ok a => exact ⟨a, rfl, h⟩

namespace Templates

variable {s s' : Templates} {inputs : String → Except FileError String} {clock : Nat}
  {o : TemplateOrder}

/-- **An order that changes templates is an operation**, which gives a template the content of a
file exactly if the order says so. -/
theorem exists_attempt_of_obey (h : s.obey inputs clock o = .ok s') (ho : o.isReading = false) :
    ∃ op, s.attempt op = (.ok (), s') ∧
      ∀ content, (∃ id, op = .update id content) ↔
        ∃ id file, o = .update id file ∧ inputs file = .ok content := by
  cases o with
  | list => exact absurd ho (by simp [TemplateOrder.isReading])
  | view id => exact absurd ho (by simp [TemplateOrder.isReading])
  | add name file =>
      obtain ⟨content, -, h⟩ := exists_of_bind_eq_ok h
      have hadd := Outcome.kept_eq_ok_iff.mp h
      exact ⟨.add clock name content, Outcome.withoutValue_eq_ok_iff.mpr hadd, by simp⟩
  | update id file =>
      obtain ⟨content, hcontent, h⟩ := exists_of_bind_eq_ok h
      obtain ⟨⟨⟩, hupdate⟩ := Outcome.kept_eq_ok_iff.mp h
      rw [contentFor] at hcontent
      refine ⟨.update id content, hupdate, fun content' => ?_⟩
      rcases hinput : inputs file with e | text
      · rw [hinput] at hcontent
        exact absurd hcontent (by simp [Except.mapError])
      · rw [hinput] at hcontent
        obtain rfl : text = content := Except.ok.inj hcontent
        simp [hinput]
  | delete id =>
      have hdelete := Outcome.kept_eq_ok_iff.mp h
      exact ⟨.delete id, Outcome.withoutValue_eq_ok_iff.mpr hdelete, by simp⟩
  | select id =>
      obtain ⟨⟨⟩, hselect⟩ := Outcome.kept_eq_ok_iff.mp h
      exact ⟨.select id, hselect, by simp⟩
  | reset id =>
      obtain ⟨t, -, h⟩ := exists_of_bind_eq_ok h
      obtain ⟨⟨⟩, hreset⟩ := Outcome.kept_eq_ok_iff.mp h
      exact ⟨.reset t.id, hreset, by simp⟩

/-- Every order keeps templates well-formed and named. -/
theorem isWellFormed_and_isNamed_obey (hs : s.IsWellFormed ∧ s.IsNamed)
    (h : s.obey inputs clock o = .ok s') : s'.IsWellFormed ∧ s'.IsNamed := by
  cases ho : o.isReading with
  | true =>
      obtain rfl := TemplateOrder.obey_of_isReading ho h
      exact hs
  | false =>
      obtain ⟨op, hop, -⟩ := exists_attempt_of_obey h ho
      exact ⟨(change_of_attempt hop).isWellFormed hs.1, hs.2.of_attempt hop⟩

/-- **An order keeps all templates filled exactly if it does not empty one.** -/
theorem isFilled_obey_iff (hs : s.IsFilled) (h : s.obey inputs clock o = .ok s') :
    s'.IsFilled ↔ ¬ o.Empties inputs := by
  cases ho : o.isReading with
  | true =>
      obtain rfl := TemplateOrder.obey_of_isReading ho h
      refine ⟨fun _ => ?_, fun _ => hs⟩
      rintro ⟨id, file, rfl, -⟩
      exact absurd ho (by simp [TemplateOrder.isReading])
  | false =>
      obtain ⟨op, hop, hempties⟩ := exists_attempt_of_obey h ho
      rw [TemplateOrder.Empties, ← hempties ""]
      refine ⟨?_, fun hnot => hs.of_attempt hop fun id he => hnot ⟨id, he⟩⟩
      rintro hs' ⟨id, rfl⟩
      exact not_isFilled_of_attempt hop hs'

end Templates

/-- A command fails and changes nothing if the templates cannot be loaded. -/
theorem TemplateOrder.exists_failed {w : World} {d : DataDirectory} {f : Failure}
    (o : TemplateOrder) (hload : (w.runTask d.loadTemplates).1 = .error f) :
    ∃ f', w.runTask (o.command.runIn d) = (.error f', w) := by
  have hrun : w.runTask d.loadTemplates = (.error f, w) :=
    Prod.ext hload (Templates.observes_load _ w)
  cases ho : o.isReading with
  | true =>
      refine ⟨f, ?_⟩
      cases o with
      | list => simp only [command, Command.runIn, runTemplateList, World.runTask_bind, hrun]
      | view id => simp only [command, Command.runIn, runTemplateShow, World.runTask_bind, hrun]
      | _ => exact absurd ho (by simp [isReading])
  | false =>
      have hchanges : o.command.changes? = some .templates := by
        cases o <;> first | rfl | exact absurd ho (by simp [isReading])
      refine (Command.storesTo_runIn hchanges d w).resolve_right ?_
      rintro ⟨hcheck, -⟩
      rw [Store.check, World.runTask_bind, hrun] at hcheck
      exact absurd hcheck (by simp)

/-! ### Runs -/

/-- A **run** of a template command as a process, in a world and with a data directory that may be
named. -/
structure TemplateRun where
  world : World
  named : Option String
  process : TemplateProcess

namespace TemplateRun

/-- What a run gives: the text that it prints, or its failure. -/
def result (r : TemplateRun) : Except Failure String :=
  (r.world.runProcess r.named r.process).1

/-- The world after a run, in which the next one may start. -/
def after (r : TemplateRun) : World :=
  (r.world.runProcess r.named r.process).2

/-- A run that **empties** a template: it succeeds in giving it the content of an empty file. -/
def Empties (r : TemplateRun) : Prop :=
  r.process.order.Empties r.world.textAt ∧ ∃ text, r.result = .ok text

/-- A run that **continues** in a data directory from a world: it finds the data directory, and
whatever has happened in between has left the templates as they are. If it fails to save, the data
directory is steady, and if the disk has failed, the template file has not the temporary name too. -/
structure Continues (d : DataDirectory) (v : World) (r : TemplateRun) : Prop where
  found : (r.world.runTask (DataDirectory.resolve r.named)).1 = .ok d
  loads : (r.world.runTask d.loadTemplates).1 = (v.runTask d.loadTemplates).1
  steady (h : isUnsaved r.result = true) : d.IsSteady r.world
  unlinked (h : isUnsaved r.result = true) :
    r.world.IsFaultless ∨ ¬ r.world.SharesTemporary d.templatesPath

variable {r : TemplateRun} {d : DataDirectory} {v : World} {s : Templates}

/-- **What is loaded after a run**: what the order has made of the templates if the run succeeds, or
else what was loaded before, unless a save has failed and the file cannot be reached any more. -/
theorem Continues.loads_cases (h : r.Continues d v)
    (hload : (v.runTask d.loadTemplates).1 = .ok s) :
    (∃ s' text, s.obey r.world.textAt r.process.clock r.process.order = .ok s' ∧
        r.result = .ok text ∧ (r.after.runTask d.loadTemplates).1 = .ok s') ∨
      (∃ f, r.result = .error f) ∧ ((r.after.runTask d.loadTemplates).1 = .ok s ∨
        isUnsaved r.result = true ∧ ∃ e, (r.after.runTask d.loadTemplates).1 =
          .error (.storeUnreadable d.templatesPath e)) := by
  let u := r.world.restart r.process.clock
  have hsteady := h.steady
  have hunlinked := h.unlinked
  have hfollows : Follows r.world r.world d s := .refl (h.loads.trans hload)
  have hu : (u.runTask d.loadTemplates).1 = .ok s := (hfollows.restart _).loads
  rw [result] at hsteady hunlinked
  rw [result, after]
  rcases hfollows.runProcess_cases h.found r.process with
    ⟨f, -, hrun⟩ | ⟨text, hobey, hrun⟩ | ⟨s', text, hobey, -, hrun⟩
  · rw [hrun]
    exact .inr ⟨⟨f, rfl⟩, .inl hu⟩
  · rw [hrun]
    exact .inl ⟨s, text, hobey, rfl, hu⟩
  · rw [hrun] at hsteady hunlinked ⊢
    rcases hsave : u.runTask (s'.save d.templatesPath) with ⟨f | ⟨⟨⟩⟩, v⟩
    · rw [hsave] at hsteady hunlinked
      have hunsaved : f.isUnsaved = true := isUnsaved_of_writeAtomically hsave
      refine .inr ⟨⟨f, rfl⟩, ?_⟩
      exact (Templates.load_of_save_failed (w := u) (hsteady hunsaved) (hunlinked hunsaved) hu
        hsave).imp_right fun hfailed => ⟨hunsaved, hfailed⟩
    · exact .inl ⟨s', text, hobey, rfl, congrArg Prod.fst (Templates.load_of_save hsave)⟩

/-- A run fails and leaves everything as it is if the templates cannot be loaded. -/
theorem Continues.loads_of_error {f : Failure} (h : r.Continues d v)
    (hload : (v.runTask d.loadTemplates).1 = .error f) :
    (∃ f', r.result = .error f') ∧ (r.after.runTask d.loadTemplates).1 = .error f := by
  let u := r.world.restart r.process.clock
  have hu : (u.runTask d.loadTemplates).1 = .error f :=
    (Templates.load_congr (w := r.world) (v := u) rfl).trans (h.loads.trans hload)
  obtain ⟨f', hf'⟩ := r.process.order.exists_failed hu
  have hrun : r.world.runProcess r.named r.process = (.error f', u) := by
    rw [World.runProcess, Command.runTask_run,
      DataDirectory.resolve_congr (w := r.world) (v := u) ⟨rfl, .refl _⟩ rfl, h.found]
    exact hf'
  rw [result, after, hrun]
  exact ⟨⟨f', rfl⟩, hu⟩

end TemplateRun

/-! ### Histories -/

/-- A **history** of runs in a data directory, from a world to another, each of which continues from
the one before it. -/
inductive TemplateHistory (d : DataDirectory) (w : World) : List TemplateRun → World → Prop
  | start : TemplateHistory d w [] w
  | next {rs : List TemplateRun} {v : World} {r : TemplateRun} (h : TemplateHistory d w rs v)
      (hr : r.Continues d v) : TemplateHistory d w (rs ++ [r]) r.after

/-- What is **kept** throughout a history: templates are loaded that are well-formed, named, and
filled if none has been emptied, unless a save has failed. -/
inductive TemplatesKept (d : DataDirectory) (rs : List TemplateRun) (v : World) : Prop
  | loaded {s : Templates} (hload : (v.runTask d.loadTemplates).1 = .ok s)
      (hs : s.IsWellFormed ∧ s.IsNamed) (hfilled : (∀ r ∈ rs, ¬ r.Empties) → s.IsFilled)
  | unreadable {e : FileError}
      (hload : (v.runTask d.loadTemplates).1 = .error (.storeUnreadable d.templatesPath e))
      (hunsaved : ∃ r ∈ rs, isUnsaved r.result = true)

namespace TemplateHistory

variable {d : DataDirectory} {w v : World} {rs qs : List TemplateRun} {r : TemplateRun}

/-- Every part of a history from its start is a history. -/
theorem exists_of_initial (h : TemplateHistory d w rs v) (hinitial : qs <+: rs) :
    ∃ u, TemplateHistory d w qs u := by
  induction h with
  | start => exact ⟨w, List.prefix_nil.mp hinitial ▸ .start⟩
  | next h hr ih =>
      rcases List.prefix_concat_iff.mp hinitial with rfl | hinitial
      · exact ⟨_, h.next hr⟩
      · exact ih hinitial

/-- The last run of a history. -/
theorem exists_of_concat (h : TemplateHistory d w (rs ++ [r]) v) :
    ∃ u, TemplateHistory d w rs u ∧ r.Continues d u ∧ v = r.after := by
  generalize hlist : rs ++ [r] = list at h
  cases h with
  | start => exact absurd hlist (by simp)
  | @next rs' u r' h hr =>
      obtain ⟨rfl, hlast⟩ := List.append_inj' hlist rfl
      obtain rfl : r = r' := (List.cons.inj hlast).1
      exact ⟨u, h, hr, rfl⟩

/-- **What is kept throughout a history.** The induction is on the runs: each one stores what its
order makes of what was kept before it. -/
theorem kept (h : TemplateHistory d w rs v)
    (hstart : (w.runTask d.loadTemplates).1 = .ok .builtIn) : TemplatesKept d rs v := by
  induction h with
  | start =>
      exact .loaded hstart ⟨Templates.isWellFormed_builtIn, Templates.isNamed_builtIn⟩
        fun _ => Templates.isFilled_builtIn
  | @next rs v r h hr ih =>
      cases ih with
      | @loaded s hload hs hfilled =>
          have hbefore : (∀ q ∈ rs ++ [r], ¬ q.Empties) → s.IsFilled := fun hnone =>
            hfilled fun q hq => hnone q (List.mem_append_left _ hq)
          rcases hr.loads_cases hload with
            ⟨s', text, hobey, hresult, hafter⟩ | ⟨-, hafter | ⟨hunsaved, e, hafter⟩⟩
          · refine .loaded hafter (Templates.isWellFormed_and_isNamed_obey hs hobey) fun hnone => ?_
            refine (Templates.isFilled_obey_iff (hbefore hnone) hobey).mpr fun hempties => ?_
            exact hnone r (by simp) ⟨hempties, text, hresult⟩
          · exact .loaded hafter hs hbefore
          · exact .unreadable hafter ⟨r, by simp, hunsaved⟩
      | unreadable hload hunsaved =>
          obtain ⟨q, hq, hq'⟩ := hunsaved
          exact .unreadable (hr.loads_of_error hload).2 ⟨q, List.mem_append_left _ hq, hq'⟩

/-- A run that empties a template leaves it empty. -/
theorem exists_not_isFilled (h : TemplateHistory d w rs v)
    (hstart : (w.runTask d.loadTemplates).1 = .ok .builtIn)
    (hfilled : ∀ s, (v.runTask d.loadTemplates).1 = .ok s → s.IsFilled)
    (hr : r.Continues d v) (hempties : r.Empties) :
    ∃ s, (r.after.runTask d.loadTemplates).1 = .ok s ∧ ¬ s.IsFilled := by
  obtain ⟨horder, text, hresult⟩ := hempties
  cases h.kept hstart with
  | @loaded s hload =>
      rcases hr.loads_cases hload with
        ⟨s', -, hobey, -, hafter⟩ | ⟨⟨f, hf⟩, -⟩
      · exact ⟨s', hafter, fun hs' =>
          (Templates.isFilled_obey_iff (hfilled s hload) hobey).mp hs' horder⟩
      · exact absurd (hresult.symm.trans hf) (by simp)
  | unreadable hload =>
      obtain ⟨⟨f, hf⟩, -⟩ := hr.loads_of_error hload
      exact absurd (hresult.symm.trans hf) (by simp)

end TemplateHistory

/-! ### Commands that need a content -/

section Contents

variable {w : World} {d : DataDirectory} {s : Templates} {t : Template} {o : MessageOptions}

/-- What is chosen is one of the templates. -/
theorem Templates.mem_of_choose {id : Option String} (h : s.choose id = .ok t) : t ∈ s.list := by
  cases id with
  | some id =>
      rw [choose, get] at h
      split at h
      · rename_i u hu
        exact Except.ok.inj h ▸ List.mem_of_find?_eq_some hu
      · exact absurd h (by simp)
  | none =>
      rw [choose] at h
      split at h
      · rename_i u hu
        obtain rfl := Except.ok.inj h
        rcases Option.or_eq_some_iff.mp hu with hfound | ⟨-, hhead⟩
        · exact List.mem_of_find?_eq_some hfound
        · exact List.mem_of_head? hhead
      · exact absurd h (by simp)

/-- A message that is printed is rendered with one of the templates. -/
theorem MessageOptions.exists_choose {text : String}
    (h : (w.runTask ((Command.generate o).runIn d)).1 = .ok text) :
    ∃ s t, (w.runTask d.loadTemplates).1 = .ok s ∧ s.choose o.template = .ok t := by
  have hrun : w.runTask (runGenerate d o) = (.ok text, (w.runTask (runGenerate d o)).2) :=
    Prod.ext h rfl
  obtain ⟨message, u, hmessage, -⟩ := World.runTask_bind_eq_ok.mp hrun
  obtain ⟨settings, -, hmessage⟩ := (Settings.observes_loadOrDefault _).bind_eq_ok.mp hmessage
  obtain ⟨fields, v, hfields, hmessage⟩ := World.runTask_bind_eq_ok.mp hmessage
  obtain ⟨s, hload, hmessage⟩ := (Templates.observes_load _).bind_eq_ok.mp hmessage
  obtain ⟨t, u', hchoose, -⟩ := World.runTask_bind_eq_ok.mp hmessage
  rw [runTask_ofExcept] at hchoose
  refine ⟨s, t, ?_, congrArg Prod.fst hchoose⟩
  exact congrArg Prod.fst ((load_of_completeFields hfields).symm.trans hload)

/-- Adding a template fails for lack of a content only if there is none. -/
theorem Templates.add_ne_contentEmpty {clock : Nat} {name content : String} (h : content ≠ "") :
    (s.add clock name content).1 ≠ .error .templateContentEmpty := by
  rw [add_eq]
  split
  · simp
  · rw [if_neg (by simpa using h)]
    simp

/-- A save with something to say afterwards succeeds, or it fails as a save does. -/
theorem Templates.save_return_cases (text : String) :
    (∃ text', (w.runTask (do s.save d.templatesPath; return text)).1 = .ok text') ∨
      ∃ f : Failure, f.isUnsaved = true ∧
        (w.runTask (do s.save d.templatesPath; return text)).1 = .error f := by
  rw [save, runTask_save_return]
  rcases hsave : w.runTask (StoreFile.save s.toJson d.templatesPath) with ⟨f | ⟨⟨⟩⟩, v⟩
  · exact .inr ⟨f, isUnsaved_of_writeAtomically hsave, rfl⟩
  · exact .inl ⟨text, rfl⟩

/-- The commands that need a content **find one** in a data directory, whatever is stored there or
has gone wrong with it. -/
structure FindsContent (d : DataDirectory) (w : World) : Prop where
  /-- Adding a template without a file never fails for lack of a content. -/
  filled (name : String) :
    (w.runTask ((Command.templateAdd name none).runIn d)).1 ≠ .error .templateContentEmpty
  /-- With a name that is not blank, it succeeds or fails to save. -/
  added (name : String) (hname : Text.trim name ≠ "") (s : Templates)
    (hload : (w.runTask d.loadTemplates).1 = .ok s) :
    (∃ text, (w.runTask ((Command.templateAdd name none).runIn d)).1 = .ok text) ∨
      isUnsaved (w.runTask ((Command.templateAdd name none).runIn d)).1 = true
  /-- A message is rendered with the template that is chosen, which has a content. -/
  rendered (o : MessageOptions) (s : Templates) (t : Template)
    (hload : (w.runTask d.loadTemplates).1 = .ok s) (hchoose : s.choose o.template = .ok t) :
    t.content ≠ "" ∧
      w.runTask ((Command.generate o).runIn d) = w.runTask (do return unlines [← o.messageWith d t])
  /-- No message is printed without one. -/
  printed (o : MessageOptions) (text : String)
    (h : (w.runTask ((Command.generate o).runIn d)).1 = .ok text) :
    ∃ s t, (w.runTask d.loadTemplates).1 = .ok s ∧ s.choose o.template = .ok t

/-- With templates that are filled, commands find a content. -/
theorem Templates.IsFilled.findsContent (hs : s.IsFilled) (hne : s.list ≠ [])
    (hload : (w.runTask d.loadTemplates).1 = .ok s) : FindsContent d w := by
  obtain ⟨before, t, after, hactive⟩ := exists_activeAt hne
  have hcontent : t.content ≠ "" := hs t (by simp [hactive.1])
  have hcopied := (hactive.actsOn hload).copied
  refine ⟨fun name => ?_, fun name hname s' _ => ?_, fun o s' u hload' hchoose => ?_,
    fun o text => MessageOptions.exists_choose⟩
  · have hcopied := hcopied name
    rcases hadd : (s.add w.clock name t.content).kept with f | s' <;> rw [hadd] at hcopied
    · cases hcopied with
      | failed hrun =>
          rw [hrun]
          exact fun he => add_ne_contentEmpty hcontent
            (Outcome.kept_eq_error_iff.mp (hadd.trans (congrArg Except.error (Except.error.inj he))))
    · cases hcopied with
      | saved text hrun =>
          rw [hrun]
          rcases save_return_cases text with ⟨text', hdone⟩ | ⟨f, hf, hfailed⟩
          · exact fun he => absurd (hdone.symm.trans he) (by simp)
          · rw [hfailed]
            rintro ⟨⟩
            exact absurd hf (by simp [Failure.isUnsaved])
  · obtain ⟨new, s'', hadd⟩ := exists_add_eq_ok_iff.mpr ⟨hname, hcontent⟩
    have hcopied := hcopied name
    rw [Outcome.kept_eq_ok_iff.mpr ⟨new, hadd⟩] at hcopied
    cases hcopied with
    | saved text hrun =>
        rw [hrun]
        refine (save_return_cases text).imp_right ?_
        rintro ⟨f, hf, hfailed⟩
        rw [hfailed]
        exact hf
  · obtain rfl := Except.ok.inj (hload.symm.trans hload')
    refine ⟨hs u (mem_of_choose hchoose), ?_⟩
    change w.runTask (runGenerate d o) = _
    rw [runGenerate, World.runTask_bind, World.runTask_bind,
      MessageOptions.runTask_message hload hchoose]

/-- Nor does adding a template fail for lack of a content if the file cannot be read. -/
theorem findsContent_of_unreadable {e : FileError}
    (hload : (w.runTask d.loadTemplates).1 = .error (.storeUnreadable d.templatesPath e)) :
    FindsContent d w := by
  have hfailed : ∀ s, (w.runTask d.loadTemplates).1 ≠ .ok s := fun s hs =>
    absurd (hload.symm.trans hs) (by simp)
  refine ⟨fun name => ?_, fun name _ s hs => absurd hs (hfailed s),
    fun o s t hs => absurd hs (hfailed s), fun o text => MessageOptions.exists_choose⟩
  have hrun : w.runTask d.loadTemplates = (.error (.storeUnreadable d.templatesPath e), w) :=
    Prod.ext hload (Templates.observes_load _ w)
  change (w.runTask (runTemplateAdd d name none)).1 ≠ _
  rw [runTemplateAdd, World.runTask_bind, hrun]
  simp

end Contents

/-! ### Throughout a history -/

/-- **Templates stay filled exactly if no command empties one.** Throughout a history that starts
from the built-in templates, the templates are well-formed, and their names are trimmed and not
blank. They can be loaded unless a command has failed to save. No content is ever empty exactly if
no command has succeeded in giving a template the content of an empty file; and then the commands
that need a content find one at any later time. -/
theorem TemplateHistory.isFilled_throughout_iff (d : DataDirectory) (w v : World)
    (rs : List TemplateRun) (hstart : (w.runTask d.loadTemplates).1 = .ok .builtIn)
    (h : TemplateHistory d w rs v) :
    (∀ s, (v.runTask d.loadTemplates).1 = .ok s → s.IsWellFormed ∧ s.IsNamed) ∧
      ((∀ r ∈ rs, isUnsaved r.result = false) → ∃ s, (v.runTask d.loadTemplates).1 = .ok s) ∧
      ((∀ qs u, qs <+: rs → TemplateHistory d w qs u →
          ∀ s, (u.runTask d.loadTemplates).1 = .ok s → s.IsFilled) ↔ ∀ r ∈ rs, ¬ r.Empties) ∧
      ((∀ r ∈ rs, ¬ r.Empties) → ∀ u,
        (u.runTask d.loadTemplates).1 = (v.runTask d.loadTemplates).1 → FindsContent d u) := by
  have hkept := h.kept hstart
  refine ⟨fun s hload => ?_, fun hsaved => ?_, ⟨fun hfilled r hr hempties => ?_, ?_⟩, ?_⟩
  · cases hkept with
    | loaded hload' hs => exact Except.ok.inj (hload'.symm.trans hload) ▸ hs
    | unreadable hload' => exact absurd (hload'.symm.trans hload) (by simp)
  · cases hkept with
    | loaded hload => exact ⟨_, hload⟩
    | unreadable _ hunsaved =>
        obtain ⟨r, hr, hunsaved⟩ := hunsaved
        exact absurd ((hsaved r hr).symm.trans hunsaved) (by simp)
  · -- the templates before and after the run are those of two parts of the history
    obtain ⟨qs, ps, rfl⟩ := List.append_of_mem hr
    have hinitial : qs ++ [r] <+: qs ++ r :: ps := ⟨ps, by simp⟩
    obtain ⟨u, hu⟩ := h.exists_of_initial hinitial
    obtain ⟨u', hu', hcontinues, rfl⟩ := hu.exists_of_concat
    have hbefore := hfilled qs u' (List.prefix_append _ _) hu'
    obtain ⟨s, hload, hnot⟩ := hu'.exists_not_isFilled hstart hbefore hcontinues hempties
    exact hnot (hfilled _ _ hinitial hu s hload)
  · intro hnone qs u hinitial hu s hload
    cases hu.kept hstart with
    | loaded hload' _ hfilled =>
        obtain rfl := Except.ok.inj (hload.symm.trans hload')
        exact hfilled fun r hr => hnone r (hinitial.subset hr)
    | unreadable hload' => exact absurd (hload.symm.trans hload') (by simp)
  · intro hnone u hu
    cases hkept with
    | loaded hload hs hfilled => exact (hfilled hnone).findsContent hs.1.nonempty (hu.trans hload)
    | unreadable hload => exact findsContent_of_unreadable (hu.trans hload)

/-- In a data directory that is still missing, the built-in template gets the content of a file, and
then a file is given that is not there. -/
theorem TemplateHistory.isFilled_throughout_iff_new :
    let w := ((default : World).runTask (writeTextAtomically "in.txt" "hello")).2
    let d : DataDirectory := ⟨"x"⟩
    let r₁ : TemplateRun := ⟨w, some "x", ⟨5, .update "default-1" "in.txt"⟩⟩
    let r₂ : TemplateRun := ⟨r₁.after, some "x", ⟨6, .update "default-1" "gone.txt"⟩⟩
    (w.runTask d.loadTemplates).1 = .ok .builtIn ∧ TemplateHistory d w [r₁, r₂] r₂.after ∧
      (∀ r ∈ [r₁, r₂], ¬ r.Empties) ∧
      (∃ s, (r₂.after.runTask d.loadTemplates).1 = .ok s ∧ s.IsWellFormed ∧ s.IsNamed ∧
        s.IsFilled) ∧
      FindsContent d r₂.after := by
  intro w d r₁ r₂
  have hmissing : w.textAt d.templatesPath = .error .notFound := by decide +kernel
  have hinput : w.textAt "in.txt" = .ok "hello" := eq_ok_of_toOption_eq (by decide +kernel)
  have hgone : r₂.world.textAt "gone.txt" = .error .notFound := by decide +kernel
  have hsaved₁ : isUnsaved r₁.result = false := by decide +kernel
  have hsaved₂ : isUnsaved r₂.result = false := by decide +kernel
  have hup : ".." ∉ FileTree.names d.path := by decide
  have hnone : w.faults = [] := by decide +kernel
  clear_value w
  have hstart : (w.runTask d.loadTemplates).1 = .ok .builtIn :=
    (Templates.load_of_error hmissing).trans (if_pos rfl)
  have hfaultless : w.IsFaultless := by simp [World.IsFaultless, hnone]
  have hfirst : r₁.Continues d w := ⟨rfl, rfl, fun _ => .of_notMem hup, fun _ => .inl hfaultless⟩
  have hsecond : r₂.Continues d r₁.after :=
    ⟨rfl, rfl, fun _ => .of_notMem hup, fun _ => .inl (World.IsFaultless.run
      (w := w.restart 5) hfaultless _)⟩
  have h : TemplateHistory d w [r₁, r₂] r₂.after := (TemplateHistory.start.next hfirst).next hsecond
  have hsaved : ∀ r ∈ [r₁, r₂], isUnsaved r.result = false := by simp [hsaved₁, hsaved₂]
  have hnone : ∀ r ∈ [r₁, r₂], ¬ r.Empties := by
    rintro r hr ⟨⟨id, file, ho, htext⟩, -⟩
    simp only [List.mem_cons, List.not_mem_nil, or_false] at hr
    rcases hr with rfl | rfl
    · cases ho
      exact absurd (hinput.symm.trans htext) (by simp)
    · cases ho
      exact absurd (hgone.symm.trans htext) (by simp)
  obtain ⟨hsound, hloads, hthroughout, hfinds⟩ :=
    TemplateHistory.isFilled_throughout_iff d w r₂.after _ hstart h
  obtain ⟨s, hs⟩ := hloads hsaved
  obtain ⟨hwellFormed, hnamed⟩ := hsound s hs
  exact ⟨hstart, h, hnone,
    ⟨s, hs, hwellFormed, hnamed, hthroughout.mpr hnone _ _ (List.prefix_refl _) h s hs⟩,
    hfinds hnone _ rfl⟩

/-- **A template can be emptied.** The built-in template is given the content of an empty file, and
the command succeeds. No template can be added without a file then, and the message is empty. -/
theorem TemplateHistory.isEmpty_updated :
    let w := ((default : World).runTask (writeTextAtomically "e.txt" "")).2
    let d : DataDirectory := ⟨"d"⟩
    let r : TemplateRun := ⟨w, some "d", ⟨5, .update "default-1" "e.txt"⟩⟩
    let o : MessageOptions := ⟨none, none, some "a", some "b", ⟨none, []⟩, false⟩
    (w.runTask d.loadTemplates).1 = .ok .builtIn ∧ TemplateHistory d w [r] r.after ∧
      r.result = .ok "Updated template: default-1\n" ∧
      (∃ s t, (r.after.runTask d.loadTemplates).1 = .ok s ∧ t ∈ s.list ∧ t.content = "") ∧
      (r.after.runTask ((Command.templateAdd "x" none).runIn d)).1 = .error .templateContentEmpty ∧
      (r.after.runTask ((Command.generate o).runIn d)).1 = .ok "\n" := by
  intro w d r o
  let t : Template := ⟨"default-1", "預設範本", ""⟩
  have hmissing : w.textAt d.templatesPath = .error .notFound := by decide +kernel
  have hfaultless : w.IsFaultless := by
    have hnone : w.faults = [] := by decide +kernel
    simp [World.IsFaultless, hnone]
  have hresult : r.result = .ok "Updated template: default-1\n" :=
    eq_ok_of_toOption_eq (by decide +kernel)
  have hmessage : (r.after.runTask (do return unlines [← o.messageWith d t])).1 = .ok "\n" :=
    eq_ok_of_toOption_eq (by decide +kernel)
  have hobey : Templates.builtIn.obey w.textAt 5 r.process.order = .ok ⟨"default-1", [t]⟩ :=
    eq_ok_of_toOption_eq (by decide +kernel)
  have hstart : (w.runTask d.loadTemplates).1 = .ok .builtIn :=
    (Templates.load_of_error hmissing).trans (if_pos rfl)
  have hcontinues : r.Continues d w :=
    ⟨rfl, rfl, fun _ => .of_notMem (by decide), fun _ => .inl hfaultless⟩
  have hload : (r.after.runTask d.loadTemplates).1 = .ok ⟨"default-1", [t]⟩ := by
    rcases hcontinues.loads_cases hstart with ⟨s, text, hs, -, hafter⟩ | ⟨⟨f, hf⟩, -⟩
    · rw [hafter, ← hs]
      exact hobey
    · exact absurd (hresult.symm.trans hf) (by simp)
  have hactive : Templates.ActiveAt ⟨"default-1", [t]⟩ [] t [] := ⟨rfl, .inl ⟨rfl, nofun⟩⟩
  have hacts := hactive.actsOn hload
  have hadd : (r.after.runTask ((Command.templateAdd "x" none).runIn d)).1 =
      .error .templateContentEmpty := by
    cases hacts.copied "x" with
    | failed hrun => rw [hrun]
  exact ⟨hstart, .next .start hcontinues, hresult,
    ⟨_, t, hload, List.mem_cons_self, rfl⟩, hadd, (hacts.rendered o rfl).symm ▸ hmessage⟩

end Outreach
