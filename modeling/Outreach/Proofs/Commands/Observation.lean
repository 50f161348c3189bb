import Outreach.Commands.Run
import Outreach.World

/-!
# Tasks That Only Observe

Most of what a command does is asking: for variables, the time, what stands at a path. None of this
changes the world. A message that is posted is noted by the world, but changes no file.

## Main results

* `Task.Observes.bind`, `Task.KeepsFiles.bind`: what is put together from such tasks is such a task.
* `DataDirectory.observes_resolve`: finding the data directory changes nothing.
* `StoreFile.observes_load`: loading a store changes nothing.
* `Command.keepsFiles_runIn`: **a command that stores nothing changes no file.**
-/

namespace Outreach

variable {α β : Type}

/-! ### Programs and tasks -/

/-- Whether a request only asks, so that its answer leaves the world as it is. -/
def Request.isObserving : Request → Bool
  | .workingDirectory | .readVariable _ | .clock | .date | .pathExists _ | .isDirectory _
  | .readText _ => true
  | _ => false

/-- A request that only asks is answered without a change to any part of the world. -/
theorem World.answer_of_isObserving (w : World) {r : Request} (h : r.isObserving = true) :
    (w.answer r).2 = w := by
  cases r <;> first | rfl | exact absurd h (by simp [Request.isObserving])

/-- An answer changes no more of a world than its files, its handles, the faults to come and the
messages sent. -/
theorem World.answer_keeps {γ : Type} {part : World → γ}
    (h : ∀ (w : World) files handles faults sent,
      part { w with files, handles, faults, sent } = part w) (w : World) (r : Request) :
    part (w.answer r).2 = part w := by
  cases r with
  | create path =>
      rw [answer]
      split <;> exact h w _ _ _ _
  | write handle bytes =>
      rw [answer]
      split
      · rfl
      · split <;> exact h w _ _ _ _
  | sync handle =>
      rw [answer]
      split <;> exact h w _ _ _ _
  | replace source target =>
      rw [answer]
      split
      · exact h w _ _ _ _
      · split <;> exact h w _ _ _ _
  | remove path =>
      rw [answer]
      split <;> exact h w _ _ _ _
  | _ => exact h w _ _ _ _

/-- What no answer changes, no program changes. -/
theorem World.run_keeps {γ : Type} {part : World → γ}
    (h : ∀ (w : World) files handles faults sent,
      part { w with files, handles, faults, sent } = part w) (w : World) (p : Program α) :
    part (w.run p).2 = part w := by
  induction p generalizing w with
  | done a => rfl
  | perform r next ih => exact (ih _ _).trans (answer_keeps h w r)

/-- No program changes the working directory. -/
theorem World.workingDirectory_run (w : World) (p : Program α) :
    (w.run p).2.workingDirectory = w.workingDirectory :=
  run_keeps (fun _ _ _ _ _ => rfl) w p

/-- No program changes a variable. -/
theorem World.environment_run (w : World) (p : Program α) :
    (w.run p).2.environment = w.environment :=
  run_keeps (fun _ _ _ _ _ => rfl) w p

/-- No program changes the date at an instant. -/
theorem World.dateAt_run (w : World) (p : Program α) : (w.run p).2.dateAt = w.dateAt :=
  run_keeps (fun _ _ _ _ _ => rfl) w p

/-- No program changes the date. -/
theorem World.date_run (w : World) (p : Program α) : (w.run p).2.date = w.date :=
  run_keeps (fun _ _ _ _ _ => rfl) w p

/-- A world without faults has none after an answer. -/
theorem World.IsFaultless.answer {w : World} (h : w.IsFaultless) (r : Request) :
    (w.answer r).2.IsFaultless := by
  cases r with
  | create path =>
      rw [World.answer]
      split <;> exact h
  | write handle bytes =>
      rw [World.answer]
      split
      · exact h
      · split <;> exact h.pastFault
  | sync handle =>
      rw [World.answer]
      split <;> exact h.pastFault
  | replace source target =>
      rw [World.answer]
      split
      · exact h.pastFault
      · split <;> exact h.pastFault
  | remove path =>
      rw [World.answer]
      split <;> exact h
  | _ => exact h

/-- A world without faults has none after a program either. -/
theorem World.IsFaultless.run {w : World} (h : w.IsFaultless) (p : Program α) :
    (w.run p).2.IsFaultless := by
  induction p generalizing w with
  | done a => exact h
  | perform r next ih => exact ih _ (h.answer r)

/-- A program that **observes**: whatever it gives, the world stays as it is. -/
def Program.Observes (p : Program α) : Prop :=
  ∀ w : World, (w.run p).2 = w

namespace Program.Observes

/-- A program that is done has made no request, so it leaves the world as it is. -/
theorem done (a : α) : (Program.done a).Observes := fun _ => rfl

/-- One request that only asks is a program that observes. -/
theorem request {r : Request} (h : r.isObserving = true) : (Program.request r).Observes :=
  fun w => w.answer_of_isObserving h

/-- Two programs that observe, the second chosen by what the first gives, observe one after the
other. -/
theorem bind {p : Program α} {f : α → Program β} (hp : p.Observes) (hf : ∀ a, (f a).Observes) :
    (p >>= f).Observes := by
  intro w
  rw [Program.bind_eq, World.run_bind, hf, hp]

end Program.Observes

/-- A program that **changes no file**: entries and bytes stay, though messages may have been
sent. -/
def Program.KeepsFiles (p : Program α) : Prop :=
  ∀ w : World, (w.run p).2.files = w.files

namespace Program.KeepsFiles

/-- A program that is done changes no file, since it makes no request. -/
theorem done (a : α) : (Program.done a).KeepsFiles := fun _ => rfl

/-- Posting a message changes no file: the world only notes what was sent. -/
theorem post (posting : Posting) : (Program.request (.post posting)).KeepsFiles := fun _ => rfl

/-- Two programs that change no file, one after the other, change none. -/
theorem bind {p : Program α} {f : α → Program β} (hp : p.KeepsFiles)
    (hf : ∀ a, (f a).KeepsFiles) : (p >>= f).KeepsFiles := by
  intro w
  rw [Program.bind_eq, World.run_bind, hf, hp]

end Program.KeepsFiles

/-- A program that leaves the whole world as it is leaves the files as they are. -/
theorem Program.Observes.keepsFiles {p : Program α} (h : p.Observes) : p.KeepsFiles :=
  fun w => congrArg World.files (h w)

namespace Task

/-- A task that **observes**: whatever it gives, the world stays as it is. -/
def Observes (t : Task α) : Prop :=
  ∀ w : World, (w.runTask t).2 = w

/-- A task that **changes no file**, whether it succeeds or fails. -/
def KeepsFiles (t : Task α) : Prop :=
  ∀ w : World, (w.runTask t).2.files = w.files

namespace Observes

/-- A task that gives a value at once leaves the world as it is. -/
theorem pure (a : α) : (Pure.pure a : Task α).Observes := fun _ => rfl

/-- A task that fails at once leaves the world as it is. -/
theorem throw (f : Failure) : (MonadExcept.throw f : Task α).Observes := fun _ => rfl

/-- A program that observes is still one that observes when it is taken as a task that cannot
fail. -/
theorem ofProgram {p : Program α} (h : p.Observes) : (Task.ofProgram p).Observes := by
  intro w
  rw [World.runTask_ofProgram]
  exact h w

/-- One request that only asks is a task that observes. -/
theorem request {r : Request} (h : r.isObserving = true) : (Task.request r).Observes :=
  ofProgram (.request h)

/-- Going on with an outcome that is already known, good or bad, observes. -/
theorem ofExcept (x : Except Failure α) : (Task.ofExcept x).Observes := by
  cases x <;> exact fun _ => rfl

/-- Giving the error of the file system its name as a failure observes. -/
theorem orFail (failure : FileError → Failure) (x : Except FileError α) :
    (Task.orFail failure x).Observes := by
  cases x <;> exact fun _ => rfl

/-- A task that observes may fail and so end the run early; either way the two together observe. -/
theorem bind {t : Task α} {f : α → Task β} (ht : t.Observes) (hf : ∀ a, (f a).Observes) :
    (t >>= f).Observes := by
  intro w
  have hw := ht w
  rw [World.runTask_bind]
  split
  · rename_i a v hrun
    rw [hrun] at hw
    subst hw
    exact hf a v
  · rename_i e v hrun
    rw [hrun] at hw
    exact hw

/-- What a task that observes gives, it gives in the world as it is. -/
theorem runTask_eq {t : Task α} (h : t.Observes) (w : World) :
    w.runTask t = ((w.runTask t).1, w) :=
  Prod.ext rfl (h w)

/-- What follows a task that observes succeeds in the world as it is. -/
theorem bind_eq_ok {t : Task α} {f : α → Task β} {w v : World} {b : β} (h : t.Observes) :
    w.runTask (t >>= f) = (.ok b, v) ↔
      ∃ a, w.runTask t = (.ok a, w) ∧ w.runTask (f a) = (.ok b, v) := by
  rw [World.runTask_bind_eq_ok]
  constructor
  · rintro ⟨a, u, ht, hf⟩
    obtain rfl : w = u := (h w).symm.trans (congrArg Prod.snd ht)
    exact ⟨a, ht, hf⟩
  · rintro ⟨a, ht, hf⟩
    exact ⟨a, w, ht, hf⟩

/-- What a task that observes gives is what is gone on with. -/
theorem fst_runTask_bind {t : Task α} (h : t.Observes) (f : α → Task β) (w : World) :
    (w.runTask (t >>= f)).1 = (w.runTask t).1 >>= fun a => (w.runTask (f a)).1 := by
  rw [World.runTask_bind, h.runTask_eq w]
  rcases (w.runTask t).1 with e | a <;> rfl

/-- A task that leaves the whole world as it is leaves the files as they are. -/
theorem keepsFiles {t : Task α} (h : t.Observes) : t.KeepsFiles :=
  fun w => congrArg World.files (h w)

end Observes

/-- A program that changes no file is still one when it is taken as a task. -/
theorem KeepsFiles.ofProgram {p : Program α} (h : p.KeepsFiles) :
    (Task.ofProgram p).KeepsFiles := by
  intro w
  rw [World.runTask_ofProgram]
  exact h w

/-- Two tasks that change no file, one after the other, change none, wherever the run ends. -/
theorem KeepsFiles.bind {t : Task α} {f : α → Task β} (ht : t.KeepsFiles)
    (hf : ∀ a, (f a).KeepsFiles) : (t >>= f).KeepsFiles := by
  intro w
  have hw := ht w
  rw [World.runTask_bind]
  split
  · rename_i a v hrun
    rw [hrun] at hw
    exact (hf a v).trans hw
  · rename_i e v hrun
    rw [hrun] at hw
    exact hw

end Task

/-! ### What commands start from -/

/-- Asking one path after the other whether it is a directory changes nothing, by induction on the
paths. -/
theorem DataDirectory.observes_firstDirectory? (paths : List String) :
    (firstDirectory? paths).Observes := by
  induction paths with
  | nil => exact .done none
  | cons path paths ih =>
      refine .bind (.request rfl) fun there => ?_
      cases there with
      | true => exact .done (some path)
      | false => exact ih

/-- Finding the data directory changes nothing. -/
theorem DataDirectory.observes_resolve (named : Option String) : (resolve named).Observes := by
  cases named with
  | some path => exact .pure _
  | none =>
      refine .bind (.request rfl) fun inherited => ?_
      split
      · exact .pure _
      · refine .bind (.request rfl) fun here => .bind (.orFail _ here) fun here => ?_
        exact .ofProgram (.bind (observes_firstDirectory? _) fun _ => .done _)

/-- Reading the clock changes nothing. -/
theorem observes_now : now.Observes := .request rfl

/-- Asking for the date changes nothing. -/
theorem observes_today : today.Observes := .request rfl

/-- Reading a file that the user names changes nothing, whether or not it can be read. -/
theorem observes_readInput (purpose : InputFile) (path : String) :
    (readInput purpose path).Observes :=
  .bind (.request rfl) fun text => .orFail _ text

/-- Reading a record from its file and assigning to its fields changes nothing. -/
theorem RecordSource.observes_read (s : RecordSource) : s.read.Observes := by
  refine .bind ?_ fun r => .ofExcept _
  rw [readFile]
  split
  · exact .pure _
  · exact .bind (observes_readInput _ _) fun text => .ofExcept _

/-- Loading a store changes nothing. -/
theorem StoreFile.observes_load (decode : Json → Option α) (path : String) :
    (load decode path).Observes := by
  refine .bind (.request rfl) fun text => ?_
  split
  · exact .pure _
  · exact .throw _
  · split
    · exact .throw _
    · split
      · exact .throw _
      · exact .pure _

/-- Loading the presets changes nothing, also where the file is missing and the built-in ones are
taken. -/
theorem Presets.observes_load (path : String) (date : Date) : (Presets.load path date).Observes :=
  .bind (StoreFile.observes_load _ path) fun _ => .pure _

/-- Loading the templates changes nothing, also where the file is missing and the built-in ones
are taken. -/
theorem Templates.observes_load (path : String) : (Templates.load path).Observes :=
  .bind (StoreFile.observes_load _ path) fun _ => .pure _

/-- Loading the presets of a data directory with the date of today changes nothing. -/
theorem DataDirectory.observes_loadPresets (d : DataDirectory) : d.loadPresets.Observes :=
  .bind observes_today fun _ => Presets.observes_load _ _

/-- Loading the settings changes nothing, whether the file is missing, unreadable or refused. -/
theorem Settings.observes_loadOrDefault (path : String) : (loadOrDefault path).Observes := by
  refine .bind (.request rfl) fun there => ?_
  split
  · refine .bind (.request rfl) fun text => ?_
    split
    · exact .throw _
    · exact .ofExcept _
  · exact .pure _

/-! ### Commands that store nothing -/

/-- Polishing an offer changes no file: it reads the key, posts at most one message and shows what
came. -/
theorem Polish.keepsFiles_polish (s : Polish.Settings) (offer : String) :
    (Polish.polish s offer).KeepsFiles := by
  refine .bind (Task.Observes.ofExcept _).keepsFiles fun _ => .ofProgram ?_
  have hclient : (Client.ofSettings s).Observes := by
    refine .bind (.request rfl) fun key => ?_
    split <;> exact .done _
  refine .bind hclient.keepsFiles fun client => ?_
  split
  · exact .done _
  · refine .bind (.bind (.post _) fun reply => ?_) fun words => .done _
    split <;> exact .done _

/-- Putting the fields of a message together from the preset, the file and the assignments changes
nothing. -/
theorem MessageOptions.observes_fields (o : MessageOptions) (d : DataDirectory) (date : Date) :
    (o.fields d date).Observes := by
  refine .bind ?_ fun preset => .bind o.source.observes_read fun given => .pure _
  rw [presetData]
  split
  · exact .pure _
  · exact .bind (Presets.observes_load _ _) fun presets => .bind (.ofExcept _) fun _ => .pure _

/-- Completing the fields of a message, which may polish the offer, changes no file. -/
theorem MessageOptions.keepsFiles_completeFields (o : MessageOptions) (d : DataDirectory)
    (s : Polish.Settings) : (o.completeFields d s).KeepsFiles := by
  refine .bind observes_today.keepsFiles fun date =>
    .bind (o.observes_fields d date).keepsFiles fun fields =>
      .bind (Task.Observes.ofExcept _).keepsFiles fun terms =>
        .bind (Task.Observes.ofExcept _).keepsFiles fun _ => ?_
  split
  · exact .bind (Polish.keepsFiles_polish _ _) fun _ => (Task.Observes.pure _).keepsFiles
  · exact (Task.Observes.pure _).keepsFiles

/-- Generating a message changes no file. -/
theorem keepsFiles_runGenerate (d : DataDirectory) (o : MessageOptions) :
    (runGenerate d o).KeepsFiles := by
  refine .bind ?_ fun message => (Task.Observes.pure _).keepsFiles
  exact .bind (Settings.observes_loadOrDefault _).keepsFiles fun settings =>
    .bind (o.keepsFiles_completeFields d _) fun fields =>
      .bind (Templates.observes_load _).keepsFiles fun templates =>
        .bind (Task.Observes.ofExcept _).keepsFiles fun template =>
          (Task.Observes.pure _).keepsFiles

/-- Rendering a template file with a record changes nothing. -/
theorem observes_runRender (d : DataDirectory) (file : String) (source : RecordSource) :
    (runRender d file source).Observes :=
  .bind (Settings.observes_loadOrDefault _) fun _ => .bind (observes_readInput _ _) fun _ =>
    .bind source.observes_read fun _ => .pure _

/-- Polishing a text from the command line changes no file. -/
theorem keepsFiles_runPolish (d : DataDirectory) (text : String) :
    (runPolish d text).KeepsFiles :=
  .bind (Settings.observes_loadOrDefault _).keepsFiles fun _ =>
    .bind (Polish.keepsFiles_polish _ _) fun _ => (Task.Observes.pure _).keepsFiles

/-- Whether a command stores nothing: it shows what is stored, or makes a text of it. -/
def Command.isReading : Command → Bool
  | .generate _ | .render _ _ | .presetList | .presetShow _ | .templateList | .templateShow _
  | .polish _ => true
  | _ => false

/-- **A command that stores nothing changes no file.** -/
theorem Command.keepsFiles_runIn {c : Command} (h : c.isReading = true) (d : DataDirectory) :
    (c.runIn d).KeepsFiles := by
  cases c with
  | generate o => exact keepsFiles_runGenerate d o
  | render file source => exact (observes_runRender d file source).keepsFiles
  | presetList => exact (d.observes_loadPresets.bind fun _ => .pure _).keepsFiles
  | presetShow id =>
      exact (d.observes_loadPresets.bind fun _ => .bind (.ofExcept _) fun _ => .pure _).keepsFiles
  | templateList => exact ((Templates.observes_load _).bind fun _ => .pure _).keepsFiles
  | templateShow id =>
      exact ((Templates.observes_load _).bind fun _ => .bind (.ofExcept _) fun _ =>
        .pure _).keepsFiles
  | polish text => exact keepsFiles_runPolish d text
  | _ => exact absurd h (by simp [isReading])

end Outreach
