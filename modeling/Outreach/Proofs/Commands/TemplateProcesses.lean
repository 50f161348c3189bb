import Outreach.Proofs.Commands.TemplateOrders
import Outreach.Proofs.Files.Parents
import Outreach.Proofs.Template.Operations

/-!
# Template Commands as Separate Processes

Each command on templates is a process of its own: it finds the data directory, loads the templates
and stores what it has made of them. In between, nothing but the template file remembers them. Yet a
sequence of such processes does what the same orders do to templates that are held in memory.

The files that contents are read from have to be spared by the saves: none is the template file, or
the file that has the temporary name beside it.

## Main results

* `DataDirectory.resolve_congr`: processes find the same data directory as long as no directory
  changes.
* `Follows.runProcess`: what one process does, by what its order does in memory.
* `runProcesses_refines`: **a sequence of processes does what its orders do in memory.**
* `runProcesses_saves`: no process fails to save if a file can be opened at the temporary name and the
  disk does not fail.
-/

namespace Outreach

/-! ### Processes -/

/-- A **process** carries out an order at a time of its own. -/
structure TemplateProcess where
  clock : Nat
  order : TemplateOrder

namespace World

/-- A world at another time, with no open file: what a new process finds. -/
def restart (w : World) (clock : Nat) : World :=
  { w with clock, handles := [] }

/-- Run one process: a command on templates, started in a world with the clock at its own time. -/
def runProcess (w : World) (named : Option String) (p : TemplateProcess) :
    Except Failure String × World :=
  (w.restart p.clock).runTask (p.order.command.run named)

/-- Run processes one after the other, each in the world that the one before has left. -/
def runProcesses (w : World) (named : Option String) :
    List TemplateProcess → List (Except Failure String) × World
  | [] => ([], w)
  | p :: ps =>
    let (x, v) := w.runProcess named p
    let (xs, u) := v.runProcesses named ps
    (x :: xs, u)

end World

/-- What the orders of processes make of templates that are **held in memory**: an order that fails
changes nothing. -/
def Templates.obeyAll (inputs : String → Except FileError String) (s : Templates) :
    List TemplateProcess → List (Except Failure Templates) × Templates
  | [] => ([], s)
  | p :: ps =>
    let x := s.obey inputs p.clock p.order
    let (xs, s') := (x.toOption.getD s).obeyAll inputs ps
    (x :: xs, s')

/-- The **outcome** of a process or of an order: success, or the class of its failure. -/
def outcome {α : Type} (x : Except Failure α) : Except Failure.Class Unit :=
  (x.mapError Failure.kind).map fun _ => ()

/-- Whether a process has failed to save, which templates in memory cannot. -/
def isUnsaved {α : Type} : Except Failure α → Bool
  | .error f => f.isUnsaved
  | .ok _ => false

/-! ### Orders do not save -/

/-- If neither an outcome nor what follows it fails as a save does, both together do not. -/
theorem isUnsaved_bind {α β : Type} {x : Except Failure α} {f : α → Except Failure β}
    (hx : isUnsaved x = false) (hf : ∀ a, isUnsaved (f a) = false) :
    isUnsaved (x >>= f) = false := by
  cases x with
  | error e => exact hx
  | ok a => exact hf a

/-- What is kept after an edit fails as the edit does. -/
theorem isUnsaved_kept {σ α : Type} (o : Outcome σ α) : isUnsaved o.kept = isUnsaved o.1 := by
  obtain ⟨f | a, s⟩ := o <;> rfl

namespace Templates

variable (s : Templates) (inputs : String → Except FileError String)

/-- Looking a template up by its id does not fail as a save does. -/
theorem isUnsaved_get (id : String) : isUnsaved (s.get id) = false := by
  rw [get]
  split <;> rfl

/-- Choosing a template, by its id or as the active one, does not fail as a save does. -/
theorem isUnsaved_choose (id : Option String) : isUnsaved (s.choose id) = false := by
  cases id with
  | some id => exact s.isUnsaved_get id
  | none =>
      rw [choose]
      split <;> rfl

/-- Adding a template does not fail as a save does, only over its name, its content or a number. -/
theorem isUnsaved_add (clock : Nat) (name content : String) :
    isUnsaved (s.add clock name content).1 = false := by
  rw [add_eq]
  split
  · rfl
  · split <;> rfl

/-- Selecting a template does not fail as a save does. -/
theorem isUnsaved_select (id : String) : isUnsaved (s.select id).1 = false := by
  have hget := s.isUnsaved_get id
  rw [select_eq]
  split
  · rename_i f hf
    rwa [hf] at hget
  · rfl

/-- Updating a template does not fail as a save does. -/
theorem isUnsaved_update (id content : String) : isUnsaved (s.update id content).1 = false := by
  rw [update_eq]
  split <;> rfl

/-- Deleting a template does not fail as a save does. -/
theorem isUnsaved_delete (id : String) : isUnsaved (s.delete id).1 = false := by
  rw [delete_eq]
  split
  · rfl
  · split <;> rfl

/-- Fetching the content of a template from an input file does not fail as a save does. -/
theorem isUnsaved_contentFor (file : Option String) :
    isUnsaved (s.contentFor inputs file) = false := by
  cases file with
  | none => rfl
  | some path =>
      rw [contentFor]
      cases inputs path <;> rfl

/-- No order fails as a save does. -/
theorem isUnsaved_obey (clock : Nat) (o : TemplateOrder) :
    isUnsaved (s.obey inputs clock o) = false := by
  cases o with
  | list => rfl
  | view id => exact isUnsaved_bind (s.isUnsaved_choose id) fun _ => rfl
  | add name file =>
      exact isUnsaved_bind (s.isUnsaved_contentFor inputs file) fun content =>
        (isUnsaved_kept _).trans (s.isUnsaved_add clock name content)
  | update id file =>
      exact isUnsaved_bind (s.isUnsaved_contentFor inputs _) fun content =>
        (isUnsaved_kept _).trans (s.isUnsaved_update id content)
  | delete id => exact (isUnsaved_kept _).trans (s.isUnsaved_delete id)
  | select id => exact (isUnsaved_kept _).trans (s.isUnsaved_select id)
  | reset id =>
      exact isUnsaved_bind (s.isUnsaved_choose id) fun t =>
        (isUnsaved_kept _).trans (s.isUnsaved_update t.id _)

end Templates

/-! ### What processes see -/

/-- A file is read as before if no directory has changed and the file has not. -/
theorem FileTree.SameDirectories.readText_eq {t t' : FileTree} {here : Option Location}
    {path : String} {l : Location} (h : t.SameDirectories t') (hl : t.locate here path = .ok l)
    (hfile : t'.fileAt? l = t.fileAt? l) : t'.readText here path = t.readText here path := by
  have hread : t'.read here path = t.read here path := by
    have hdirectory := h l
    rw [fileAt?, fileAt?] at hfile
    rw [read, read, find, find, hl, h.locate_eq_ok_iff.mpr hl]
    dsimp only
    rcases hk : t.get? l with - | - | id <;> rcases hk' : t'.get? l with - | - | id' <;>
      simp only [hk, hk', reduceCtorEq, iff_false, false_iff, not_true_eq_false] at hdirectory hfile
    · rfl
    · rfl
    · rcases wantsDirectory path with _ | _
      · exact congrArg Except.ok (Option.some.inj hfile)
      · rfl
  rw [readText, readText, hread]

section Congr

variable {α β : Type} {w v : World}

/-- What observes gives the same in two worlds if each of its parts does. -/
theorem World.run_bind_congr {p : Program α} {f : α → Program β} (hobserves : p.Observes)
    (hp : (v.run p).1 = (w.run p).1) (hf : ∀ a, (v.run (f a)).1 = (w.run (f a)).1) :
    (v.run (p >>= f)).1 = (w.run (p >>= f)).1 := by
  rw [Program.bind_eq, World.run_bind, World.run_bind, hobserves v, hobserves w, hp]
  exact hf _

/-- What tasks that observe give is the same in two worlds if each of the parts gives the same in
both. -/
theorem World.runTask_bind_congr {t : Task α} {f : α → Task β} (hobserves : t.Observes)
    (ht : (v.runTask t).1 = (w.runTask t).1)
    (hf : ∀ a, (v.runTask (f a)).1 = (w.runTask (f a)).1) :
    (v.runTask (t >>= f)).1 = (w.runTask (t >>= f)).1 := by
  rw [World.runTask_bind, World.runTask_bind, hobserves.runTask_eq v, hobserves.runTask_eq w, ht]
  rcases (w.runTask t).1 with e | a
  · rfl
  · exact hf a

/-- Two worlds with the same directories give the same first directory among any paths. -/
theorem DataDirectory.firstDirectory?_congr (hsame : w.SameDirectories v) (paths : List String) :
    (v.run (firstDirectory? paths)).1 = (w.run (firstDirectory? paths)).1 := by
  induction paths with
  | nil => rfl
  | cons path paths ih =>
      refine World.run_bind_congr (.request rfl) hsame.isDirectory_eq fun there => ?_
      cases there with
      | true => rfl
      | false => exact ih

/-- **Processes find the same data directory** as long as no directory changes. -/
theorem DataDirectory.resolve_congr (hsame : w.SameDirectories v)
    (henvironment : v.environment = w.environment) (named : Option String) :
    (v.runTask (resolve named)).1 = (w.runTask (resolve named)).1 := by
  cases named with
  | some path => rfl
  | none =>
      refine World.runTask_bind_congr (.request rfl) ?_ fun inherited => ?_
      · exact congrArg (fun environment => Except.ok (environment.lookup variableName)) henvironment
      · split
        · rfl
        · refine World.runTask_bind_congr (.request rfl) ?_ fun here =>
            World.runTask_bind_congr (.orFail _ here) ?_ fun here => ?_
          · rw [World.runTask_request, World.runTask_request, World.answer, World.answer,
              hsame.here]
          · cases here <;> rfl
          · rw [World.runTask_ofProgram, World.runTask_ofProgram]
            exact congrArg Except.ok (World.run_bind_congr (observes_firstDirectory? _)
              (firstDirectory?_congr hsame _) fun _ => rfl)

/-- What is loaded depends on the text of the file alone. -/
theorem StoreFile.load_congr {path : String} (decode : Json → Option α)
    (h : v.textAt path = w.textAt path) :
    (v.runTask (load decode path)).1 = (w.runTask (load decode path)).1 := by
  refine World.runTask_bind_congr (.request rfl) (congrArg Except.ok h) fun text => ?_
  rcases text with e | text
  · cases e <;> rfl
  · dsimp only
    rcases Json.ofText? text with - | json
    · rfl
    · dsimp only
      rcases decode json with - | a <;> rfl

/-- The templates that are loaded depend on the text of their file alone. -/
theorem Templates.load_congr {path : String} (h : v.textAt path = w.textAt path) :
    (v.runTask (Templates.load path)).1 = (w.runTask (Templates.load path)).1 :=
  World.runTask_bind_congr (StoreFile.observes_load _ path) (StoreFile.load_congr _ h) fun _ => rfl

end Congr

/-! ### Following -/

/-- A location that atomic writes to a path **spare**: the path does not lead there, and the file
that has the temporary name beside it does not stand there. -/
def Spared (w : World) (path : String) (k : Location) : Prop :=
  w.files.locate w.workingDirectory path ≠ .ok k ∧ ¬ FormerTemporary w w path k

/-- If nothing stands at the temporary name, all is spared but the place that the path leads to. -/
theorem spared_of_free {w : World} {path : String} {k m : Location} (hm : TemporaryAt w path m)
    (hfree : w.files.get? m = none) (hk : w.files.locate w.workingDirectory path ≠ .ok k) :
    Spared w path k := by
  refine ⟨hk, ?_⟩
  rintro ⟨l, hl, id, -, hfile⟩
  obtain rfl := hl.unique hm
  exact absurd (hfree.symm.trans hfile) (by simp)

/-- What a write spares holds what it held, and is spared by later writes. -/
theorem spared_of_writeAtomically {w v : World} {path : String} {bytes : ByteArray} {k : Location}
    (hsame : w.SameDirectories v) (h : w.runTask (writeAtomically path bytes) = (.ok (), v))
    (hk : Spared w path k) : v.files.fileAt? k = w.files.fileAt? k ∧ Spared v path k := by
  obtain ⟨dir, name, -, htarget, -, htemporary, hgone, hothers⟩ :=
    exists_target_of_writeAtomically h
  have hne : v.files.locate v.workingDirectory path ≠ .ok k := mt hsame.locate_eq_ok_iff.mp hk.1
  have hnot : ∀ m, TemporaryAt v path m → ¬ w.files.SharesFile k m := fun m hm hshares =>
    hk.2 ⟨m, hsame.temporaryAt_iff.mp hm, hshares⟩
  have hkept : v.files.fileAt? k = w.files.fileAt? k := by
    refine hothers k ?_ (hnot _ htemporary)
    rintro rfl
    exact hne htarget
  refine ⟨hkept, hne, ?_⟩
  rintro ⟨m, hm, hshares⟩
  obtain rfl := hm.unique htemporary
  rcases hgone with hgone | ⟨⟨i, -, hi⟩, j, htargetFile, hj⟩
  · obtain ⟨i, -, hfile⟩ := hshares
    exact absurd (hgone.symm.trans hfile) (by simp)
  · -- the temporary name is still one of the target, so what shares it shared it before
    have hend := WriteStage.holds_at_end (WriteStage.Reached.first w path bytes) .step
    rw [h] at hend
    have hkm : k ≠ dir ++ [temporaryName name] := by
      rintro rfl
      exact hnot _ hm ⟨i, hi, hi⟩
    obtain ⟨j', hfile, hj'⟩ := hshares
    obtain rfl := FileEntry.file.inj (Option.some.inj (hj'.symm.trans hj))
    obtain ⟨m', hm', hformer⟩ := hend.formerTemporary_of_sharesFile htarget
      (by rintro rfl; exact hne htarget) (fun hk' => hkm (hk'.unique hm))
      ⟨j', htargetFile, hfile⟩
    exact hnot m' hm' hformer

/-- A world `v` **follows** templates that are held in memory: they are what is loaded from the data
directory, and since the world `w` no more has changed than saves of templates change. -/
structure Follows (w v : World) (d : DataDirectory) (s : Templates) : Prop where
  same : w.SameDirectories v
  environment : v.environment = w.environment
  loads : (v.runTask d.loadTemplates).1 = .ok s
  /-- A location that is spared holds what it held, and is spared further on. -/
  spared (k : Location) (hk : Spared w d.templatesPath k) :
    v.files.fileAt? k = w.files.fileAt? k ∧ Spared v d.templatesPath k

namespace Follows

variable {w v : World} {named : Option String} {d : DataDirectory} {s s' : Templates}
  {p : TemplateProcess} {k l : Location}

/-- A world follows the templates that are loaded in it. -/
theorem refl (h : (w.runTask d.loadTemplates).1 = .ok s) : Follows w w d s :=
  ⟨.refl w, rfl, h, fun _ hk => ⟨rfl, hk⟩⟩

/-- Starting a new process, which forgets handles and reads its own clock, is no change for what
is followed. -/
theorem restart (h : Follows w v d s) (clock : Nat) : Follows w (v.restart clock) d s where
  same := ⟨h.same.here, h.same.directories⟩
  environment := h.environment
  loads := (Templates.load_congr (w := v) (v := v.restart clock) rfl).trans h.loads
  spared := h.spared

/-- A world that follows templates loads them, and is left as it is. -/
theorem runTask_loadTemplates (h : Follows w v d s) : v.runTask d.loadTemplates = (.ok s, v) :=
  ((Templates.observes_load d.templatesPath).runTask_eq v).trans (congrArg (·, v) h.loads)

/-- A file that is spared is read as before, if it can be read at all. -/
theorem toOption_textAt {file : String} (h : Follows w v d s)
    (hspared : ∀ k, w.files.locate w.workingDirectory file = .ok k → Spared w d.templatesPath k) :
    (v.textAt file).toOption = (w.textAt file).toOption := by
  rcases hk : w.files.locate w.workingDirectory file with e | k
  · rcases hk' : v.files.locate v.workingDirectory file with e' | k'
    · simp only [World.textAt, FileTree.readText, FileTree.read, FileTree.find, hk, hk']
      rfl
    · exact absurd (hk.symm.trans (h.same.locate_eq_ok_iff.mp hk')) (by simp)
  · rw [World.textAt, World.textAt, h.same.here,
      h.same.directories.readText_eq hk (h.spared k (hspared k hk)).1]

/-- **A save keeps step** with the templates that are saved. -/
theorem save (h : Follows w v d s)
    (hl : w.files.locate w.workingDirectory d.templatesPath = .ok l) {u : World}
    (hsave : v.runTask (s'.save d.templatesPath) = (.ok (), u)) : Follows w u d s' := by
  have hname : FileTree.endsInName d.templatesPath = true :=
    FileTree.endsInName_join (by decide) (by decide) (by decide) (by decide)
  have hparent := World.hasParent_of_locate (h.same.locate_eq_ok_iff.mpr hl) hname
  have hloads := congrArg Prod.fst (Templates.load_of_save hsave)
  rw [Templates.save, StoreFile.save_eq] at hsave
  have hsame := WriteStage.sameDirectories_runTask hparent (StoreFile.bytes s'.toJson)
  rw [hsave] at hsame
  have henvironment := v.environment_run (writeAtomically d.templatesPath
    (StoreFile.bytes s'.toJson)).run
  rw [← World.runTask, hsave] at henvironment
  refine ⟨h.same.trans hsame, henvironment.trans h.environment, hloads, fun k hk => ?_⟩
  obtain ⟨hkept, hspared⟩ := h.spared k hk
  obtain ⟨hfile, hspared'⟩ := spared_of_writeAtomically hsame hsave hspared
  exact ⟨hfile.trans hkept, hspared'⟩

/-- A save that fails has not opened its temporary file, if the disk does not fail. -/
theorem save_failed (h : Follows w v d s) (hfaultless : v.IsFaultless)
    (hl : w.files.locate w.workingDirectory d.templatesPath = .ok l) {u : World} {f : Failure}
    (hsave : v.runTask (s'.save d.templatesPath) = (.error f, u)) :
    ∃ temporary e, temporaryPath? d.templatesPath = some temporary ∧
      v.files.create v.workingDirectory temporary = .error e ∧
      f = .temporaryNotMade temporary e := by
  have hcheck : (v.runTask (Store.templates.check d)).1 = .ok () := by
    rw [Store.check, World.runTask_bind, h.runTask_loadTemplates]
    rfl
  have hl' := h.same.locate_eq_ok_iff.mpr hl
  rw [Templates.save, StoreFile.save_eq] at hsave
  rcases writeAtomically_of_locate hfaultless hl' (Store.wantsDirectory_path (s := .templates))
    (Store.get?_ne_directory hcheck hl') (StoreFile.bytes s'.toJson) with
    ⟨v', hv'⟩ | ⟨temporary, e, htemporary, hcreate, hrefused⟩
  · exact absurd (hv'.symm.trans hsave) (by simp)
  · refine ⟨temporary, e, htemporary, hcreate, ?_⟩
    exact (Except.error.inj (congrArg Prod.fst (hrefused.symm.trans hsave))).symm

/-- **What one process does**, by what its order makes of the templates in memory: it fails as the
order does, or shows something, or saves what the order has made. -/
theorem runProcess_cases (h : Follows w v d s)
    (hd : (w.runTask (DataDirectory.resolve named)).1 = .ok d) (p : TemplateProcess) :
    let u := v.restart p.clock
    let x := s.obey u.textAt p.clock p.order
    (∃ f, x = .error f ∧ v.runProcess named p = (.error f, u)) ∨
      (∃ text, x = .ok s ∧ v.runProcess named p = (.ok text, u)) ∨
      ∃ s' text, x = .ok s' ∧ p.order.isReading = false ∧
        v.runProcess named p = ((u.runTask (s'.save d.templatesPath)).1.map fun _ => text,
          (u.runTask (s'.save d.templatesPath)).2) := by
  intro u x
  have hu : Follows w u d s := h.restart p.clock
  have hrun : v.runProcess named p = u.runTask (p.order.command.runIn d) := by
    rw [World.runProcess, Command.runTask_run,
      DataDirectory.resolve_congr hu.same hu.environment, hd]
  rw [hrun]
  cases hreading : p.order.isReading with
  | true =>
      have hshows : Task.Shows u x (p.order.command.runIn d) :=
        TemplateOrder.shows_command hu.runTask_loadTemplates hreading
      rcases hx : x with f | s'
      · rw [hx] at hshows
        cases hshows with
        | failed hfailed => exact .inl ⟨f, rfl, hfailed⟩
      · rw [hx] at hshows
        obtain rfl := TemplateOrder.obey_of_isReading hreading hx
        cases hshows with
        | shown text hshown => exact .inr (.inl ⟨text, rfl, hshown⟩)
  | false =>
      have hstores : Task.Stores d u x (p.order.command.runIn d) :=
        TemplateOrder.stores_command hu.runTask_loadTemplates hreading
      rcases hx : x with f | s'
      · rw [hx] at hstores
        cases hstores with
        | failed hfailed => exact .inl ⟨f, rfl, hfailed⟩
      · rw [hx] at hstores
        cases hstores with
        | saved text hsaved =>
            exact .inr (.inr ⟨s', text, rfl, rfl, hsaved.trans (runTask_save_return u _ _ text)⟩)

/-- **One process does what its order does in memory**, if it does not fail to save. -/
theorem runProcess (h : Follows w v d s)
    (hd : (w.runTask (DataDirectory.resolve named)).1 = .ok d)
    (hl : w.files.locate w.workingDirectory d.templatesPath = .ok l)
    (hinput : ∀ file, p.order.input? = some file →
      ∀ k, w.files.locate w.workingDirectory file = .ok k → Spared w d.templatesPath k)
    (hsaved : isUnsaved (v.runProcess named p).1 = false) :
    let x := s.obey w.textAt p.clock p.order
    outcome (v.runProcess named p).1 = outcome x ∧
      Follows w (v.runProcess named p).2 d (x.toOption.getD s) ∧
      (p.order.isReading = true ∨ outcome (v.runProcess named p).1 ≠ .ok () →
        (v.runProcess named p).2.files = v.files) := by
  intro x
  let u := v.restart p.clock
  have hu : Follows w u d s := h.restart p.clock
  have hobey : (s.obey u.textAt p.clock p.order).mapError Failure.kind = x.mapError Failure.kind :=
    Templates.obey_congr p.clock fun file hfile => hu.toOption_textAt (hinput file hfile)
  have houtcome : outcome (s.obey u.textAt p.clock p.order) = outcome x :=
    congrArg (Except.map fun _ => ()) hobey
  rw [← houtcome, ← toOption_eq_of_mapError_eq hobey]
  rcases h.runProcess_cases hd p with
    ⟨f, hx, hrun⟩ | ⟨text, hx, hrun⟩ | ⟨s', text, hx, hreading, hrun⟩ <;> rw [hx, hrun]
  · exact ⟨rfl, hu, fun _ => rfl⟩
  · exact ⟨rfl, hu, fun _ => rfl⟩
  · rcases hsave : u.runTask (s'.save d.templatesPath) with ⟨f | ⟨⟨⟩⟩, v'⟩
    · have hunsaved : f.isUnsaved = true := isUnsaved_of_writeAtomically hsave
      rw [hrun, hsave] at hsaved
      exact absurd hsaved (by simp [Except.map, isUnsaved, hunsaved])
    · refine ⟨rfl, hu.save hl hsave, fun hidle => ?_⟩
      rcases hidle with hidle | hidle
      · exact absurd (hreading.symm.trans hidle) (by simp)
      · exact absurd rfl hidle

/-- **Processes do what their orders do in memory**, one after the other. -/
theorem runProcesses {ps : List TemplateProcess} (h : Follows w v d s)
    (hd : (w.runTask (DataDirectory.resolve named)).1 = .ok d)
    (hl : w.files.locate w.workingDirectory d.templatesPath = .ok l)
    (hinputs : ∀ p ∈ ps, ∀ file, p.order.input? = some file →
      ∀ k, w.files.locate w.workingDirectory file = .ok k → Spared w d.templatesPath k)
    (hsaved : ∀ y ∈ (v.runProcesses named ps).1, isUnsaved y = false) :
    (v.runProcesses named ps).1.map outcome = (s.obeyAll w.textAt ps).1.map outcome ∧
      Follows w (v.runProcesses named ps).2 d (s.obeyAll w.textAt ps).2 ∧
      ((∀ q ∈ ps.zip (v.runProcesses named ps).1,
          q.1.order.isReading = true ∨ outcome q.2 ≠ .ok ()) →
        (v.runProcesses named ps).2.files = v.files) := by
  induction ps generalizing v s with
  | nil => exact ⟨rfl, h, fun _ => rfl⟩
  | cons p ps ih =>
      obtain ⟨houtcome, hfollows, hidle⟩ := h.runProcess hd hl
        (hinputs p List.mem_cons_self) (hsaved _ List.mem_cons_self)
      obtain ⟨houtcomes, hfollows', hidle'⟩ := ih hfollows
        (fun q hq => hinputs q (List.mem_cons_of_mem p hq))
        (fun y hy => hsaved y (List.mem_cons_of_mem _ hy))
      refine ⟨?_, hfollows', fun hall => ?_⟩
      · exact congr (congrArg List.cons houtcome) houtcomes
      · exact (hidle' fun q hq => hall q (List.mem_cons_of_mem _ hq)).trans
          (hidle (hall _ List.mem_cons_self))

/-- If a file could be opened at the temporary name, it still can. -/
theorem exists_create (h : Follows w v d s) {temporary : String} {r : FileId × FileTree}
    (hcreate : w.files.create w.workingDirectory temporary = .ok r) :
    ∃ r', v.files.create v.workingDirectory temporary = .ok r' := by
  obtain ⟨m, hm, hname, hwants, hopened⟩ := FileTree.create_eq_ok hcreate
  exact FileTree.exists_create_eq_ok (h.same.locate_eq_ok_iff.mpr hm) hname hwants
    (mt (h.same.directories m).mp hopened.free)

/-- A process saves if a file can be opened at the temporary name and the disk does not fail. -/
theorem isUnsaved_runProcess (h : Follows w v d s) (hfaultless : v.IsFaultless)
    (hd : (w.runTask (DataDirectory.resolve named)).1 = .ok d)
    (hl : w.files.locate w.workingDirectory d.templatesPath = .ok l) {temporary : String}
    {r : FileId × FileTree} (htemporary : temporaryPath? d.templatesPath = some temporary)
    (hcreate : w.files.create w.workingDirectory temporary = .ok r) (p : TemplateProcess) :
    isUnsaved (v.runProcess named p).1 = false := by
  rcases h.runProcess_cases hd p with
    ⟨f, hx, hrun⟩ | ⟨text, -, hrun⟩ | ⟨s', text, -, -, hrun⟩ <;> rw [hrun]
  · exact (congrArg isUnsaved hx.symm).trans (Templates.isUnsaved_obey _ _ _ _)
  · rfl
  · have hu : Follows w (v.restart p.clock) d s := h.restart p.clock
    rcases hsave : (v.restart p.clock).runTask (s'.save d.templatesPath) with ⟨f | ⟨⟨⟩⟩, u⟩
    · obtain ⟨temporary', e, htemporary', hrefused, -⟩ := hu.save_failed hfaultless hl hsave
      obtain rfl := Option.some.inj (htemporary.symm.trans htemporary')
      obtain ⟨r', hr'⟩ := hu.exists_create hcreate
      exact absurd (hr'.symm.trans hrefused) (by simp)
    · rfl

/-- While every process can save, none of them fails as a save does, by induction on the
processes. -/
theorem isUnsaved_runProcesses {ps : List TemplateProcess} (h : Follows w v d s)
    (hfaultless : v.IsFaultless)
    (hd : (w.runTask (DataDirectory.resolve named)).1 = .ok d)
    (hl : w.files.locate w.workingDirectory d.templatesPath = .ok l)
    (hinputs : ∀ p ∈ ps, ∀ file, p.order.input? = some file →
      ∀ k, w.files.locate w.workingDirectory file = .ok k → Spared w d.templatesPath k)
    {temporary : String} {r : FileId × FileTree}
    (htemporary : temporaryPath? d.templatesPath = some temporary)
    (hcreate : w.files.create w.workingDirectory temporary = .ok r) :
    ∀ y ∈ (v.runProcesses named ps).1, isUnsaved y = false := by
  induction ps generalizing v s with
  | nil => exact fun y hy => absurd hy (by simp [World.runProcesses])
  | cons p ps ih =>
      have hsaved := h.isUnsaved_runProcess hfaultless hd hl htemporary hcreate p
      obtain ⟨-, hfollows, -⟩ := h.runProcess hd hl (hinputs p List.mem_cons_self) hsaved
      intro y hy
      rcases List.mem_cons.mp hy with rfl | hy
      · exact hsaved
      · exact ih hfollows (World.IsFaultless.run (w := v.restart p.clock) hfaultless _)
          (fun q hq => hinputs q (List.mem_cons_of_mem p hq)) y hy

end Follows

/-- The path of the templates leads somewhere if they are loaded, and if the data directory is there
or the file is. -/
theorem exists_locate_templatesPath {w : World} {d : DataDirectory} {s : Templates}
    (hload : (w.runTask d.loadTemplates).1 = .ok s)
    (hthere : w.files.isDirectory w.workingDirectory d.path = true ∨
      ∃ text, w.textAt d.templatesPath = .ok text) :
    ∃ l, w.files.locate w.workingDirectory d.templatesPath = .ok l := by
  rcases hthere with hdirectory | ⟨text, htext⟩
  · obtain ⟨dir, hdir, hthere⟩ := FileTree.isDirectory_iff.mp hdirectory
    have hslash : '/' ∉ "templates.json".toList := by decide
    rcases FileTree.exists_locate_join hslash (by decide) (by decide) (by decide) (by decide)
      (by decide) hdir hthere with hl | hlong
    · exact ⟨_, hl⟩
    · -- a path that is too long cannot be loaded
      have htext : w.textAt d.templatesPath = .error .nameTooLong := by
        rw [World.textAt, FileTree.readText, FileTree.read, FileTree.find,
          DataDirectory.templatesPath, hlong]
      rw [DataDirectory.loadTemplates, Templates.load, World.runTask_bind,
        StoreFile.load_of_unreadable _ htext (by simp)] at hload
      exact absurd hload (by simp)
  · rcases hl : w.files.locate w.workingDirectory d.templatesPath with e | l
    · rw [World.textAt, FileTree.readText, FileTree.read, FileTree.find, hl] at htext
      exact absurd htext (by simp)
    · exact ⟨l, rfl⟩

/-- A sequence of processes **refines** the templates `s` that are held in memory. -/
structure Refines (w : World) (named : Option String) (d : DataDirectory) (s : Templates)
    (ps : List TemplateProcess) : Prop where
  /-- Each process succeeds, or fails in its class, as its order does in memory. -/
  outcomes : (w.runProcesses named ps).1.map outcome = (s.obeyAll w.textAt ps).1.map outcome
  /-- The data directory is found as before. -/
  directory : ((w.runProcesses named ps).2.runTask (DataDirectory.resolve named)).1 = .ok d
  /-- The templates in it are those in memory. -/
  loaded : ((w.runProcesses named ps).2.runTask d.loadTemplates).1 = .ok (s.obeyAll w.textAt ps).2
  /-- No file has changed if all processes have only looked or have failed. -/
  untouched (hidle : ∀ q ∈ ps.zip (w.runProcesses named ps).1,
    q.1.order.isReading = true ∨ outcome q.2 ≠ .ok ()) :
    (w.runProcesses named ps).2.files = w.files

/-- **A sequence of processes does what its orders do in memory**, if no process fails to save and
all input files are spared. -/
theorem runProcesses_refines (w : World) (named : Option String) (d : DataDirectory) (s : Templates)
    (ps : List TemplateProcess) (hd : (w.runTask (DataDirectory.resolve named)).1 = .ok d)
    (hload : (w.runTask d.loadTemplates).1 = .ok s)
    (hthere : w.files.isDirectory w.workingDirectory d.path = true ∨
      ∃ text, w.textAt d.templatesPath = .ok text)
    (hinputs : ∀ p ∈ ps, ∀ file, p.order.input? = some file →
      ∀ k, w.files.locate w.workingDirectory file = .ok k → Spared w d.templatesPath k)
    (hsaved : ∀ y ∈ (w.runProcesses named ps).1, isUnsaved y = false) :
    Refines w named d s ps := by
  obtain ⟨l, hl⟩ := exists_locate_templatesPath hload hthere
  obtain ⟨houtcomes, hfollows, hidle⟩ := (Follows.refl hload).runProcesses hd hl hinputs hsaved
  exact ⟨houtcomes, (DataDirectory.resolve_congr hfollows.same hfollows.environment named).trans hd,
    hfollows.loads, hidle⟩

/-- **No process fails to save** if a file can be opened at the temporary name to begin with and the
disk does not fail. -/
theorem runProcesses_saves {w : World} {named : Option String} {d : DataDirectory} {s : Templates}
    {ps : List TemplateProcess} (hfaultless : w.IsFaultless)
    (hd : (w.runTask (DataDirectory.resolve named)).1 = .ok d)
    (hload : (w.runTask d.loadTemplates).1 = .ok s)
    (hthere : w.files.isDirectory w.workingDirectory d.path = true ∨
      ∃ text, w.textAt d.templatesPath = .ok text)
    (hinputs : ∀ p ∈ ps, ∀ file, p.order.input? = some file →
      ∀ k, w.files.locate w.workingDirectory file = .ok k → Spared w d.templatesPath k)
    (hopen : ∃ temporary r, temporaryPath? d.templatesPath = some temporary ∧
      w.files.create w.workingDirectory temporary = .ok r) :
    ∀ y ∈ (w.runProcesses named ps).1, isUnsaved y = false := by
  obtain ⟨temporary, r, htemporary, hcreate⟩ := hopen
  obtain ⟨l, hl⟩ := exists_locate_templatesPath hload hthere
  exact (Follows.refl hload).isUnsaved_runProcesses hfaultless hd hl hinputs htemporary hcreate

/-- In a new data directory a template is added from a file, one that is not there is not deleted,
and the one that was added is reset. -/
theorem runProcesses_refines_new :
    let w := ((default : World).runTask (do
      let _ ← Task.request (.makeDirectories "x")
      writeTextAtomically "in.txt" "hello")).2
    let ps : List TemplateProcess :=
      [⟨5, .list⟩, ⟨7, .add "n" (some "in.txt")⟩, ⟨8, .delete "gone"⟩, ⟨9, .reset none⟩]
    Refines w (some "x") ⟨"x"⟩ .builtIn ps := by
  intro w ps
  let d : DataDirectory := ⟨"x"⟩
  have hd : ∀ w : World, (w.runTask (DataDirectory.resolve (some "x"))).1 = .ok d := fun _ => rfl
  have hthere : w.files.isDirectory w.workingDirectory d.path = true := by decide +kernel
  have hinput : (w.files.locate w.workingDirectory "in.txt").toOption = some ["in.txt"] := by
    decide +kernel
  have htarget : (w.files.locate w.workingDirectory d.templatesPath).toOption =
      some ["x", "templates.json"] := by decide +kernel
  have hmissing : w.files.get? ["x", "templates.json"] = none := by decide +kernel
  have hpath : temporaryPath? d.templatesPath = some "x/.templates.json.tmp" := by decide +kernel
  have htemporary : (w.files.locate w.workingDirectory "x/.templates.json.tmp").toOption =
      some ["x", ".templates.json.tmp"] := by decide +kernel
  have hfree : w.files.get? ["x", ".templates.json.tmp"] = none := by decide +kernel
  have hfaultless : w.IsFaultless := by
    have hnone : w.faults = [] := by decide +kernel
    simp [World.IsFaultless, hnone]
  change Refines w (some "x") d .builtIn ps
  clear_value w d
  have hspared : ∀ p ∈ ps, ∀ file, p.order.input? = some file →
      ∀ k, w.files.locate w.workingDirectory file = .ok k → Spared w d.templatesPath k := by
    intro p hp file hfile k hk
    obtain rfl : file = "in.txt" := by
      simp only [ps, List.mem_cons, List.not_mem_nil, or_false] at hp
      rcases hp with rfl | rfl | rfl | rfl <;> simp [TemplateOrder.input?] at hfile
      exact hfile.symm
    obtain rfl := Except.ok.inj ((eq_ok_of_toOption_eq hinput).symm.trans hk)
    refine spared_of_free ⟨_, hpath, eq_ok_of_toOption_eq htemporary⟩ hfree fun hk' => ?_
    exact absurd ((eq_ok_of_toOption_eq htarget).symm.trans hk') (by simp)
  obtain ⟨r, hcreate⟩ := FileTree.exists_create_eq_ok (eq_ok_of_toOption_eq htemporary) (by decide)
    (by decide) (by simp [hfree])
  have hload : (w.runTask d.loadTemplates).1 = .ok .builtIn := by
    have htext : w.textAt d.templatesPath = .error .notFound := by
      rw [World.textAt, FileTree.readText, FileTree.read, FileTree.find,
        eq_ok_of_toOption_eq htarget]
      simp only [hmissing]
    rw [DataDirectory.loadTemplates, Templates.load, World.runTask_bind,
      StoreFile.load_of_missing _ htext]
    rfl
  exact runProcesses_refines w (some "x") d .builtIn ps (hd w) hload (.inl hthere) hspared
    (runProcesses_saves hfaultless (hd w) hload (.inl hthere) hspared ⟨_, r, hpath, hcreate⟩)

end Outreach