import Outreach.Proofs.Commands.Observation
import Outreach.Proofs.Files.Course
import Outreach.Proofs.StoreFile.RoundTrip

/-!
# What Commands Leave Alone

A command that changes presets or templates loads them first. If anything goes wrong before it saves
them, it has changed nothing. Saving then changes one file and the temporary one beside it.

A save can still fail. If the path of the store leads somewhere and the disk does not fail, nothing
has changed then. If it leads nowhere, the missing directories have been made, and only now may it
turn out that the path leads to a directory, by way of `..`; a file that had the temporary name there
is lost, as it is if the disk fails.

By way of `..` the path of a store can also come to lead to a file that was out of reach when the
store was loaded. That file is written over, even if it could not have been loaded.

## Main results

* `Command.storesTo_runIn`: a command that changes a store fails with no change, or has loaded the
  store and saves it.
* `Command.run_framed`: **what a command leaves alone.**
* `Command.run_loses_files`: what it does not.
-/

namespace Outreach

/-! ### Loading a store -/

/-- The text of the file that a path stands for. -/
def World.textAt (w : World) (path : String) : Except FileError String :=
  w.files.readText w.workingDirectory path

namespace StoreFile

variable {α : Type} {w : World} {path : String} (decode : Json → Option α)

/-- A store is saved by an atomic write. -/
theorem save_eq (json : Json) (path : String) :
    save json path = writeAtomically path (bytes json) := rfl

/-- A store file ends in a line break. -/
theorem bytes_ne (json : Json) {other : String} (h : other.toList.getLast? ≠ some '\n') :
    bytes json ≠ other.toUTF8 := by
  intro he
  rw [bytes, String.toUTF8_eq_toByteArray, String.toUTF8_eq_toByteArray, String.toByteArray_inj]
    at he
  rw [← he, text, String.toList_append] at h
  exact h (by simp)

/-- A store file that is missing holds nothing. -/
theorem load_of_missing (h : w.textAt path = .error .notFound) :
    w.runTask (load decode path) = (.ok none, w) := by
  rw [World.textAt] at h
  rw [load, World.runTask_bind, World.runTask_request]
  simp only [World.answer, h]
  rfl

/-- A store file that cannot be read is a failure. -/
theorem load_of_unreadable {e : FileError} (h : w.textAt path = .error e) (he : e ≠ .notFound) :
    w.runTask (load decode path) = (.error (.storeUnreadable path e), w) := by
  rw [World.textAt] at h
  rw [load, World.runTask_bind, World.runTask_request]
  simp only [World.answer, h]
  rfl

end StoreFile

/-! ### Stores -/

/-- The **stores** that commands change: each command that stores anything stores one of them. -/
inductive Store where
  | presets
  | templates
  deriving DecidableEq, Repr

namespace Store

/-- The name of the file of a store, in the data directory. -/
def name : Store → String
  | presets => "presets.json"
  | templates => "templates.json"

/-- The path of a store, which its temporary file stands beside. -/
def path (d : DataDirectory) (s : Store) : String :=
  Path.join d.path s.name

/-- Load a store to see whether it can be loaded. -/
def check (d : DataDirectory) : Store → Task Unit
  | presets => do
    let _ ← d.loadPresets
    return ()
  | templates => do
    let _ ← d.loadTemplates
    return ()

variable {w : World} {t : FileTree} {here : Option Location} {d : DataDirectory} {s : Store}
  {l : Location}

/-- Loading a store to check it changes nothing. -/
theorem observes_check (d : DataDirectory) (s : Store) : (s.check d).Observes := by
  cases s with
  | presets => exact .bind d.observes_loadPresets fun _ => .pure _
  | templates => exact .bind (Templates.observes_load _) fun _ => .pure _

/-- The path of a store leads to its name in the data directory. -/
theorem locate_path (hl : t.locate here (s.path d) = .ok l) :
    ∃ dir, l = dir ++ [s.name] ∧ t.get? dir = some .directory ∧
      (d.path ≠ "" → t.locate here d.path = .ok dir) := by
  cases s <;> exact FileTree.locate_join (by decide) (by decide) (by decide) (by decide) hl

/-- The path of a store does not end in a slash, so it does not ask for a directory. -/
theorem wantsDirectory_path : FileTree.wantsDirectory (s.path d) = false := by
  cases s <;> exact FileTree.wantsDirectory_join (by decide) (by decide)

/-- A store that is loaded is no directory. -/
theorem get?_ne_directory (hcheck : (w.runTask (s.check d)).1 = .ok ())
    (hl : w.files.locate w.workingDirectory (s.path d) = .ok l) :
    w.files.get? l ≠ some .directory := by
  intro hdirectory
  have htext : w.textAt (s.path d) = .error .isDirectory := by
    rw [World.textAt, FileTree.readText, FileTree.read, FileTree.find, hl]
    simp only [hdirectory]
  have hrun : w.runTask (s.check d) = (.ok (), w) := by
    rw [(observes_check d s).runTask_eq w, hcheck]
  cases s with
  | presets =>
      obtain ⟨p, u, hp, -⟩ := World.runTask_bind_eq_ok.mp hrun
      obtain ⟨date, v, hdate, hp⟩ := World.runTask_bind_eq_ok.mp hp
      obtain rfl : w = v := by
        rw [observes_today.runTask_eq w] at hdate
        exact congrArg Prod.snd hdate
      obtain ⟨x, u', hx, -⟩ := World.runTask_bind_eq_ok.mp hp
      exact absurd ((StoreFile.load_of_unreadable _ htext (by simp)).symm.trans hx) (by simp)
  | templates =>
      obtain ⟨p, u, hp, -⟩ := World.runTask_bind_eq_ok.mp hrun
      obtain ⟨x, u', hx, -⟩ := World.runTask_bind_eq_ok.mp hp
      exact absurd ((StoreFile.load_of_unreadable _ htext (by simp)).symm.trans hx) (by simp)

end Store

/-! ### Tasks that store -/

namespace Task

/-- A task that **saves**: it fails with no change, or all that it does is to save something. -/
def SavesTo (path : String) (t : Task String) : Prop :=
  ∀ w : World, (∃ f, w.runTask t = (.error f, w)) ∨
    ∃ json text, w.runTask t = w.runTask (do StoreFile.save json path; return text)

/-- A task that **saves a store that it has loaded**. -/
def StoresTo (d : DataDirectory) (s : Store) (t : Task String) : Prop :=
  ∀ w : World, (∃ f, w.runTask t = (.error f, w)) ∨
    (w.runTask (s.check d)).1 = .ok () ∧
      ∃ json text, w.runTask t = w.runTask (do StoreFile.save json (s.path d); return text)

variable {α : Type} {path : String} {d : DataDirectory} {s : Store}

/-- Saving a store and giving a text saves to the path of the store, and to no other. -/
theorem SavesTo.save (json : Json) (text : String) :
    SavesTo path (do StoreFile.save json path; return text) :=
  fun _ => .inr ⟨json, text, rfl⟩

/-- A task that observes may come before one that saves to a path. -/
theorem SavesTo.bind {t : Task α} {f : α → Task String} (ht : t.Observes)
    (hf : ∀ a, (f a).SavesTo path) : (t >>= f).SavesTo path := by
  intro w
  rw [World.runTask_bind, ht.runTask_eq w]
  rcases (w.runTask t).1 with e | a
  · exact .inl ⟨e, rfl⟩
  · exact hf a w

/-- A task that observes may come before one that stores to a store of a directory. -/
theorem StoresTo.bind {t : Task α} {f : α → Task String} (ht : t.Observes)
    (hf : ∀ a, (f a).StoresTo d s) : (t >>= f).StoresTo d s := by
  intro w
  rw [World.runTask_bind, ht.runTask_eq w]
  rcases (w.runTask t).1 with e | a
  · exact .inl ⟨e, rfl⟩
  · exact hf a w

/-- Loading the presets before a task that saves to their path stores to the presets. -/
theorem StoresTo.presets {f : Presets → Task String}
    (hf : ∀ p, (f p).SavesTo (Store.presets.path d)) :
    (d.loadPresets >>= f).StoresTo d .presets := by
  intro w
  have hload := d.observes_loadPresets.runTask_eq w
  rw [World.runTask_bind, Store.check, World.runTask_bind]
  rw [hload]
  rcases (w.runTask d.loadPresets).1 with e | p
  · exact .inl ⟨e, rfl⟩
  · exact (hf p w).imp_right fun h => ⟨rfl, h⟩

/-- Loading the templates before a task that saves to their path stores to the templates. -/
theorem StoresTo.templates {f : Templates → Task String}
    (hf : ∀ p, (f p).SavesTo (Store.templates.path d)) :
    (d.loadTemplates >>= f).StoresTo d .templates := by
  intro w
  have hload := (Templates.observes_load d.templatesPath).runTask_eq w
  rw [World.runTask_bind, Store.check, World.runTask_bind, DataDirectory.loadTemplates]
  rw [hload]
  rcases (w.runTask (Templates.load d.templatesPath)).1 with e | p
  · exact .inl ⟨e, rfl⟩
  · exact (hf p w).imp_right fun h => ⟨rfl, h⟩

end Task

/-- The store that a command changes, if it is one that changes a store. -/
def Command.changes? : Command → Option Store
  | .presetAdd _ _ | .presetDelete _ => some .presets
  | .templateAdd _ _ | .templateUpdate _ _ | .templateDelete _ | .templateSelect _
  | .templateReset _ => some .templates
  | _ => none

/-- **A command that changes a store** fails with no change, or has loaded the store and saves
it. -/
theorem Command.storesTo_runIn {c : Command} {s : Store} (h : c.changes? = some s)
    (d : DataDirectory) : (c.runIn d).StoresTo d s := by
  cases c with
  | presetAdd name source =>
      obtain rfl := Option.some.inj h
      exact .bind observes_today fun _ => .bind source.observes_read fun _ =>
        .bind (.ofExcept _) fun _ => .presets fun _ => .bind observes_now fun _ =>
          .bind (.ofExcept _) fun _ => .save _ _
  | presetDelete id =>
      obtain rfl := Option.some.inj h
      exact .presets fun _ => .bind (.ofExcept _) fun _ => .save _ _
  | templateAdd name file =>
      obtain rfl := Option.some.inj h
      refine .templates fun s => .bind ?_ fun content => .bind observes_now fun _ =>
        .bind (.ofExcept _) fun _ => .save _ _
      cases file with
      | none => exact .pure _
      | some path => exact observes_readInput _ _
  | templateUpdate id file =>
      obtain rfl := Option.some.inj h
      exact .bind (observes_readInput _ _) fun _ => .templates fun _ => .bind (.ofExcept _) fun _ =>
        .save _ _
  | templateDelete id =>
      obtain rfl := Option.some.inj h
      exact .templates fun _ => .bind (.ofExcept _) fun _ => .save _ _
  | templateSelect id =>
      obtain rfl := Option.some.inj h
      exact .templates fun _ => .bind (.ofExcept _) fun _ => .save _ _
  | templateReset id =>
      obtain rfl := Option.some.inj h
      exact .templates fun _ => .bind (.ofExcept _) fun _ => .bind (.ofExcept _) fun _ => .save _ _
  | _ => exact absurd h (by simp [changes?])

/-! ### Saving a store -/

section Saving

variable {w v : World} {d : DataDirectory} {s : Store} {json : Json}

/-- Saving with something to say afterwards fails when saving does. -/
theorem runTask_save_return (w : World) (json : Json) (path text : String) :
    w.runTask (do StoreFile.save json path; return text) =
      ((w.runTask (StoreFile.save json path)).1.map fun _ => text,
        (w.runTask (StoreFile.save json path)).2) := by
  rw [World.runTask_bind]
  rcases w.runTask (StoreFile.save json path) with ⟨e | ⟨⟨⟩⟩, v⟩ <;> rfl

/-- A store that has been saved is in the data directory, with nothing at the temporary name beside
it unless both were names of one file, and all other files are as they were, except a former
temporary file. -/
theorem exists_of_save (h : w.runTask (StoreFile.save json (s.path d)) = (.ok (), v)) :
    ∃ dir, v.files.locate v.workingDirectory (s.path d) = .ok (dir ++ [s.name]) ∧
      (d.path ≠ "" → v.files.locate v.workingDirectory d.path = .ok dir) ∧
      (v.files.get? (dir ++ [temporaryName s.name]) = none ∨
        w.files.SharesFile (dir ++ [s.name]) (dir ++ [temporaryName s.name]) ∧
          v.files.SharesFile (dir ++ [s.name]) (dir ++ [temporaryName s.name])) ∧
      ∀ k, k ≠ dir ++ [s.name] → ¬ w.files.SharesFile k (dir ++ [temporaryName s.name]) →
        v.files.fileAt? k = w.files.fileAt? k := by
  obtain ⟨dir, name, -, hl, -, -, hgone, hothers⟩ := exists_target_of_writeAtomically h
  obtain ⟨dir', hdir, -, hpath⟩ := Store.locate_path hl
  obtain ⟨rfl, hname⟩ := List.append_inj' hdir rfl
  obtain rfl : name = s.name := (List.cons.inj hname).1
  exact ⟨dir, hl, hpath, hgone, hothers⟩

/-- A store that has been loaded and whose path leads somewhere is saved, or nothing has changed, if
the disk does not fail. -/
theorem eq_of_save_failed {f : Failure} {l : Location} (hfaultless : w.IsFaultless)
    (hcheck : (w.runTask (s.check d)).1 = .ok ())
    (hl : w.files.locate w.workingDirectory (s.path d) = .ok l)
    (h : w.runTask (StoreFile.save json (s.path d)) = (.error f, v)) : v = w := by
  rcases writeAtomically_of_locate hfaultless hl Store.wantsDirectory_path
    (Store.get?_ne_directory hcheck hl) (StoreFile.bytes json) with
    ⟨u, hu⟩ | ⟨temporary, e, -, -, hrefused⟩
  · exact absurd (hu.symm.trans h) (by simp)
  · exact (congrArg Prod.snd (hrefused.symm.trans h)).symm

/-- A save that fails changes no file, except that a former temporary file may be lost if the path
of the store led nowhere before, or if the disk fails. -/
theorem fileAt?_of_save_failed {f : Failure} (hcheck : (w.runTask (s.check d)).1 = .ok ())
    (h : w.runTask (StoreFile.save json (s.path d)) = (.error f, v)) (k : Location) :
    v.files.fileAt? k = w.files.fileAt? k ∨
      ((∀ l, w.files.locate w.workingDirectory (s.path d) ≠ .ok l) ∨ ¬ w.IsFaultless) ∧
        FormerTemporary w v (s.path d) k := by
  by_cases hformer : FormerTemporary w v (s.path d) k
  case neg =>
    rw [StoreFile.save_eq] at h
    exact .inl (fileAt?_of_writeAtomically_failed h hformer)
  by_cases hfaultless : w.IsFaultless
  case neg => exact .inr ⟨.inr hfaultless, hformer⟩
  by_cases hl : ∃ l, w.files.locate w.workingDirectory (s.path d) = .ok l
  · obtain ⟨l, hl⟩ := hl
    rw [eq_of_save_failed hfaultless hcheck hl h]
    exact .inl rfl
  · exact .inr ⟨.inl fun l hk => hl ⟨l, hk⟩, hformer⟩

end Saving

/-! ### What a command leaves alone -/

/-- Whether a task fails, in a world as it is. -/
def World.fails {α : Type} (w : World) (t : Task α) : Bool :=
  match w.runTask t with
  | (.error _, _) => true
  | (.ok _, _) => false

/-- A task that fails in a world ends there with some failure. -/
theorem World.exists_of_fails {α : Type} {w : World} {t : Task α} (h : w.fails t = true) :
    ∃ f, w.runTask t = (.error f, (w.runTask t).2) := by
  rw [fails] at h
  split at h
  · rename_i f v hrun
    exact ⟨f, by rw [hrun]⟩
  · simp at h

/-- A command, with the data directory named for it, **leaves alone** all files but those of its
store. -/
structure Command.Framed (w : World) (named : Option String) (c : Command) : Prop where
  /-- A command that stores nothing changes no file. -/
  reading (hc : c.changes? = none) : (w.runTask (c.run named)).2.files = w.files
  /-- A command that fails changes no file, except that a former temporary file beside its store may
  be lost if the path of the store led nowhere before, or if the disk fails. -/
  failed (v : World) (f : Failure) (hv : w.runTask (c.run named) = (.error f, v)) (k : Location) :
    v.files.fileAt? k = w.files.fileAt? k ∨
      ∃ d s, (w.runTask (DataDirectory.resolve named)).1 = .ok d ∧ c.changes? = some s ∧
        ((∀ l, w.files.locate w.workingDirectory (s.path d) ≠ .ok l) ∨ ¬ w.IsFaultless) ∧
        FormerTemporary w v (s.path d) k
  /-- A command whose store cannot be loaded fails and changes nothing at all. -/
  unloaded (d : DataDirectory) (s : Store) (f : Failure)
    (hd : (w.runTask (DataDirectory.resolve named)).1 = .ok d) (hs : c.changes? = some s)
    (hf : (w.runTask (s.check d)).1 = .error f) : ∃ f', w.runTask (c.run named) = (.error f', w)
  /-- A command that has changed its store has left it in the data directory with nothing at the
  temporary name beside it, unless both were names of one file, and has changed no other file, except
  a former temporary one. -/
  stored (v : World) (text : String) (hv : w.runTask (c.run named) = (.ok text, v)) (s : Store)
    (hs : c.changes? = some s) :
    ∃ d dir, (w.runTask (DataDirectory.resolve named)).1 = .ok d ∧
      v.files.locate v.workingDirectory (s.path d) = .ok (dir ++ [s.name]) ∧
      (d.path ≠ "" → v.files.locate v.workingDirectory d.path = .ok dir) ∧
      (v.files.get? (dir ++ [temporaryName s.name]) = none ∨
        w.files.SharesFile (dir ++ [s.name]) (dir ++ [temporaryName s.name]) ∧
          v.files.SharesFile (dir ++ [s.name]) (dir ++ [temporaryName s.name])) ∧
      ∀ k, k ≠ dir ++ [s.name] → ¬ w.files.SharesFile k (dir ++ [temporaryName s.name]) →
        v.files.fileAt? k = w.files.fileAt? k
  /-- All directories stay. -/
  directories : w.files.KeepsDirectories (w.runTask (c.run named)).2.files

namespace Command

variable {w : World} {named : Option String} {c : Command}

/-- A command runs in the data directory that is found, in the world as it is. -/
theorem runTask_run (w : World) (named : Option String) (c : Command) :
    w.runTask (c.run named) =
      match (w.runTask (DataDirectory.resolve named)).1 with
      | .ok d => w.runTask (c.runIn d)
      | .error f => (.error f, w) := by
  rw [run, World.runTask_bind, (DataDirectory.observes_resolve named).runTask_eq w]
  rcases (w.runTask (DataDirectory.resolve named)).1 with e | d <;> rfl

/-- A command that changes no store, other than the one that sets up a directory, only reads. -/
theorem isReading_of_changes?_eq_none (hc : c.changes? = none) (hinit : c ≠ .init) :
    c.isReading = true := by
  cases c with
  | init => exact absurd rfl hinit
  | _ => first | rfl | exact absurd hc (by simp [changes?])

/-- A command that changes a store fails with no change, or does no more than to save the store
that it has loaded. -/
theorem runTask_run_cases {d : DataDirectory} {s : Store}
    (hd : (w.runTask (DataDirectory.resolve named)).1 = .ok d) (hs : c.changes? = some s) :
    (∃ f, w.runTask (c.run named) = (.error f, w)) ∨
      (w.runTask (s.check d)).1 = .ok () ∧
        ∃ json text, w.runTask (c.run named) =
          ((w.runTask (StoreFile.save json (s.path d))).1.map fun _ => text,
            (w.runTask (StoreFile.save json (s.path d))).2) := by
  rw [runTask_run, hd]
  refine (storesTo_runIn hs d w).imp_right fun ⟨hcheck, json, text, heq⟩ => ⟨hcheck, json, text, ?_⟩
  exact heq.trans (runTask_save_return w json _ text)

/-- Without a data directory there is nothing to do. -/
theorem framed_of_not_resolved {e : Failure}
    (hd : (w.runTask (DataDirectory.resolve named)).1 = .error e) : c.Framed w named := by
  have hrun : w.runTask (c.run named) = (.error e, w) := by rw [runTask_run, hd]
  refine ⟨fun _ => by rw [hrun], fun v f hv k => .inl ?_, fun d s f hd' => ?_, fun v text hv => ?_,
    fun k hk => by rwa [hrun]⟩
  · obtain rfl : w = v := congrArg Prod.snd (hrun.symm.trans hv)
    rfl
  · exact absurd (hd.symm.trans hd') (by simp)
  · exact absurd (hrun.symm.trans hv) (by simp)

/-- A command that changes no store and no file keeps to its frame. -/
theorem framed_of_reading (hc : c.changes? = none)
    (hfiles : (w.runTask (c.run named)).2.files = w.files) : c.Framed w named := by
  refine ⟨fun _ => hfiles, fun v f hv k => .inl ?_, fun _ _ _ _ hs => ?_, fun _ _ _ _ hs => ?_,
    fun k hk => by rwa [hfiles]⟩
  · rw [hv] at hfiles
    exact congrArg (·.fileAt? k) hfiles
  · exact absurd (hc.symm.trans hs) (by simp)
  · exact absurd (hc.symm.trans hs) (by simp)

/-- A command that changes a store of the directory that is found keeps to its frame. -/
theorem framed_of_storing {d : DataDirectory} {s : Store}
    (hd : (w.runTask (DataDirectory.resolve named)).1 = .ok d) (hs : c.changes? = some s) :
    c.Framed w named := by
  rcases runTask_run_cases hd hs with ⟨f, hrun⟩ | ⟨hcheck, json, text, hrun⟩
  · -- it has failed before it saved anything
    refine ⟨fun _ => by rw [hrun], fun v f' hv k => .inl ?_, fun _ _ _ _ _ _ => ⟨f, hrun⟩,
      fun v text hv => ?_, fun k hk => by rwa [hrun]⟩
    · obtain rfl : w = v := congrArg Prod.snd (hrun.symm.trans hv)
      rfl
    · exact absurd (hrun.symm.trans hv) (by simp)
  · refine ⟨fun hc => absurd (hs.symm.trans hc) (by simp), fun v f hv k => ?_,
      fun d' s' f hd' hs' hf => ?_, fun v text' hv s' hs' => ?_, fun k hk => ?_⟩
    · rcases hsave : w.runTask (StoreFile.save json (s.path d)) with ⟨e | ⟨⟨⟩⟩, u⟩
      · rw [hrun, hsave] at hv
        obtain rfl : u = v := congrArg Prod.snd hv
        exact (fileAt?_of_save_failed hcheck hsave k).imp_right fun ⟨hnowhere, hformer⟩ =>
          ⟨d, s, hd, hs, hnowhere, hformer⟩
      · rw [hrun, hsave] at hv
        exact absurd hv (by simp [Except.map])
    · obtain rfl := Except.ok.inj (hd.symm.trans hd')
      obtain rfl := Option.some.inj (hs.symm.trans hs')
      exact absurd (hcheck.symm.trans hf) (by simp)
    · obtain rfl := Option.some.inj (hs.symm.trans hs')
      rcases hsave : w.runTask (StoreFile.save json (s.path d)) with ⟨e | ⟨⟨⟩⟩, u⟩
      · rw [hrun, hsave] at hv
        exact absurd hv (by simp [Except.map])
      · rw [hrun, hsave] at hv
        obtain rfl : u = v := congrArg Prod.snd hv
        obtain ⟨dir, hsaved⟩ := exists_of_save hsave
        exact ⟨d, dir, hd, hsaved⟩
    · rw [hrun, StoreFile.save_eq]
      dsimp only
      exact (parentsMade_writeAtomically w (s.path d) (StoreFile.bytes json)).kept k hk

/-- **What a command leaves alone.** -/
theorem run_framed (w : World) (named : Option String) (c : Command) (hinit : c ≠ .init) :
    c.Framed w named := by
  rcases hd : (w.runTask (DataDirectory.resolve named)).1 with e | d
  · exact framed_of_not_resolved hd
  · rcases hs : c.changes? with - | s
    · refine framed_of_reading hs ?_
      rw [runTask_run, hd]
      exact keepsFiles_runIn (isReading_of_changes?_eq_none hs hinit) d w
    · exact framed_of_storing hd hs

/-- A preset file that is not in JSON, in a data directory that is named. The command that would
delete a preset fails and changes nothing at all. -/
theorem run_framed_corrupt :
    let w := ((default : World).runTask (writeTextAtomically "x/presets.json" "[")).2
    let c := presetDelete "A"
    c ≠ init ∧ c.Framed w (some "x") ∧ ∃ f, w.runTask (c.run (some "x")) = (.error f, w) := by
  intro w c
  have hframed : c.Framed w (some "x") := run_framed w (some "x") c (by decide)
  have hd : ∀ w : World, (w.runTask (DataDirectory.resolve (some "x"))).1 = .ok ⟨"x"⟩ :=
    fun _ => rfl
  have hcheck : w.fails (Store.presets.check ⟨"x"⟩) = true := by decide +kernel
  obtain ⟨f, hf⟩ := World.exists_of_fails hcheck
  exact ⟨by decide, hframed, hframed.unloaded ⟨"x"⟩ .presets f (hd w) rfl (congrArg Prod.fst hf)⟩

/-- A command that has changed its store has left the bytes of a JSON value there. -/
theorem exists_fileAt?_eq_bytes {d : DataDirectory} {s : Store} {l : Location}
    (hd : (w.runTask (DataDirectory.resolve named)).1 = .ok d) (hs : c.changes? = some s)
    (hdone : w.fails (c.run named) = false)
    (hl : (w.runTask (c.run named)).2.files.locate (w.runTask (c.run named)).2.workingDirectory
      (s.path d) = .ok l) :
    ∃ json, (w.runTask (c.run named)).2.files.fileAt? l = some (StoreFile.bytes json) := by
  rcases runTask_run_cases hd hs with ⟨f, hrun⟩ | ⟨-, json, text, hrun⟩
  · rw [World.fails, hrun] at hdone
    exact absurd hdone (by simp)
  · rcases hsave : w.runTask (StoreFile.save json (s.path d)) with ⟨f | ⟨⟨⟩⟩, v⟩
    · rw [World.fails, hrun, hsave] at hdone
      exact absurd hdone (by simp [Except.map])
    · rw [hrun, hsave] at hl ⊢
      exact ⟨json, FileTree.fileAt?_of_read hl (StoreFile.read_of_save hsave)⟩

/-- **Files can be lost where the path of a store led nowhere.** The data directory is behind one
that is missing. Once that has been made, the path leads to what stands there all the same. If this
is a directory, the command fails, and the file that had the temporary name beside it has become the
temporary file. If it is a file, it is written over, though it was not in JSON. -/
theorem run_loses_files :
    (¬ ∀ (w : World) (named : Option String) (c : Command), c ≠ init →
      ∀ v f, w.runTask (c.run named) = (.error f, v) →
        ∀ k, v.files.fileAt? k = w.files.fileAt? k) ∧
      ¬ ∀ (w : World) (named : Option String) (c : Command), c ≠ init →
        ∀ d s, (w.runTask (DataDirectory.resolve named)).1 = .ok d → c.changes? = some s →
          ∀ dir bytes, w.files.fileAt? (dir ++ [s.name]) = some bytes →
            (String.fromUTF8? bytes).bind Json.ofText? = none →
            let v := (w.runTask (c.run named)).2
            v.files.locate v.workingDirectory (s.path d) = .ok (dir ++ [s.name]) →
            v.files.fileAt? (dir ++ [s.name]) = some bytes := by
  let named := some "missing/../x"
  let d : DataDirectory := ⟨"missing/../x"⟩
  let c := presetDelete "A"
  have hd : ∀ w : World, (w.runTask (DataDirectory.resolve named)).1 = .ok d := fun _ => rfl
  have hinit : c ≠ init := by decide
  have hchanges : c.changes? = some .presets := rfl
  constructor
  · intro h
    let w := ((default : World).runTask (do
      let _ ← Task.request (.makeDirectories "x/presets.json")
      writeTextAtomically "x/.presets.json.tmp" "keep")).2
    have hfails : w.fails (c.run named) = true := by decide +kernel
    have hbefore : w.files.fileAt? ["x", ".presets.json.tmp"] = some "keep".toUTF8 := by
      decide +kernel
    have hafter : (w.runTask (c.run named)).2.files.fileAt? ["x", ".presets.json.tmp"] = none := by
      decide +kernel
    clear_value w named c
    obtain ⟨f, hrun⟩ := World.exists_of_fails hfails
    have hkept := h w named c hinit _ f hrun ["x", ".presets.json.tmp"]
    exact absurd (hafter.symm.trans (hkept.trans hbefore)) (by simp)
  · intro h
    let w := ((default : World).runTask (writeTextAtomically "x/presets.json" "[")).2
    have hbefore : w.files.fileAt? ["x", "presets.json"] = some "[".toUTF8 := by decide +kernel
    have hsyntax : (String.fromUTF8? "[".toUTF8).bind Json.ofText? = none :=
      Option.isNone_iff_eq_none.mp (by decide +kernel)
    have hdone : w.fails (c.run named) = false := by decide +kernel
    have hlocated : ((w.runTask (c.run named)).2.files.locate
        (w.runTask (c.run named)).2.workingDirectory (Store.presets.path d)).toOption =
        some ["x", "presets.json"] := by decide +kernel
    clear_value w d named c
    have hl := eq_ok_of_toOption_eq hlocated
    obtain ⟨json, hbytes⟩ := exists_fileAt?_eq_bytes (hd w) hchanges hdone hl
    have hkept := h w named c hinit d .presets (hd w) hchanges ["x"] _ hbefore hsyntax hl
    exact StoreFile.bytes_ne json (by decide) (Option.some.inj (hbytes.symm.trans hkept))

end Command

end Outreach
