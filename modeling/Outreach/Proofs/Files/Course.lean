import Outreach.Proofs.Files.AllOrNothing

/-!
# Writes Beside What Is There

If the parent of a path is there, an atomic write makes no directory. What any path leads to then
stays the same all along. If the path also leads to a file or to a free place, and the disk does not
fail, the temporary file can be put there once it has been opened, so the write fails only if it
cannot be opened, and then it has changed nothing. However a write fails, it can be told from other
failures.

## Main results

* `WriteStage.Step.sameDirectories`: if the parent is there, no step changes a directory.
* `WriteStage.sameDirectories_runTask`: neither does the whole write.
* `writeAtomically_of_locate`: **a write to a path that leads to a file or a free place** is done,
  or its temporary file cannot be opened and nothing has changed, if the disk does not fail.
* `isUnsaved_of_writeAtomically`: how a write fails.
-/

namespace Outreach

/-! ### Directories that stay -/

namespace World

/-- Two worlds with the **same directories**, seen from the same place. -/
structure SameDirectories (w v : World) : Prop where
  here : v.workingDirectory = w.workingDirectory
  directories : w.files.SameDirectories v.files

namespace SameDirectories

variable {w v u : World} {path : String} {l : Location}

/-- A world has the same directories as itself. -/
theorem refl (w : World) : w.SameDirectories w := ⟨rfl, .refl _⟩

/-- Worlds that have the same directories one after the other have the same from the first to the
last. -/
theorem trans (h : w.SameDirectories v) (h' : v.SameDirectories u) : w.SameDirectories u :=
  ⟨h'.here.trans h.here, h.directories.trans h'.directories⟩

/-- Paths lead to the same places in worlds with the same directories. -/
theorem locate_eq_ok_iff (h : w.SameDirectories v) :
    v.files.locate v.workingDirectory path = .ok l ↔
      w.files.locate w.workingDirectory path = .ok l := by
  rw [h.here, h.directories.locate_eq_ok_iff]

/-- The same paths are directories in worlds with the same directories. -/
theorem isDirectory_eq (h : w.SameDirectories v) :
    v.files.isDirectory v.workingDirectory path = w.files.isDirectory w.workingDirectory path := by
  rw [h.here, h.directories.isDirectory_eq]

/-- The temporary name of a path stands at the same place in worlds with the same directories. -/
theorem temporaryAt_iff (h : w.SameDirectories v) :
    TemporaryAt v path l ↔ TemporaryAt w path l := by
  simp only [TemporaryAt, h.locate_eq_ok_iff]

end SameDirectories

/-- Whether the parent of a path is there. The working directory counts as such. -/
def hasParent (w : World) (path : String) : Bool :=
  (Path.parent? path).all fun parent =>
    parent.isEmpty || w.files.isDirectory w.workingDirectory parent

/-- The parent of a path that leads somewhere is there. -/
theorem hasParent_of_locate {w : World} {path : String} {l : Location}
    (hl : w.files.locate w.workingDirectory path = .ok l)
    (hname : FileTree.endsInName path = true) : w.hasParent path = true := by
  obtain ⟨parent, hparent, hthere⟩ := FileTree.isDirectory_parent hl hname
  rw [hasParent, hparent]
  rcases hthere with rfl | hdirectory
  · rfl
  · simp [hdirectory]

end World

/-! ### Writes that make no directory -/

namespace WriteStage

variable {w v v' : World} {path : String} {bytes : ByteArray} {s s' : WriteStage}

/-- What an atomic write does if the parent of its path is there: it makes no directory, and all
that it opens is its temporary file. -/
def Allowed (w : World) (path : String) : WriteStage → Prop
  | looking parent => w.files.isDirectory w.workingDirectory parent = true
  | making _ => False
  | opening temporary | writing temporary _ | syncing temporary _ | replacing temporary
  | removing temporary _ => temporaryPath? path = some temporary
  | ended _ => True

/-- A write that goes on to open its temporary file, or has failed because there is no name for
one, makes no directory. -/
theorem allowed_prepared (w : World) (path : String) : (prepared path).Allowed w path := by
  rw [prepared]
  split
  · trivial
  · assumption

/-- A write whose parent is there begins with a step that makes no directory. -/
theorem allowed_first (hparent : w.hasParent path = true) : (first path).Allowed w path := by
  rw [first]
  split
  · exact allowed_prepared w path
  · rename_i parent hpath
    split
    · exact allowed_prepared w path
    · rename_i hempty
      rw [World.hasParent, hpath] at hparent
      change w.files.isDirectory w.workingDirectory parent = true
      simpa [hempty] using hparent

/-- **If the parent of the path is there, no step changes a directory.** -/
theorem Step.sameDirectories (hstep : Step path bytes s v s' v') (hsame : w.SameDirectories v)
    (hs : s.Allowed w path) : w.SameDirectories v' ∧ s'.Allowed w path := by
  cases hstep with
  | found => exact ⟨hsame, allowed_prepared w path⟩
  | missing hmissing =>
      -- the parent is still there
      rw [Allowed, ← hsame.isDirectory_eq] at hs
      rw [FileTree.pathExists_of_isDirectory hs] at hmissing
      exact absurd hmissing (by simp)
  | made => exact hs.elim
  | unmade => exact hs.elim
  | opened _ _ _ hopened => exact ⟨hsame.trans ⟨rfl, hopened.sameDirectories⟩, hs⟩
  | unopened => exact ⟨hsame, trivial⟩
  | written => exact ⟨hsame.trans ⟨rfl, .setContent _ _ _⟩, hs⟩
  | unwritten => exact ⟨hsame.trans ⟨rfl, .setContent _ _ _⟩, hs⟩
  | unheld => exact ⟨hsame, hs⟩
  | synced => exact ⟨hsame.trans ⟨rfl, .refl _⟩, hs⟩
  | unsynced => exact ⟨hsame.trans ⟨rfl, .refl _⟩, hs⟩
  | replaced _ _ _ hmoved => exact ⟨hsame.trans ⟨rfl, hmoved.sameDirectories⟩, trivial⟩
  | unreplaced => exact ⟨hsame.trans ⟨rfl, .refl _⟩, hs⟩
  | removed _ hremoved => exact ⟨hsame.trans ⟨rfl, hremoved.sameDirectories⟩, trivial⟩
  | unremoved => exact ⟨hsame, trivial⟩
  | ended => exact ⟨hsame, trivial⟩

/-- **If the parent of its path is there, an atomic write changes no directory.** -/
theorem sameDirectories_runTask (hparent : w.hasParent path = true) (bytes : ByteArray) :
    w.SameDirectories (w.runTask (writeAtomically path bytes)).2 :=
  (holds_at_end (I := fun s v => w.SameDirectories v ∧ s.Allowed w path)
    ⟨.refl w, allowed_first hparent⟩ fun hstep h => hstep.sameDirectories h.1 h.2).1

/-- Whether a write has opened its temporary file and not put it in place yet. -/
def holdsTemporary : WriteStage → Bool
  | writing _ _ | syncing _ _ | replacing _ => true
  | _ => false

/-- How a write goes on whose path leads to a file or a free place, if the disk does not fail. -/
inductive Unhindered (w : World) (path : String) (bytes : ByteArray) : WriteStage → World → Prop
  | looking {parent : String} (hthere : w.files.isDirectory w.workingDirectory parent = true) :
      Unhindered w path bytes (looking parent) w
  | opening {temporary : String} (htemporary : temporaryPath? path = some temporary) :
      Unhindered w path bytes (opening temporary) w
  | underway {s : WriteStage} {v : World} (hs : s.holdsTemporary = true)
      (hreached : Reached w path bytes s v) (hsame : w.SameDirectories v)
      (hfaultless : v.IsFaultless) :
      Unhindered w path bytes s v
  | done {v : World} : Unhindered w path bytes (ended (.ok ())) v
  | refused {temporary : String} {e : FileError} (htemporary : temporaryPath? path = some temporary)
      (hcreate : w.files.create w.workingDirectory temporary = .error e) :
      Unhindered w path bytes (ended (.error (.temporaryNotMade temporary e))) w

namespace Unhindered

variable {target : Location}

/-- A write that goes on to open its temporary file has changed nothing so far. -/
theorem prepared {temporary : String} (htemporary : temporaryPath? path = some temporary) :
    Unhindered w path bytes (prepared path) w := by
  rw [WriteStage.prepared, htemporary]
  exact .opening htemporary

/-- A write whose parent is there has changed nothing before its first step. -/
theorem first {temporary : String} (bytes : ByteArray)
    (htemporary : temporaryPath? path = some temporary) (hparent : w.hasParent path = true) :
    Unhindered w path bytes (first path) w := by
  have hallowed := allowed_first hparent
  rw [WriteStage.first] at hallowed ⊢
  split
  · exact prepared htemporary
  · split
    · exact prepared htemporary
    · rename_i parent hpath hempty
      simp only [hpath, hempty, Bool.false_eq_true, if_false] at hallowed
      exact .looking hallowed

/-- **What has been opened can be put in place.** -/
theorem step {temporary : String} (hfaultless : w.IsFaultless)
    (htemporary : temporaryPath? path = some temporary)
    (hl : w.files.locate w.workingDirectory path = .ok target)
    (hname : FileTree.endsInName path = true) (hwants : FileTree.wantsDirectory path = false)
    (hfile : w.files.get? target ≠ some .directory) (hstep : Step path bytes s v s' v')
    (h : Unhindered w path bytes s v) : Unhindered w path bytes s' v' := by
  cases h with
  | looking hthere =>
      cases hstep with
      | found => exact prepared htemporary
      | missing hmissing =>
          rw [FileTree.pathExists_of_isDirectory hthere] at hmissing
          exact absurd hmissing (by simp)
  | opening htemporary' =>
      have hreached := (Reached.opening htemporary' rfl (.refl _ _ _)).step hstep
      cases hstep with
      | opened _ _ _ hopened =>
          exact .underway rfl hreached ⟨rfl, hopened.sameDirectories⟩ hfaultless
      | unopened hcreate => exact .refused htemporary' hcreate
  | underway hs hreached hsame hnone =>
      have hnext := hreached.step hstep
      cases hstep with
      | found => simp [holdsTemporary] at hs
      | missing => simp [holdsTemporary] at hs
      | made => simp [holdsTemporary] at hs
      | unmade => simp [holdsTemporary] at hs
      | opened => simp [holdsTemporary] at hs
      | unopened => simp [holdsTemporary] at hs
      | written =>
          exact .underway rfl hnext (hsame.trans ⟨rfl, .setContent _ _ _⟩) hnone.pastFault
      | unwritten _ hfault => exact absurd (hnone.fault?_eq.symm.trans hfault) (by simp)
      | unheld hhandle =>
          cases hreached with
          | writing _ _ hhandle' => exact absurd (hhandle'.symm.trans hhandle) (by simp)
      | synced => exact .underway rfl hnext (hsame.trans ⟨rfl, .refl _⟩) hnone.pastFault
      | unsynced hfault => exact absurd (hnone.fault?_eq.symm.trans hfault) (by simp)
      | replaced => exact .done
      | @unreplaced temporary' _ e hreplace =>
          cases hreached with
          | @replacing _ _ t u l id hopened hhere hwritten =>
              have hl' : v.files.locate v.workingDirectory temporary' = .ok l := by
                rw [hhere, hwritten]
                exact hopened.opened.sameDirectories.locate_eq_ok_iff.mpr hopened.located
              have hget : v.files.get? l = some (.file id) := by
                rw [hwritten, FileTree.get?_setContent, hopened.opened.get?, if_pos rfl]
              obtain ⟨t', ht'⟩ := FileTree.exists_replace_eq_ok hl'
                (hsame.locate_eq_ok_iff.mpr hl) hopened.named hname hopened.notDirectory hwants hget
                (mt (hsame.directories target).mp hfile)
              rcases hreplace with hreplace | ⟨fault, hfault, -⟩
              · exact absurd (ht'.symm.trans hreplace) (by simp)
              · exact absurd (hnone.fault?_eq.symm.trans hfault) (by simp)
      | removed => simp [holdsTemporary] at hs
      | unremoved => simp [holdsTemporary] at hs
      | ended => simp [holdsTemporary] at hs
  | done =>
      cases hstep
      exact .done
  | refused htemporary' hcreate =>
      cases hstep
      exact .refused htemporary' hcreate

end Unhindered

end WriteStage

/-- **A write to a path that leads to a file or a free place** is done, or its temporary file cannot
be opened and nothing has changed, if the disk does not fail. -/
theorem writeAtomically_of_locate {w : World} {path : String} {target : Location}
    (hfaultless : w.IsFaultless) (hl : w.files.locate w.workingDirectory path = .ok target)
    (hwants : FileTree.wantsDirectory path = false)
    (hfile : w.files.get? target ≠ some .directory) (bytes : ByteArray) :
    (∃ v, w.runTask (writeAtomically path bytes) = (.ok (), v)) ∨
      ∃ temporary e, temporaryPath? path = some temporary ∧
        w.files.create w.workingDirectory temporary = .error e ∧
        w.runTask (writeAtomically path bytes) = (.error (.temporaryNotMade temporary e), w) := by
  have hname : FileTree.endsInName path = true := by
    rw [← Bool.not_eq_false]
    exact fun hname => hfile (FileTree.get?_of_not_endsInName hl hname)
  obtain ⟨temporary, htemporary⟩ : ∃ temporary, temporaryPath? path = some temporary := by
    obtain ⟨parent, name, -, -, hsplit, hdot, hup, -⟩ := FileTree.exists_parent_of_locate hl hname
    rw [temporaryPath?, Path.fileName?_of_split? hsplit hdot hup]
    exact ⟨_, rfl⟩
  have hend := WriteStage.holds_at_end
    (WriteStage.Unhindered.first bytes htemporary (World.hasParent_of_locate hl hname))
    (fun hstep h => h.step hfaultless htemporary hl hname hwants hfile hstep)
  rcases hrun : w.runTask (writeAtomically path bytes) with ⟨f | ⟨⟨⟩⟩, v⟩
  · rw [hrun] at hend
    cases hend with
    | underway hs => simp [WriteStage.holdsTemporary] at hs
    | refused htemporary' hcreate => exact .inr ⟨_, _, htemporary', hcreate, rfl⟩
  · exact .inl ⟨v, rfl⟩

/-! ### How a write fails -/

/-- Whether a failure is that of an atomic write, as opposed to one of checks or of reading. -/
def Failure.isUnsaved : Failure → Bool
  | .parentNotMade .. | .pathWithoutFileName _ | .temporaryNotMade .. | .temporaryNotWritten ..
  | .targetNotReplaced .. => true
  | _ => false

namespace WriteStage

variable {w v v' : World} {path : String} {bytes : ByteArray} {s s' : WriteStage}

/-- A stage that **fails as a write does**, if it fails at all. -/
def FailsUnsaved : WriteStage → Prop
  | removing _ failure | ended (.error failure) => failure.isUnsaved = true
  | _ => True

/-- If there is no name for a temporary file, the failure is that of a save. -/
theorem failsUnsaved_prepared : (prepared path).FailsUnsaved := by
  rw [prepared]
  split
  · rfl
  · trivial

/-- However a write begins, if it has already failed, the failure is that of a save. -/
theorem failsUnsaved_first : (first path).FailsUnsaved := by
  rw [first]
  split
  · exact failsUnsaved_prepared
  · split
    · exact failsUnsaved_prepared
    · trivial

/-- Each step that ends a write with a failure gives the failure of a save. -/
theorem Step.failsUnsaved (hstep : Step path bytes s v s' v') (hs : s.FailsUnsaved) :
    s'.FailsUnsaved := by
  cases hstep with
  | found => exact failsUnsaved_prepared
  | made => exact failsUnsaved_prepared
  | unmade => rfl
  | unopened => rfl
  | unwritten => rfl
  | unheld => rfl
  | unsynced => rfl
  | unreplaced => rfl
  | removed => exact hs
  | unremoved => exact hs
  | ended => exact hs
  | _ => trivial

end WriteStage

/-- **How a write fails.** -/
theorem isUnsaved_of_writeAtomically {w v : World} {path : String} {bytes : ByteArray}
    {f : Failure}
    (h : w.runTask (writeAtomically path bytes) = (.error f, v)) : f.isUnsaved = true := by
  have hend : (WriteStage.ended (w.runTask (writeAtomically path bytes)).1).FailsUnsaved :=
    WriteStage.holds_at_end (I := fun s _ => s.FailsUnsaved) WriteStage.failsUnsaved_first
      fun hstep => hstep.failsUnsaved
  rwa [h] at hend

end Outreach
