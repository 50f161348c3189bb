import Outreach.Proofs.Files.AtomicWrite
import Outreach.Proofs.Files.Contents
import Outreach.Proofs.Files.Names
import Outreach.Proofs.Files.Stages

/-!
# All or Nothing

An atomic write makes the parents of its path, opens the temporary file, writes it and gives it the
name of the target. Nothing but the temporary file changes before that last step, and the last step
changes the target as a whole. So a write that fails or is stopped leaves every other file alone.

The temporary name may have been taken: by a file that is then lost, under this name and under any
other that it has. If the target is one of these others, opening the temporary file empties the
target, and a write that is stopped or fails after that has torn it. The statements are about the
locations that do not share this former file, and say what becomes of a target that does.

## Main results

* `WriteStage.Reached.step`: what an atomic write has done when it is at a stage.
* `exists_stop_of_sharesTemporary`: a target that also has the temporary name can be torn.
* `writeAtomically_allOrNothing`: **an atomic write does all or nothing**, except to such a target.
* `writeAtomically_tears`: the exception is met.
-/

namespace Outreach

/-- The directories that an atomic write makes if they are missing. -/
def writtenParents (path : String) : List String :=
  match Path.parent? path with
  | none => []
  | some parent => Path.ancestors parent

/-- How a temporary file has been opened: the parents of the path have been made, the temporary path
leads to a place among them, and the file there has been opened. -/
structure TemporaryOpened (w : World) (path temporary : String) (t u : FileTree) (l : Location)
    (id : FileId) : Prop where
  isTemporary : temporaryPath? path = some temporary
  grown : w.files.Grown t w.workingDirectory (writtenParents path)
  located : t.locate w.workingDirectory temporary = .ok l
  named : FileTree.endsInName temporary = true
  notDirectory : FileTree.wantsDirectory temporary = false
  opened : t.Opened u l id

namespace WriteStage

/-- What an atomic write has done to a world when it is at a stage. -/
inductive Reached (w : World) (path : String) (bytes : ByteArray) : WriteStage → World → Prop
  | looking {parent : String} (hparent : Path.parent? path = some parent) :
      Reached w path bytes (looking parent) w
  | making {parent : String} (hparent : Path.parent? path = some parent) :
      Reached w path bytes (making parent) w
  | opening {v : World} {temporary : String} (htemporary : temporaryPath? path = some temporary)
      (hhere : v.workingDirectory = w.workingDirectory)
      (hgrown : w.files.Grown v.files w.workingDirectory (writtenParents path)) :
      Reached w path bytes (opening temporary) v
  | writing {v : World} {temporary : String} {t : FileTree} {l : Location} {id : FileId}
      {handle : Nat} (hopened : TemporaryOpened w path temporary t v.files l id)
      (hhere : v.workingDirectory = w.workingDirectory)
      (hhandle : v.handles[handle]? = some (id, 0)) :
      Reached w path bytes (writing temporary handle) v
  | syncing {v : World} {temporary : String} {t u : FileTree} {l : Location} {id : FileId}
      {handle : Nat} (hopened : TemporaryOpened w path temporary t u l id)
      (hhere : v.workingDirectory = w.workingDirectory)
      (hwritten : v.files = u.setContent id bytes) :
      Reached w path bytes (syncing temporary handle) v
  | replacing {v : World} {temporary : String} {t u : FileTree} {l : Location} {id : FileId}
      (hopened : TemporaryOpened w path temporary t u l id)
      (hhere : v.workingDirectory = w.workingDirectory)
      (hwritten : v.files = u.setContent id bytes) :
      Reached w path bytes (replacing temporary) v
  | removing {v : World} {temporary : String} {t u : FileTree} {l : Location} {id : FileId}
      {failure : Failure} {part : ByteArray} (hopened : TemporaryOpened w path temporary t u l id)
      (hhere : v.workingDirectory = w.workingDirectory) (hpart : IsBeginning part bytes)
      (hwritten : v.files = u.setContent id part) :
      Reached w path bytes (removing temporary failure) v
  | replaced {v : World} {temporary : String} {t u : FileTree} {l l' : Location} {id id' : FileId}
      (hopened : TemporaryOpened w path temporary t u l id)
      (hhere : v.workingDirectory = w.workingDirectory)
      (htarget : u.locate w.workingDirectory path = .ok l')
      (hname : FileTree.endsInName path = true)
      (hmoved : (u.setContent id bytes).Moved v.files l l' id') :
      Reached w path bytes (ended (.ok ())) v
  | unopened {v : World} {failure : Failure} (hhere : v.workingDirectory = w.workingDirectory)
      (hgrown : w.files.Grown v.files w.workingDirectory (writtenParents path)) :
      Reached w path bytes (ended (.error failure)) v
  | removed {v : World} {temporary : String} {t u : FileTree} {l : Location} {id id' : FileId}
      {failure : Failure} {part : ByteArray} (hopened : TemporaryOpened w path temporary t u l id)
      (hhere : v.workingDirectory = w.workingDirectory) (hpart : IsBeginning part bytes)
      (hremoved : (u.setContent id part).Removed v.files l id') :
      Reached w path bytes (ended (.error failure)) v

namespace Reached

variable {w v : World} {path : String} {bytes : ByteArray}

/-- Once the parents have been made, the temporary file is next. -/
theorem prepared (hhere : v.workingDirectory = w.workingDirectory)
    (hgrown : w.files.Grown v.files w.workingDirectory (writtenParents path)) :
    Reached w path bytes (prepared path) v := by
  rw [WriteStage.prepared]
  split
  · exact .unopened hhere hgrown
  · rename_i temporary htemporary
    exact .opening htemporary hhere hgrown

/-- At its first stage, an atomic write has done nothing. -/
theorem first (w : World) (path : String) (bytes : ByteArray) :
    Reached w path bytes (first path) w := by
  have hprepared : Reached w path bytes (WriteStage.prepared path) w :=
    prepared rfl (.refl _ _ _)
  rw [WriteStage.first]
  split
  · exact hprepared
  · rename_i parent hparent
    split
    · exact hprepared
    · exact .looking hparent

/-- **Each step does what the stage that it leads to stands for.** -/
theorem step {s s' : WriteStage} {v' : World} (hstep : Step path bytes s v s' v')
    (h : Reached w path bytes s v) : Reached w path bytes s' v' := by
  cases hstep with
  | found =>
      cases h
      exact prepared rfl (.refl _ _ _)
  | missing =>
      cases h with
      | looking hparent => exact .making hparent
  | made hgrown =>
      cases h with
      | making hparent => exact prepared rfl (by rwa [writtenParents, hparent])
  | unmade hgrown =>
      cases h with
      | making hparent => exact .unopened rfl (by rwa [writtenParents, hparent])
  | opened hl hname hwants hopened =>
      cases h with
      | opening htemporary hhere hgrown =>
          rw [hhere] at hl
          exact .writing ⟨htemporary, hgrown, hl, hname, hwants, hopened⟩ hhere (by simp)
  | unopened =>
      cases h with
      | opening _ hhere hgrown => exact .unopened hhere hgrown
  | written hhandle =>
      cases h with
      | writing hopened hhere hhandle' =>
          obtain ⟨rfl, rfl⟩ := Prod.mk.inj (Option.some.inj (hhandle'.symm.trans hhandle))
          refine .syncing hopened hhere ?_
          rw [World.written, hopened.opened.content, if_pos rfl, overwrite_empty]
  | @unwritten _ _ handle id' _ fault hhandle =>
      cases h with
      | @writing _ _ t l id _ hopened hhere hhandle' =>
          obtain ⟨hid, rfl⟩ := Prod.mk.inj (Option.some.inj (hhandle'.symm.trans hhandle))
          subst hid
          have hwritten : (v.written handle id 0 (bytes.extract 0 fault.taken)).files =
              v.files.setContent id (bytes.extract 0 fault.taken) := by
            rw [World.written, hopened.opened.content, if_pos rfl, overwrite_empty]
          exact .removing hopened hhere ⟨fault.taken, rfl⟩ hwritten
  | unheld hhandle =>
      cases h with
      | writing _ _ hhandle' => exact absurd (hhandle'.symm.trans hhandle) (by simp)
  | synced =>
      cases h with
      | syncing hopened hhere hwritten => exact .replacing hopened hhere hwritten
  | unsynced =>
      cases h with
      | syncing hopened hhere hwritten =>
          exact .removing hopened hhere (.all bytes) hwritten
  | replaced hl hl' hname hmoved =>
      cases h with
      | @replacing _ temporary t u l id hopened hhere hwritten =>
          rw [hhere, hwritten] at hl hl'
          rw [hwritten] at hmoved
          -- the temporary file is still where it was opened
          obtain rfl := Except.ok.inj
            (hl.symm.trans (hopened.opened.sameDirectories.locate_eq_ok_iff.mpr hopened.located))
          exact .replaced hopened hhere hl' hname hmoved
  | unreplaced =>
      cases h with
      | replacing hopened hhere hwritten =>
          exact .removing hopened hhere (.all bytes) hwritten
  | removed hl hremoved =>
      cases h with
      | removing hopened hhere hpart hwritten =>
          rw [hhere, hwritten] at hl
          rw [hwritten] at hremoved
          obtain rfl := Except.ok.inj
            (hl.symm.trans (hopened.opened.sameDirectories.locate_eq_ok_iff.mpr hopened.located))
          exact .removed hopened hhere hpart hremoved
  | unremoved hremove =>
      cases h with
      | @removing _ temporary t u l id failure part hopened hhere _ hwritten =>
          -- the temporary file is there, so it can be removed
          have hl := hopened.opened.sameDirectories.locate_eq_ok_iff.mpr hopened.located
          have hfile : u.get? l = some (.file id) := by
            rw [hopened.opened.get?, if_pos rfl]
          obtain ⟨t', ht'⟩ := FileTree.exists_remove_eq_ok (t := u.setContent id part) hl
            hopened.notDirectory hfile
          rw [hhere, hwritten, ht'] at hremove
          exact absurd hremove (by simp)
  | ended => exact h

end Reached

end WriteStage

/-! ### What the stages leave alone -/

/-- A location **has the temporary name** of a path: the temporary path leads to it. -/
def TemporaryAt (w : World) (path : String) (l : Location) : Prop :=
  ∃ temporary, temporaryPath? path = some temporary ∧
    w.files.locate w.workingDirectory temporary = .ok l

/-- One location at most has the temporary name. -/
theorem TemporaryAt.unique {w : World} {path : String} {l l' : Location}
    (h : TemporaryAt w path l) (h' : TemporaryAt w path l') : l = l' := by
  obtain ⟨temporary, htemporary, hl⟩ := h
  obtain ⟨temporary', htemporary', hl'⟩ := h'
  obtain rfl := Option.some.inj (htemporary.symm.trans htemporary')
  exact Except.ok.inj (hl.symm.trans hl')

/-- A location **held the former temporary file**: the file that had the temporary name of a path
before the write has stood there, be it under another name. -/
def FormerTemporary (w v : World) (path : String) (k : Location) : Prop :=
  ∃ l, TemporaryAt v path l ∧ w.files.SharesFile k l

/-- If no file has two names, only the temporary name itself held the former temporary file. -/
theorem FormerTemporary.temporaryAt {w v : World} {path : String} {k : Location}
    (h : FormerTemporary w v path k) (hsingle : ∀ k l, w.files.SharesFile k l → k = l) :
    TemporaryAt v path k := by
  obtain ⟨l, hl, hshares⟩ := h
  exact hsingle k l hshares ▸ hl

/-- The temporary name is never that of the target. -/
theorem not_temporaryAt_of_locate {v : World} {path : String} {k : Location}
    (hk : v.files.locate v.workingDirectory path = .ok k)
    (hname : FileTree.endsInName path = true) : ¬ TemporaryAt v path k := by
  rintro ⟨temporary, htemporary, hl⟩
  obtain ⟨d, name, -, -, rfl, he⟩ := FileTree.locate_temporaryPath hk hname htemporary hl
  exact temporaryName_ne name (by simpa using he.symm)

/-- The directories after an atomic write: the old ones, and parents of its path that were
missing. -/
structure ParentsMade (w v : World) (path : String) : Prop where
  kept : w.files.KeepsDirectories v.files
  made (k : Location) (hk : v.files.get? k = some .directory) :
    w.files.get? k = some .directory ∨ w.files.get? k = none ∧
      ∃ p ∈ writtenParents path, v.files.locate v.workingDirectory p = .ok k

variable {w v : World} {path temporary : String} {t u : FileTree} {k l : Location} {id : FileId}

/-- If nothing but directories for the parents was added, no more than the parents was made. -/
theorem parentsMade_of_grown (hhere : v.workingDirectory = w.workingDirectory)
    (hgrown : w.files.Grown v.files w.workingDirectory (writtenParents path)) :
    ParentsMade w v path where
  kept := hgrown.keepsDirectories
  made k hk := by
    rw [hhere]
    rcases hgrown.get? k with hget | ⟨hnone, -, hmade⟩
    · exact .inl (hget.symm.trans hk)
    · exact .inr ⟨hnone, hmade⟩

namespace TemporaryOpened

/-- Once the temporary file is opened, no more than the parents was made, as long as no directory
changes. -/
theorem parentsMade (h : TemporaryOpened w path temporary t u l id)
    (hhere : v.workingDirectory = w.workingDirectory) (hsame : u.SameDirectories v.files) :
    ParentsMade w v path where
  kept k hk := (h.opened.sameDirectories.trans hsame).keepsDirectories k
    (h.grown.keepsDirectories k hk)
  made k hk := by
    have hdirectories := h.opened.sameDirectories.trans hsame
    rcases h.grown.get? k with hget | ⟨hnone, -, p, hp, hl⟩
    · exact .inl (hget.symm.trans ((hdirectories k).mp hk))
    · rw [hhere]
      exact .inr ⟨hnone, p, hp, hdirectories.locate_eq_ok_iff.mpr hl⟩

/-- The temporary file is found where it has been opened. -/
theorem temporaryAt (h : TemporaryOpened w path temporary t u l id)
    (hhere : v.workingDirectory = w.workingDirectory) (hsame : u.SameDirectories v.files) :
    TemporaryAt v path l := by
  refine ⟨temporary, h.isTemporary, ?_⟩
  rw [hhere]
  exact (h.opened.sameDirectories.trans hsame).locate_eq_ok_iff.mpr h.located

/-- What neither has the temporary name nor held the former temporary file is apart from the file
that has been opened. -/
theorem apart (h : TemporaryOpened w path temporary t u l id)
    (hhere : v.workingDirectory = w.workingDirectory) (hsame : u.SameDirectories v.files)
    (htemporary : ¬ TemporaryAt v path k) (hformer : ¬ FormerTemporary w v path k) :
    k ≠ l ∧ ¬ w.files.SharesFile k l := by
  have hl := h.temporaryAt hhere hsame
  exact ⟨fun he => htemporary (he ▸ hl), fun hshares => hformer ⟨l, hl, hshares⟩⟩

/-- If the file that has been opened also stands elsewhere, it stood there before. -/
theorem sharesFile_of_get? {bytes : ByteArray} {id' : FileId}
    (h : TemporaryOpened w path temporary t u l id)
    (hl : (u.setContent id bytes).get? l = some (.file id'))
    (hk : (u.setContent id bytes).get? k = some (.file id')) (hne : k ≠ l) :
    w.files.SharesFile k l := by
  rw [FileTree.get?_setContent] at hl hk
  rw [h.opened.get?, if_pos rfl] at hl
  obtain rfl := FileEntry.file.inj (Option.some.inj hl)
  by_cases hshares : t.SharesFile k l
  · exact h.grown.sharesFile_iff.mp hshares
  · exact absurd hk (h.opened.get?_ne hne hshares)

/-- Opening the temporary file changes no other file. -/
theorem fileAt?_eq (h : TemporaryOpened w path temporary t u l id)
    (hk : k ≠ l ∧ ¬ w.files.SharesFile k l) : u.fileAt? k = w.files.fileAt? k := by
  have hshares : ¬ t.SharesFile k l := fun hshares => hk.2 (h.grown.sharesFile_iff.mp hshares)
  exact (h.opened.fileAt?_eq hk.1 hshares).trans (h.grown.fileAt?_eq k)

/-- Writing the temporary file changes no other file. -/
theorem fileAt?_setContent (h : TemporaryOpened w path temporary t u l id) (bytes : ByteArray)
    (hk : k ≠ l ∧ ¬ w.files.SharesFile k l) :
    (u.setContent id bytes).fileAt? k = w.files.fileAt? k := by
  have hshares : ¬ t.SharesFile k l := fun hshares => hk.2 (h.grown.sharesFile_iff.mp hshares)
  exact (h.opened.fileAt?_setContent bytes hk.1 hshares).trans (h.grown.fileAt?_eq k)

end TemporaryOpened

namespace WriteStage.Reached

variable {bytes : ByteArray} {s : WriteStage}

/-- The directories at any stage. -/
theorem parentsMade (h : Reached w path bytes s v) : ParentsMade w v path := by
  cases h with
  | looking => exact parentsMade_of_grown rfl (.refl _ _ _)
  | making => exact parentsMade_of_grown rfl (.refl _ _ _)
  | opening _ hhere hgrown => exact parentsMade_of_grown hhere hgrown
  | writing hopened hhere => exact hopened.parentsMade hhere (.refl _)
  | syncing hopened hhere hwritten =>
      exact hopened.parentsMade hhere (hwritten ▸ .setContent _ _ _)
  | replacing hopened hhere hwritten =>
      exact hopened.parentsMade hhere (hwritten ▸ .setContent _ _ _)
  | removing hopened hhere _ hwritten =>
      exact hopened.parentsMade hhere (hwritten ▸ .setContent _ _ _)
  | replaced hopened hhere _ _ hmoved =>
      exact hopened.parentsMade hhere ((FileTree.SameDirectories.setContent _ _ _).trans
        hmoved.sameDirectories)
  | unopened hhere hgrown => exact parentsMade_of_grown hhere hgrown
  | removed hopened hhere _ hremoved =>
      exact hopened.parentsMade hhere ((FileTree.SameDirectories.setContent _ _ _).trans
        hremoved.sameDirectories)

/-- **A write that has not replaced the target has changed nothing but the temporary file.** -/
theorem fileAt?_eq (h : Reached w path bytes s v) (hs : s ≠ ended (.ok ()))
    (htemporary : ¬ TemporaryAt v path k) (hformer : ¬ FormerTemporary w v path k) :
    v.files.fileAt? k = w.files.fileAt? k := by
  have hwrite : ∀ {temporary t u l id part}, TemporaryOpened w path temporary t u l id →
      v.workingDirectory = w.workingDirectory → v.files = u.setContent id part →
      v.files.fileAt? k = w.files.fileAt? k := by
    intro temporary t u l id part hopened hhere hwritten
    have hsame : u.SameDirectories v.files := hwritten ▸ .setContent u id part
    rw [hwritten]
    exact hopened.fileAt?_setContent part (hopened.apart hhere hsame htemporary hformer)
  cases h with
  | looking => rfl
  | making => rfl
  | opening _ _ hgrown => exact hgrown.fileAt?_eq k
  | writing hopened hhere =>
      exact hopened.fileAt?_eq (hopened.apart hhere (.refl _) htemporary hformer)
  | syncing hopened hhere hwritten => exact hwrite hopened hhere hwritten
  | replacing hopened hhere hwritten => exact hwrite hopened hhere hwritten
  | removing hopened hhere _ hwritten => exact hwrite hopened hhere hwritten
  | replaced => exact absurd rfl hs
  | unopened _ hgrown => exact hgrown.fileAt?_eq k
  | removed hopened hhere _ hremoved =>
      have hsame := (FileTree.SameDirectories.setContent _ _ _).trans hremoved.sameDirectories
      have hk := hopened.apart hhere hsame htemporary hformer
      rw [hremoved.fileAt?_eq hk.1]
      exact hopened.fileAt?_setContent _ hk

/-- A write that has failed leaves nothing new at the temporary name. -/
theorem fileAt?_eq_of_failed {failure : Failure}
    (h : Reached w path bytes (ended (.error failure)) v)
    (hformer : ¬ FormerTemporary w v path k) : v.files.fileAt? k = w.files.fileAt? k := by
  by_cases htemporary : TemporaryAt v path k
  · cases h with
    | unopened _ hgrown => exact hgrown.fileAt?_eq k
    | @removed _ temporary t u l id id' _ part hopened hhere _ hremoved =>
        have hl := hopened.temporaryAt hhere
          ((FileTree.SameDirectories.setContent _ _ _).trans hremoved.sameDirectories)
        obtain rfl := htemporary.unique hl
        rw [FileTree.fileAt?_of_none (by rw [hremoved.get?, if_pos rfl]),
          FileTree.fileAt?_of_not_sharesFile fun hk => hformer ⟨k, htemporary, hk⟩]
  · exact h.fileAt?_eq (by simp) htemporary hformer

/-- **A write that is done has put its bytes at the target**, has nothing left at the temporary name
beside it, unless both were names of one file, and has changed nothing else. -/
theorem exists_target (h : Reached w path bytes (ended (.ok ())) v) :
    ∃ d name, Path.fileName? path = some name ∧
      v.files.locate v.workingDirectory path = .ok (d ++ [name]) ∧
      v.files.fileAt? (d ++ [name]) = some bytes ∧
      TemporaryAt v path (d ++ [temporaryName name]) ∧
      (v.files.get? (d ++ [temporaryName name]) = none ∨
        w.files.SharesFile (d ++ [name]) (d ++ [temporaryName name]) ∧
          v.files.SharesFile (d ++ [name]) (d ++ [temporaryName name])) ∧
      ∀ k, k ≠ d ++ [name] → ¬ w.files.SharesFile k (d ++ [temporaryName name]) →
        v.files.fileAt? k = w.files.fileAt? k := by
  cases h with
  | @replaced _ temporary t u l l' id id' hopened hhere htarget hname hmoved =>
      have hlocated := hopened.opened.sameDirectories.locate_eq_ok_iff.mpr hopened.located
      obtain ⟨d, name, hfileName, -, rfl, rfl⟩ :=
        FileTree.locate_temporaryPath htarget hname hopened.isTemporary hlocated
      have hsame := (FileTree.SameDirectories.setContent u id bytes).trans hmoved.sameDirectories
      have hne : d ++ [temporaryName name] ≠ d ++ [name] := by
        simpa using temporaryName_ne name
      have hgone : v.files.get? (d ++ [temporaryName name]) = none ∨
          w.files.SharesFile (d ++ [name]) (d ++ [temporaryName name]) ∧
            v.files.SharesFile (d ++ [name]) (d ++ [temporaryName name]) :=
        (hmoved.get?_source hne).imp_right fun hboth =>
          ⟨hopened.sharesFile_of_get? hmoved.source hboth.2 (Ne.symm hne),
            id', by rw [hmoved.get?, if_pos rfl], hboth.1⟩
      refine ⟨d, name, hfileName, ?_, ?_, hopened.temporaryAt hhere hsame, hgone,
        fun k hk hshares => ?_⟩
      · rw [hhere]
        exact hsame.locate_eq_ok_iff.mpr htarget
      · rw [hmoved.fileAt?_target]
        exact hopened.opened.fileAt?_setContent_self bytes
      · by_cases hkl : k = d ++ [temporaryName name]
        · subst hkl
          rcases hgone with hgone | ⟨⟨i, -, hi⟩, -⟩
          · rw [FileTree.fileAt?_of_none hgone, FileTree.fileAt?_of_not_sharesFile hshares]
          · exact absurd ⟨i, hi, hi⟩ hshares
        · rw [hmoved.fileAt?_eq hkl hk]
          exact hopened.fileAt?_setContent bytes ⟨hkl, hshares⟩

/-- At any stage, a location that has not the temporary name holds what it held, or it is the target
and holds the bytes. -/
theorem fileAt?_eq_or (h : Reached w path bytes s v) (htemporary : ¬ TemporaryAt v path k)
    (hformer : ¬ FormerTemporary w v path k) :
    v.files.fileAt? k = w.files.fileAt? k ∨
      v.files.locate v.workingDirectory path = .ok k ∧ v.files.fileAt? k = some bytes := by
  by_cases hs : s = ended (.ok ())
  · subst hs
    obtain ⟨d, name, -, hl, hbytes, htemporaryAt, -, hothers⟩ := h.exists_target
    by_cases hk : k = d ++ [name]
    · subst hk
      exact .inr ⟨hl, hbytes⟩
    · exact .inl (hothers k hk fun hshares => hformer ⟨_, htemporaryAt, hshares⟩)
  · exact .inl (h.fileAt?_eq hs htemporary hformer)

/-- At any stage, a location that has not the temporary name holds what it held, or a beginning of
the bytes if it is another name of the former temporary file. -/
theorem fileAt?_eq_or_isBeginning (h : Reached w path bytes s v)
    (htemporary : ¬ TemporaryAt v path k) :
    v.files.fileAt? k = w.files.fileAt? k ∨
      ∃ part, v.files.fileAt? k = some part ∧ IsBeginning part bytes := by
  have hopen : ∀ {temporary t u l id}, TemporaryOpened w path temporary t u l id → k ≠ l →
      u.fileAt? k = w.files.fileAt? k ∨
        ∃ part, u.fileAt? k = some part ∧ IsBeginning part bytes := by
    intro temporary t u l id hopened hkl
    rcases hopened.opened.fileAt?_cases hkl with hsame | hempty
    · exact .inl (hsame.trans (hopened.grown.fileAt?_eq k))
    · exact .inr ⟨.empty, hempty, .empty bytes⟩
  have hwrite : ∀ {temporary t u l id part}, TemporaryOpened w path temporary t u l id → k ≠ l →
      IsBeginning part bytes →
      (u.setContent id part).fileAt? k = w.files.fileAt? k ∨
        ∃ part', (u.setContent id part).fileAt? k = some part' ∧ IsBeginning part' bytes := by
    intro temporary t u l id part hopened hkl hpart
    rcases u.fileAt?_setContent_cases id part k with hsame | hwritten
    · rw [hsame]
      exact hopen hopened hkl
    · exact .inr ⟨part, hwritten, hpart⟩
  have hne : ∀ {l}, TemporaryAt v path l → k ≠ l := fun hl hkl => htemporary (hkl ▸ hl)
  cases h with
  | looking => exact .inl rfl
  | making => exact .inl rfl
  | opening _ _ hgrown => exact .inl (hgrown.fileAt?_eq k)
  | writing hopened hhere => exact hopen hopened (hne (hopened.temporaryAt hhere (.refl _)))
  | syncing hopened hhere hwritten =>
      have hl := hopened.temporaryAt hhere (hwritten ▸ .setContent _ _ _)
      rw [hwritten]
      exact hwrite hopened (hne hl) (.all bytes)
  | replacing hopened hhere hwritten =>
      have hl := hopened.temporaryAt hhere (hwritten ▸ .setContent _ _ _)
      rw [hwritten]
      exact hwrite hopened (hne hl) (.all bytes)
  | removing hopened hhere hpart hwritten =>
      have hl := hopened.temporaryAt hhere (hwritten ▸ .setContent _ _ _)
      rw [hwritten]
      exact hwrite hopened (hne hl) hpart
  | @replaced _ temporary t u l l' id id' hopened hhere _ _ hmoved =>
      have hl := hopened.temporaryAt hhere
        ((FileTree.SameDirectories.setContent _ _ _).trans hmoved.sameDirectories)
      by_cases hk : k = l'
      · rw [hk, hmoved.fileAt?_target, hopened.opened.fileAt?_setContent_self]
        exact .inr ⟨bytes, rfl, .all bytes⟩
      · rw [hmoved.fileAt?_eq (hne hl) hk]
        exact hwrite hopened (hne hl) (.all bytes)
  | unopened _ hgrown => exact .inl (hgrown.fileAt?_eq k)
  | removed hopened hhere hpart hremoved =>
      have hl := hopened.temporaryAt hhere
        ((FileTree.SameDirectories.setContent _ _ _).trans hremoved.sameDirectories)
      rw [hremoved.fileAt?_eq (hne hl)]
      exact hwrite hopened (hne hl) hpart

/-- Where a directory stands at any stage, no file has stood: none has been put in the place of a
directory. -/
theorem fileAt?_of_directory (h : Reached w path bytes s v)
    (hdirectory : v.files.get? k = some .directory) : v.files.fileAt? k = w.files.fileAt? k := by
  rw [FileTree.fileAt?_of_directory hdirectory]
  rcases h.parentsMade.made k hdirectory with hold | ⟨hnone, -⟩
  · rw [FileTree.fileAt?_of_directory hold]
  · rw [FileTree.fileAt?_of_none hnone]

/-- At any stage, the target holds what it held, or a beginning of the bytes, whatever other names it
has. -/
theorem fileAt?_target_or_isBeginning (h : Reached w path bytes s v)
    (hk : v.files.locate v.workingDirectory path = .ok k) :
    v.files.fileAt? k = w.files.fileAt? k ∨
      ∃ part, v.files.fileAt? k = some part ∧ IsBeginning part bytes := by
  by_cases hdirectory : v.files.get? k = some .directory
  · exact .inl (h.fileAt?_of_directory hdirectory)
  · have hname : FileTree.endsInName path = true := by
      rw [← Bool.not_eq_false]
      exact fun hname => hdirectory (FileTree.get?_of_not_endsInName hk hname)
    exact h.fileAt?_eq_or_isBeginning (not_temporaryAt_of_locate hk hname)

/-- **At any stage, the target holds what it held, or the bytes.** -/
theorem fileAt?_target (h : Reached w path bytes s v)
    (hk : v.files.locate v.workingDirectory path = .ok k)
    (hformer : FileTree.endsInName path = true → ¬ FormerTemporary w v path k) :
    v.files.fileAt? k = w.files.fileAt? k ∨ v.files.fileAt? k = some bytes := by
  by_cases hdirectory : v.files.get? k = some .directory
  · exact .inl (h.fileAt?_of_directory hdirectory)
  · have hname : FileTree.endsInName path = true := by
      rw [← Bool.not_eq_false]
      exact fun hname => hdirectory (FileTree.get?_of_not_endsInName hk hname)
    exact (h.fileAt?_eq_or (not_temporaryAt_of_locate hk hname) (hformer hname)).imp_right And.right

end WriteStage.Reached

/-! ### All or nothing -/

/-- A write that succeeds has put its bytes at the path. Nothing is left at the temporary name beside
it, unless both were names of one file, and no other file has changed, except a former temporary
file. -/
theorem exists_target_of_writeAtomically {bytes : ByteArray}
    (h : w.runTask (writeAtomically path bytes) = (.ok (), v)) :
    ∃ d name, Path.fileName? path = some name ∧
      v.files.locate v.workingDirectory path = .ok (d ++ [name]) ∧
      v.files.read v.workingDirectory path = .ok bytes ∧
      TemporaryAt v path (d ++ [temporaryName name]) ∧
      (v.files.get? (d ++ [temporaryName name]) = none ∨
        w.files.SharesFile (d ++ [name]) (d ++ [temporaryName name]) ∧
          v.files.SharesFile (d ++ [name]) (d ++ [temporaryName name])) ∧
      ∀ k, k ≠ d ++ [name] → ¬ w.files.SharesFile k (d ++ [temporaryName name]) →
        v.files.fileAt? k = w.files.fileAt? k := by
  have hend := WriteStage.holds_at_end (WriteStage.Reached.first w path bytes) .step
  rw [h] at hend
  obtain ⟨d, name, hname, hl, -, htemporary, hgone, hothers⟩ := hend.exists_target
  exact ⟨d, name, hname, hl, read_of_writeAtomically h, htemporary, hgone, hothers⟩

/-- A write that fails has changed no file, except a former temporary file. -/
theorem fileAt?_of_writeAtomically_failed {bytes : ByteArray} {failure : Failure}
    (h : w.runTask (writeAtomically path bytes) = (.error failure, v))
    (hk : ¬ FormerTemporary w v path k) : v.files.fileAt? k = w.files.fileAt? k := by
  have hend := WriteStage.holds_at_end (WriteStage.Reached.first w path bytes) .step
  rw [h] at hend
  exact hend.fileAt?_eq_of_failed hk

/-- In either case all directories stay, and the new ones are parents that were missing. -/
theorem parentsMade_writeAtomically (w : World) (path : String) (bytes : ByteArray) :
    ParentsMade w (w.runTask (writeAtomically path bytes)).2 path :=
  (WriteStage.holds_at_end (WriteStage.Reached.first w path bytes) .step).parentsMade

/-! ### Targets that are torn -/

/-- The bytes of the file that a path leads to. -/
def World.bytesAt? (w : World) (path : String) : Option ByteArray :=
  w.files.bytesAt? w.workingDirectory path

/-- The file of the target also has the temporary name. -/
def World.SharesTemporary (w : World) (path : String) : Prop :=
  ∃ l l', w.files.locate w.workingDirectory path = .ok l ∧ TemporaryAt w path l' ∧
    w.files.SharesFile l l'

/-- A target that also has the temporary name is emptied as soon as the temporary file is opened. -/
theorem WriteStage.bytesAt?_of_opening {target : Location} (bytes : ByteArray)
    (htarget : w.files.locate w.workingDirectory path = .ok target)
    (hl : w.files.locate w.workingDirectory temporary = .ok l)
    (hname : FileTree.endsInName temporary = true)
    (hwants : FileTree.wantsDirectory temporary = false)
    (hshares : w.files.SharesFile target l) :
    ((opening temporary).advance path bytes w).2.bytesAt? path = some .empty := by
  obtain ⟨id, hid, hid'⟩ := hshares
  obtain ⟨⟨id', t⟩, hcreate⟩ := FileTree.exists_create_eq_ok hl hname hwants (by simp [hid'])
  obtain ⟨l', hl', -, -, hopened⟩ := FileTree.create_eq_ok hcreate
  obtain rfl := Except.ok.inj (hl'.symm.trans hl)
  -- the file that has been opened is that of the target
  obtain rfl : id' = id := by
    rcases hopened.known with hknown | ⟨hnone, -⟩
    · exact FileEntry.file.inj (Option.some.inj (hknown.symm.trans hid'))
    · exact absurd (hid'.symm.trans hnone) (by simp)
  have hget : t.get? target = some (.file id') := by
    rw [hopened.get?]
    split
    · rfl
    · exact hid
  simp only [advance, World.answer, hcreate]
  rw [World.bytesAt?, FileTree.bytesAt?,
    hopened.sameDirectories.locate_eq_ok_iff.mpr htarget]
  exact (FileTree.fileAt?_of_file hget).trans (by rw [hopened.content, if_pos rfl])

/-- **A target that also has the temporary name is torn** if the write is stopped once it has opened
the temporary file: nothing is left in it then. -/
theorem exists_stop_of_sharesTemporary (h : w.SharesTemporary path) (bytes : ByteArray) :
    ∃ n, (World.steps n w (writeAtomically path bytes).run).2.bytesAt? path = some .empty := by
  obtain ⟨target, l, htarget, ⟨temporary, htemporary, hl⟩, hshares⟩ := h
  have hname : FileTree.endsInName path = true := by
    obtain ⟨id, hid, -⟩ := hshares
    rw [← Bool.not_eq_false]
    intro hname
    exact absurd ((FileTree.get?_of_not_endsInName htarget hname).symm.trans hid) (by simp)
  obtain ⟨hname', hwants⟩ := FileTree.endsInName_temporaryPath htarget hname htemporary
  have hempty := WriteStage.bytesAt?_of_opening bytes htarget hl hname' hwants hshares
  have hprepared : WriteStage.prepared path = .opening temporary := by
    rw [WriteStage.prepared, htemporary]
  obtain ⟨parent, hparent, hthere⟩ := FileTree.isDirectory_parent htarget hname
  rw [← WriteStage.program_first, WriteStage.first, hparent]
  by_cases hworking : parent.isEmpty = true
  · refine ⟨1, ?_⟩
    simp only [hworking, if_true]
    rw [hprepared, World.steps, WriteStage.step_program]
    exact hempty
  · have hdirectory := hthere.resolve_left fun he => hworking (by rw [he]; rfl)
    have hexists : (w.answer (.pathExists parent)).1 = true :=
      FileTree.pathExists_of_isDirectory hdirectory
    refine ⟨2, ?_⟩
    simp only [hworking, Bool.false_eq_true, if_false]
    rw [World.steps, WriteStage.step_program, WriteStage.advance, if_pos hexists, hprepared,
      World.steps, WriteStage.step_program]
    exact hempty

/-! ### The result -/

/-- An atomic write does **all or nothing**, whether it succeeds, fails or is stopped, except to a
target that is another name of a former temporary file. -/
structure AllOrNothing (w : World) (path : String) (bytes : ByteArray) : Prop where
  /-- A write that succeeds has put its bytes at the path. Nothing is left at the temporary name
  beside it, unless both were names of one file, and no other file has changed, except a former
  temporary file. -/
  finished (v : World) (hv : w.runTask (writeAtomically path bytes) = (.ok (), v)) :
    ∃ d name, Path.fileName? path = some name ∧
      v.files.locate v.workingDirectory path = .ok (d ++ [name]) ∧
      v.files.read v.workingDirectory path = .ok bytes ∧
      TemporaryAt v path (d ++ [temporaryName name]) ∧
      (v.files.get? (d ++ [temporaryName name]) = none ∨
        w.files.SharesFile (d ++ [name]) (d ++ [temporaryName name]) ∧
          v.files.SharesFile (d ++ [name]) (d ++ [temporaryName name])) ∧
      ∀ k, k ≠ d ++ [name] → ¬ w.files.SharesFile k (d ++ [temporaryName name]) →
        v.files.fileAt? k = w.files.fileAt? k
  /-- A write that fails, on whatever request, has changed no file, except a former temporary
  file. -/
  failed (v : World) (failure : Failure)
    (hv : w.runTask (writeAtomically path bytes) = (.error failure, v)) (k : Location)
    (hk : ¬ FormerTemporary w v path k) : v.files.fileAt? k = w.files.fileAt? k
  /-- In either case all directories stay, and the new ones are parents that were missing. -/
  parents : ParentsMade w (w.runTask (writeAtomically path bytes)).2 path
  /-- Wherever a write is stopped, its target holds what it held, or the bytes, unless the target is
  another name of a former temporary file. -/
  target (n : Nat) (v : World) (hv : v = (World.steps n w (writeAtomically path bytes).run).2)
    (k : Location) (hk : v.files.locate v.workingDirectory path = .ok k)
    (hformer : ¬ FormerTemporary w v path k) :
    v.files.fileAt? k = w.files.fileAt? k ∨ v.files.fileAt? k = some bytes
  /-- Even then it holds what it held, or a beginning of the bytes. -/
  linked (n : Nat) (v : World) (hv : v = (World.steps n w (writeAtomically path bytes).run).2)
    (k : Location) (hk : v.files.locate v.workingDirectory path = .ok k) :
    v.files.fileAt? k = w.files.fileAt? k ∨
      ∃ part, v.files.fileAt? k = some part ∧ IsBeginning part bytes
  /-- Such a target can be found empty: the exception is met whenever the path leads to it from the
  start. -/
  torn (hshares : w.SharesTemporary path) :
    ∃ n, (World.steps n w (writeAtomically path bytes).run).2.bytesAt? path = some .empty
  /-- If no file has two names, then wherever a write is stopped, its target holds what it held, or
  the bytes. -/
  single (hsingle : ∀ k l, w.files.SharesFile k l → k = l) (n : Nat) (v : World)
    (hv : v = (World.steps n w (writeAtomically path bytes).run).2) (k : Location)
    (hk : v.files.locate v.workingDirectory path = .ok k) :
    v.files.fileAt? k = w.files.fileAt? k ∨ v.files.fileAt? k = some bytes
  /-- Wherever a write is stopped, no other file has changed, except the temporary one. -/
  others (n : Nat) (v : World) (hv : v = (World.steps n w (writeAtomically path bytes).run).2)
    (k : Location) (hk : v.files.locate v.workingDirectory path ≠ .ok k)
    (htemporary : ¬ TemporaryAt v path k) (hformer : ¬ FormerTemporary w v path k) :
    v.files.fileAt? k = w.files.fileAt? k

/-- **An atomic write does all or nothing**, except to a target that is another name of a former
temporary file. -/
theorem writeAtomically_allOrNothing (w : World) (path : String) (bytes : ByteArray) :
    AllOrNothing w path bytes := by
  have hfirst := WriteStage.Reached.first w path bytes
  refine ⟨fun v hv => exists_target_of_writeAtomically hv,
    fun v failure hv k hk => fileAt?_of_writeAtomically_failed hv hk,
    parentsMade_writeAtomically w path bytes, fun n v hv k hk hformer => ?_,
    fun n v hv k hk => ?_, fun hshares => exists_stop_of_sharesTemporary hshares bytes,
    fun hsingle n v hv k hk => ?_, fun n v hv k hk htemporary hformer => ?_⟩
  · obtain ⟨s, -, hs⟩ := WriteStage.holds_along hfirst .step n
    subst hv
    exact hs.fileAt?_target hk fun _ => hformer
  · obtain ⟨s, -, hs⟩ := WriteStage.holds_along hfirst .step n
    subst hv
    exact hs.fileAt?_target_or_isBeginning hk
  · obtain ⟨s, -, hs⟩ := WriteStage.holds_along hfirst .step n
    subst hv
    exact hs.fileAt?_target hk fun hname hformer =>
      not_temporaryAt_of_locate hk hname (hformer.temporaryAt hsingle)
  · obtain ⟨s, -, hs⟩ := WriteStage.holds_along hfirst .step n
    subst hv
    exact (hs.fileAt?_eq_or htemporary hformer).resolve_right fun h => hk h.1

/-- What succeeds with a value is this value. -/
theorem eq_ok_of_toOption_eq {ε α : Type} {x : Except ε α} {a : α}
    (h : x.toOption = some a) : x = .ok a := by
  cases x with
  | error e => simp [Except.toOption] at h
  | ok b => exact congrArg Except.ok (Option.some.inj h)

/-- The tree of one file with the names `x` and `.x.tmp`. -/
def linkedTree (bytes : ByteArray) : FileTree :=
  let t := (FileTree.empty.addFile ["x"] (by decide) rfl (by decide) rfl).2
  (t.setContent 0 bytes).place [".x.tmp"] (.file 0)
    { proper := by decide
      parent := rfl
      named := by decide
      leaf := .inr nofun
      bytes := by
        rintro _ ⟨⟩
        exact Nat.zero_lt_one }

/-- **A write that is stopped can tear its target**, and one that is done can leave its temporary
name behind, if the target had that name too. -/
theorem writeAtomically_tears :
    (¬ ∀ (w : World) (path : String) (bytes : ByteArray) (n : Nat),
      let v := (World.steps n w (writeAtomically path bytes).run).2
      v.bytesAt? path = w.bytesAt? path ∨ v.bytesAt? path = some bytes) ∧
    ¬ ∀ (w : World) (path : String) (bytes : ByteArray) (v : World),
      w.runTask (writeAtomically path bytes) = (.ok (), v) →
        ∀ l, TemporaryAt v path l → v.files.get? l = none := by
  let w : World := { (default : World) with files := linkedTree "old".toUTF8 }
  constructor
  · intro h
    have hbefore : w.bytesAt? "x" = some "old".toUTF8 := by decide +kernel
    have hempty : (World.steps 1 w (writeAtomically "x" "new".toUTF8).run).2.bytesAt? "x" =
        some .empty := by decide +kernel
    rcases h w "x" "new".toUTF8 1 with hold | hnew
    · exact absurd (hempty.symm.trans (hold.trans hbefore)) (by decide)
    · exact absurd (hempty.symm.trans hnew) (by decide)
  · intro h
    have hdone : (w.runTask (writeAtomically "x" "new".toUTF8)).1.isOk = true := by decide +kernel
    have hlocated : ((w.runTask (writeAtomically "x" "new".toUTF8)).2.files.locate (some [])
        ".x.tmp").toOption = some [".x.tmp"] := by decide +kernel
    have hleft : (w.runTask (writeAtomically "x" "new".toUTF8)).2.files.get? [".x.tmp"] =
        some (.file 0) := by decide +kernel
    have hgone := h w "x" "new".toUTF8 _ (World.runTask_of_isOk hdone) [".x.tmp"]
      ⟨".x.tmp", rfl, eq_ok_of_toOption_eq hlocated⟩
    exact absurd (hleft.symm.trans hgone) (by simp)

end Outreach
