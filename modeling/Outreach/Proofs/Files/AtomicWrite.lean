import Outreach.Files.AtomicWrite
import Outreach.Proofs.Files.Tree
import Outreach.World

/-!
# A File Written as a Whole

When an atomic write succeeds, it has opened a temporary file, written all bytes to it and put it in
the place of the target. The directories on the way to the target are still the same, so looking up
the target finds the file with these bytes.

## Main results

* `writeTemporary_eq_ok`: what a finished temporary file leaves behind.
* `putInPlace_eq_ok`: what putting it in place leaves behind.
* `FileTree.read_of_replace`: the file is found under the name of the target.
* `read_of_writeAtomically`: **what has been written is read**.
-/

namespace Outreach

/-- Bytes that are **a beginning** of others, be it of none or of all of them. -/
def IsBeginning (part bytes : ByteArray) : Prop :=
  ∃ size, part = bytes.extract 0 size

/-- All bytes are a beginning of themselves. -/
theorem IsBeginning.all (bytes : ByteArray) : IsBeginning bytes bytes :=
  ⟨bytes.size, ByteArray.extract_zero_size.symm⟩

/-- So is nothing. -/
theorem IsBeginning.empty (bytes : ByteArray) : IsBeginning .empty bytes :=
  ⟨0, by simp⟩

/-- Writing over nothing gives what is written. -/
theorem overwrite_empty (bytes : ByteArray) : overwrite .empty 0 bytes = bytes := by
  apply ByteArray.ext
  simp [overwrite]

/-- Writing through a handle that succeeds has met no fault: all bytes are written over those of its
file, from its place on. -/
theorem writeThrough_eq_ok {w w' : World} {handle : Nat} {id : FileId} {offset : Nat}
    {bytes : ByteArray} (hhandle : w.handles[handle]? = some (id, offset))
    (h : w.run (writeThrough handle bytes) = (.ok (), w')) :
    w' = (w.written handle id offset bytes).pastFault := by
  rw [writeThrough, Program.bind_eq, World.run_bind, World.run_request] at h
  rcases hfault : w.fault? with - | fault
  · simp only [World.answer, hhandle, hfault] at h
    change (w.written handle id offset bytes).answer (.sync handle) = _ at h
    rcases hfault' : (w.written handle id offset bytes).fault? with - | fault
    · simp only [World.answer, hfault'] at h
      exact (congrArg Prod.snd h).symm
    · simp only [World.answer, hfault'] at h
      exact absurd (congrArg Prod.fst h) (by simp)
  · simp only [World.answer, hhandle, hfault] at h
    exact absurd (congrArg Prod.fst h) (by simp [Program.pure_eq])

/-- A finished temporary file has been made in the working directory, and all bytes are in it. -/
theorem writeTemporary_eq_ok {w w' : World} {temporary : String} {bytes : ByteArray}
    (h : w.runTask (writeTemporary temporary bytes) = (.ok (), w')) :
    w'.workingDirectory = w.workingDirectory ∧
      ∃ id t, w.files.create w.workingDirectory temporary = .ok (id, t) ∧
        w'.files = t.setContent id bytes := by
  rw [writeTemporary, World.runTask_bind, World.runTask_request] at h
  simp only [World.answer] at h
  rcases hcreate : w.files.create w.workingDirectory temporary with e | ⟨id, t⟩
  · simp [hcreate, Task.orFail] at h
  · simp only [hcreate, Task.orFail, World.runTask_bind, World.runTask_pure,
      World.runTask_ofProgram] at h
    have hhandle : (w.handles ++ [(id, 0)])[w.handles.length]? = some (id, 0) := by simp
    rcases hwritten : World.run { w with files := t, handles := w.handles ++ [(id, 0)] }
      (writeThrough w.handles.length bytes) with ⟨e | ⟨⟨⟩⟩, v⟩
    · rw [hwritten] at h
      rw [World.runTask_bind, World.runTask_request] at h
      exact absurd (congrArg Prod.fst h) (by simp)
    · rw [hwritten] at h
      obtain rfl := (Prod.mk.inj h).2
      obtain rfl := writeThrough_eq_ok hhandle hwritten
      obtain ⟨_, -, -, -, hopened⟩ := FileTree.create_eq_ok hcreate
      refine ⟨rfl, id, t, rfl, ?_⟩
      change t.setContent id (overwrite (t.content id) 0 bytes) = _
      rw [hopened.content, if_pos rfl, overwrite_empty]

/-- A temporary file that has been put in place has the name of the target. -/
theorem putInPlace_eq_ok {w w' : World} {temporary path : String}
    (h : w.runTask (putInPlace temporary path) = (.ok (), w')) :
    w'.workingDirectory = w.workingDirectory ∧
      w.files.replace w.workingDirectory temporary path = .ok w'.files := by
  rw [putInPlace, World.runTask_bind, World.runTask_request] at h
  rcases hfault : w.fault? with - | fault
  case some =>
    simp only [World.answer, hfault] at h
    rw [World.runTask_bind, World.runTask_request] at h
    exact absurd (congrArg Prod.fst h) (by simp)
  simp only [World.answer, hfault] at h
  rcases hreplace : w.files.replace w.workingDirectory temporary path with e | t
  · rw [hreplace] at h
    rw [World.runTask_bind, World.runTask_request] at h
    exact absurd (congrArg Prod.fst h) (by simp)
  · simp only [hreplace, World.runTask_pure] at h
    obtain rfl := (Prod.mk.inj h).2
    exact ⟨rfl, rfl⟩

/-- A file that has been opened, written and given the name of a target is found under that name:
the directories on the way to both have stayed. -/
theorem FileTree.read_of_replace {t u t' : FileTree} {here : Option Location}
    {temporary path : String} {id : FileId} {bytes : ByteArray}
    (hcreate : t.create here temporary = .ok (id, u))
    (hreplace : (u.setContent id bytes).replace here temporary path = .ok t') :
    t'.read here path = .ok bytes := by
  obtain ⟨l, hl, -, -, hopened⟩ := create_eq_ok hcreate
  obtain ⟨l', k, id', hl', hk, -, hwants, hmoved⟩ := replace_eq_ok hreplace
  have hid : u.get? l = some (.file id) := by rw [hopened.get?, if_pos rfl]
  -- the temporary file is where it was made
  obtain rfl : l' = l := by
    have := locate_mono hopened.sameDirectories.keepsDirectories hl
    exact Except.ok.inj (hl'.symm.trans this)
  obtain rfl : id' = id := by
    have hfile := hmoved.source
    rw [get?_setContent, hid] at hfile
    exact (FileEntry.file.inj (Option.some.inj hfile)).symm
  -- and the target is where it was put
  have hfound := locate_mono hmoved.sameDirectories.keepsDirectories hk
  have hplaced : t'.get? k = some (.file id') := by rw [hmoved.get?, if_pos rfl]
  have hbytes : t'.content id' = bytes := by
    rw [content_eq hmoved.contents, content_setContent u (u.held l' id' hid), if_pos rfl]
  rw [read, find, hfound]
  simp [hplaced, hwants, hbytes]

/-- **What has been written is read.** After an atomic write that succeeds, the file at its path
holds exactly the bytes. -/
theorem read_of_writeAtomically {w w' : World} {path : String} {bytes : ByteArray}
    (h : w.runTask (writeAtomically path bytes) = (.ok (), w')) :
    w'.files.read w'.workingDirectory path = .ok bytes := by
  rw [writeAtomically, World.runTask_bind_eq_ok] at h
  obtain ⟨⟨⟩, u, -, h⟩ := h
  split at h
  · simp at h
  · obtain ⟨⟨⟩, v, htemporary, hplace⟩ := World.runTask_bind_eq_ok.mp h
    obtain ⟨hhere, id, t, hcreate, hv⟩ := writeTemporary_eq_ok htemporary
    obtain ⟨hhere', hreplace⟩ := putInPlace_eq_ok hplace
    rw [hhere, hv] at hreplace
    rw [hhere', hhere]
    exact FileTree.read_of_replace hcreate hreplace

end Outreach
