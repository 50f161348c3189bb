import Outreach.Files.AtomicWrite
import Outreach.Proofs.Files.Tree
import Outreach.World

/-!
# The Stages of an Atomic Write

An atomic write that is stopped between two requests is at one of a few *stages*: it is looking for
the parent of its path, or has its temporary file open, and so on. Each stage stands for what is
left of the program, and each step of the program leads from one stage to another. What holds at
every stage therefore holds wherever the write is stopped, and whatever happens in between.

## Main results

* `WriteStage.step_program`: one step of the program is one step from stage to stage.
* `WriteStage.program_first`: the whole write is what is left at its first stage.
* `WriteStage.step_advance`: what a step from stage to stage can do.
* `WriteStage.holds_along`: what every step from stage to stage preserves holds wherever the write
  is stopped.
-/

namespace Outreach

/-! ### Programs that are stopped -/

namespace World

variable {α : Type}

/-- Run at most so many requests of a program; what is left of it and the world then. -/
def steps : Nat → World → Program α → Program α × World
  | 0, w, p => (p, w)
  | n + 1, w, p => steps n (w.step p).2 (w.step p).1

/-- A program that is not stopped early is run to its end. -/
theorem exists_steps_eq_run (w : World) (p : Program α) :
    ∃ n, steps n w p = (.done (w.run p).1, (w.run p).2) := by
  induction p generalizing w with
  | done a => exact ⟨0, rfl⟩
  | perform r next ih =>
      obtain ⟨n, hn⟩ := ih (w.answer r).1 (w.answer r).2
      exact ⟨n + 1, hn⟩

end World

/-! ### Stages -/

/-- Where an atomic write is: what it does next, with what it needs for that. -/
inductive WriteStage where
  | looking (parent : String)
  | making (parent : String)
  | opening (temporary : String)
  | writing (temporary : String) (handle : Nat)
  | syncing (temporary : String) (handle : Nat)
  | replacing (temporary : String)
  /-- The write has failed and takes its temporary file away. -/
  | removing (temporary : String) (failure : Failure)
  | ended (result : Except Failure Unit)

namespace WriteStage

variable (path : String) (bytes : ByteArray)

/-- Where an atomic write is once the parent of its path has been seen to. -/
def prepared : WriteStage :=
  match temporaryPath? path with
  | none => ended (.error (.pathWithoutFileName path))
  | some temporary => opening temporary

/-- Where an atomic write starts: with a look for its parent, unless there is none to look for. -/
def first : WriteStage :=
  match Path.parent? path with
  | none => prepared path
  | some parent => if parent.isEmpty then prepared path else looking parent

/-- What is left of an atomic write at a stage. -/
def program : WriteStage → Program (Except Failure Unit)
  | looking parent => ExceptT.run do
    sought parent
    fromTemporary
  | making parent => ExceptT.run do
    Task.orFail (.parentNotMade parent) (← Task.request (.makeDirectories parent))
    fromTemporary
  | opening temporary => ExceptT.run do
    writeTemporary temporary bytes
    putInPlace temporary path
  | writing temporary handle => ExceptT.run do
    settled temporary (writeThrough handle bytes)
    putInPlace temporary path
  | syncing temporary handle => ExceptT.run do
    settled temporary (Program.request (.sync handle))
    putInPlace temporary path
  | replacing temporary => (putInPlace temporary path).run
  | removing temporary failure => ExceptT.run do
    let _ ← Task.request (.remove temporary)
    throw failure
  | ended result => .done result
where
  /-- What an atomic write does about a parent. -/
  sought (parent : String) : Task Unit := do
    if ← Task.request (.pathExists parent) then pure ()
    else Task.orFail (.parentNotMade parent) (← Task.request (.makeDirectories parent))
  /-- What an atomic write does after that. -/
  fromTemporary : Task Unit :=
    match temporaryPath? path with
    | none => throw (.pathWithoutFileName path)
    | some temporary => do
      writeTemporary temporary bytes
      putInPlace temporary path
  /-- How writing a temporary file ends, with what is left of it. -/
  settled (temporary : String) (left : Program (Except FileError Unit)) : Task Unit := do
    match ← Task.ofProgram left with
    | .ok () => pure ()
    | .error e =>
      let _ ← Task.request (.remove temporary)
      throw (.temporaryNotWritten temporary e)

/-- The stage that follows a stage in a world, and the world then. -/
def advance (w : World) : WriteStage → WriteStage × World
  | looking parent =>
    (if (w.answer (.pathExists parent)).1 then prepared path else making parent, w)
  | making parent =>
    match w.answer (.makeDirectories parent) with
    | (.ok (), w) => (prepared path, w)
    | (.error e, w) => (ended (.error (.parentNotMade parent e)), w)
  | opening temporary =>
    match w.answer (.create temporary) with
    | (.ok handle, w) => (writing temporary handle, w)
    | (.error e, w) => (ended (.error (.temporaryNotMade temporary e)), w)
  | writing temporary handle =>
    match w.answer (.write handle bytes) with
    | (.ok (), w) => (syncing temporary handle, w)
    | (.error e, w) => (removing temporary (.temporaryNotWritten temporary e), w)
  | syncing temporary handle =>
    match w.answer (.sync handle) with
    | (.ok (), w) => (replacing temporary, w)
    | (.error e, w) => (removing temporary (.temporaryNotWritten temporary e), w)
  | replacing temporary =>
    match w.answer (.replace temporary path) with
    | (.ok (), w) => (ended (.ok ()), w)
    | (.error e, w) => (removing temporary (.targetNotReplaced path e), w)
  | removing temporary failure => (ended (.error failure), (w.answer (.remove temporary)).2)
  | ended result => (ended result, w)

/-! ### The program goes from stage to stage -/

/-- The program from the temporary file on is that of the stage at which the parents are there. -/
theorem program_prepared :
    (prepared path).program path bytes = (program.fromTemporary path bytes).run := by
  rw [prepared, program.fromTemporary]
  cases temporaryPath? path with
  | none => rfl
  | some temporary => rfl

/-- The whole write is what is left at its first stage. -/
theorem program_first : (first path).program path bytes = (writeAtomically path bytes).run := by
  rw [first, writeAtomically, makeParent]
  cases Path.parent? path with
  | none => exact program_prepared path bytes
  | some parent =>
      cases hempty : parent.isEmpty with
      | true =>
          simp only [hempty, if_true]
          exact program_prepared path bytes
      | false =>
          simp only [hempty, Bool.false_eq_true, if_false]
          rfl

variable {path bytes}

/-- An atomic write that is done has ended. -/
theorem eq_ended_of_program_eq_done {s : WriteStage} {result : Except Failure Unit}
    (h : s.program path bytes = .done result) : s = ended result := by
  cases s with
  | ended r => exact congrArg ended (Program.done.inj h)
  | _ => exact Program.noConfusion rfl (heq_of_eq h)

variable (path bytes)

/-- **One step of the program is one step from stage to stage.** -/
theorem step_program (w : World) (s : WriteStage) :
    w.step (s.program path bytes) =
      ((s.advance path bytes w).1.program path bytes, (s.advance path bytes w).2) := by
  cases s with
  | looking parent =>
      have hprogram : (looking parent).program path bytes = .perform (.pathExists parent)
          fun there => (if there then prepared path else making parent).program path bytes := by
        refine congrArg (Program.perform _) (funext fun there => ?_)
        cases there with
        | true => exact (program_prepared path bytes).symm
        | false => rfl
      rw [hprogram]
      rfl
  | making parent =>
      have hprogram : (making parent).program path bytes = .perform (.makeDirectories parent)
          fun
          | .ok () => (prepared path).program path bytes
          | .error e => .done (.error (.parentNotMade parent e)) := by
        refine congrArg (Program.perform _) (funext fun made => ?_)
        rcases made with e | ⟨⟨⟩⟩
        · rfl
        · exact (program_prepared path bytes).symm
      rw [hprogram, advance, World.step]
      rcases w.answer (.makeDirectories parent) with ⟨e | ⟨⟨⟩⟩, w'⟩ <;> rfl
  | opening temporary =>
      have hprogram : (opening temporary).program path bytes = .perform (.create temporary)
          fun
          | .ok handle => (writing temporary handle).program path bytes
          | .error e => .done (.error (.temporaryNotMade temporary e)) :=
        congrArg (Program.perform _) (funext fun made => by cases made <;> rfl)
      rw [hprogram, advance, World.step]
      rcases w.answer (.create temporary) with ⟨e | handle, w'⟩ <;> rfl
  | writing temporary handle =>
      have hprogram : (writing temporary handle).program path bytes = .perform (.write handle bytes)
          fun
          | .ok () => (syncing temporary handle).program path bytes
          | .error e =>
            (removing temporary (.temporaryNotWritten temporary e)).program path bytes :=
        congrArg (Program.perform _) (funext fun written => by cases written <;> rfl)
      rw [hprogram, advance, World.step]
      rcases w.answer (.write handle bytes) with ⟨e | ⟨⟨⟩⟩, w'⟩ <;> rfl
  | syncing temporary handle =>
      have hprogram : (syncing temporary handle).program path bytes = .perform (.sync handle)
          fun
          | .ok () => (replacing temporary).program path bytes
          | .error e =>
            (removing temporary (.temporaryNotWritten temporary e)).program path bytes :=
        congrArg (Program.perform _) (funext fun synced => by cases synced <;> rfl)
      rw [hprogram, advance, World.step]
      rcases w.answer (.sync handle) with ⟨e | ⟨⟨⟩⟩, w'⟩ <;> rfl
  | replacing temporary =>
      have hprogram : (replacing temporary).program path bytes =
          .perform (.replace temporary path)
          fun
          | .ok () => .done (.ok ())
          | .error e => (removing temporary (.targetNotReplaced path e)).program path bytes :=
        congrArg (Program.perform _) (funext fun replaced => by cases replaced <;> rfl)
      rw [hprogram, advance, World.step]
      rcases w.answer (.replace temporary path) with ⟨e | ⟨⟨⟩⟩, w'⟩ <;> rfl
  | removing temporary failure => rfl
  | ended result => rfl

variable {path bytes}

/-! ### What a step can do -/

/-- **What a step from stage to stage can do**: make directories, open the file at the temporary
path, write, move or remove it. A request that fails changes nothing, except that it may have made
some of the directories, or written some of the bytes. -/
inductive Step (path : String) (bytes : ByteArray) : WriteStage → World → WriteStage → World → Prop
  | found {parent : String} {v : World}
      (hfound : v.files.pathExists v.workingDirectory parent = true) :
      Step path bytes (looking parent) v (prepared path) v
  | missing {parent : String} {v : World}
      (hmissing : v.files.pathExists v.workingDirectory parent = false) :
      Step path bytes (looking parent) v (making parent) v
  | made {parent : String} {v : World} {t : FileTree}
      (hgrown : v.files.Grown t v.workingDirectory (Path.ancestors parent)) :
      Step path bytes (making parent) v (prepared path) { v with files := t }
  | unmade {parent : String} {v : World} {t : FileTree} {e : FileError}
      (hgrown : v.files.Grown t v.workingDirectory (Path.ancestors parent)) :
      Step path bytes (making parent) v (ended (.error (.parentNotMade parent e)))
        { v with files := t }
  | opened {temporary : String} {v : World} {t : FileTree} {l : Location} {id : FileId}
      (hl : v.files.locate v.workingDirectory temporary = .ok l)
      (hname : FileTree.endsInName temporary = true)
      (hwants : FileTree.wantsDirectory temporary = false) (hopened : v.files.Opened t l id) :
      Step path bytes (opening temporary) v (writing temporary v.handles.length)
        { v with files := t, handles := v.handles ++ [(id, 0)] }
  | unopened {temporary : String} {v : World} {e : FileError}
      (hcreate : v.files.create v.workingDirectory temporary = .error e) :
      Step path bytes (opening temporary) v (ended (.error (.temporaryNotMade temporary e))) v
  | written {temporary : String} {v : World} {handle : Nat} {id : FileId} {offset : Nat}
      (hhandle : v.handles[handle]? = some (id, offset)) :
      Step path bytes (writing temporary handle) v (syncing temporary handle)
        (v.written handle id offset bytes)
  | unwritten {temporary : String} {v : World} {handle : Nat} {id : FileId} {offset : Nat}
      {fault : Fault} (hhandle : v.handles[handle]? = some (id, offset))
      (hfault : v.fault? = some fault) :
      Step path bytes (writing temporary handle) v
        (removing temporary (.temporaryNotWritten temporary fault.error))
        (v.written handle id offset (bytes.extract 0 fault.taken))
  | unheld {temporary : String} {v : World} {handle : Nat} {e : FileError}
      (hhandle : v.handles[handle]? = none) :
      Step path bytes (writing temporary handle) v
        (removing temporary (.temporaryNotWritten temporary e)) v
  | synced {temporary : String} {v : World} {handle : Nat} :
      Step path bytes (syncing temporary handle) v (replacing temporary) v.pastFault
  | unsynced {temporary : String} {v : World} {handle : Nat} {fault : Fault}
      (hfault : v.fault? = some fault) :
      Step path bytes (syncing temporary handle) v
        (removing temporary (.temporaryNotWritten temporary fault.error)) v.pastFault
  | replaced {temporary : String} {v : World} {t : FileTree} {l l' : Location} {id : FileId}
      (hl : v.files.locate v.workingDirectory temporary = .ok l)
      (hl' : v.files.locate v.workingDirectory path = .ok l')
      (hname : FileTree.endsInName path = true) (hmoved : v.files.Moved t l l' id) :
      Step path bytes (replacing temporary) v (ended (.ok ())) { v.pastFault with files := t }
  | unreplaced {temporary : String} {v : World} {e : FileError}
      (hreplace : v.files.replace v.workingDirectory temporary path = .error e ∨
        ∃ fault, v.fault? = some fault ∧ fault.error = e) :
      Step path bytes (replacing temporary) v (removing temporary (.targetNotReplaced path e))
        v.pastFault
  | removed {temporary : String} {v : World} {failure : Failure} {t : FileTree} {l : Location}
      {id : FileId} (hl : v.files.locate v.workingDirectory temporary = .ok l)
      (hremoved : v.files.Removed t l id) :
      Step path bytes (removing temporary failure) v (ended (.error failure)) { v with files := t }
  | unremoved {temporary : String} {v : World} {failure : Failure} {e : FileError}
      (hremove : v.files.remove v.workingDirectory temporary = .error e) :
      Step path bytes (removing temporary failure) v (ended (.error failure)) v
  | ended {result : Except Failure Unit} {v : World} :
      Step path bytes (ended result) v (ended result) v

/-- Advancing a stage is one of the steps that a write can take. -/
theorem step_advance (path : String) (bytes : ByteArray) (s : WriteStage) (v : World) :
    Step path bytes s v (s.advance path bytes v).1 (s.advance path bytes v).2 := by
  cases s with
  | looking parent =>
      rw [advance]
      cases h : (v.answer (.pathExists parent)).1 with
      | true => exact .found h
      | false => exact .missing h
  | making parent =>
      have hgrown := FileTree.grown_makeDirectories v.files v.workingDirectory parent
      simp only [advance, World.answer]
      generalize v.files.makeDirectories v.workingDirectory parent = made at hgrown
      obtain ⟨e | ⟨⟨⟩⟩, t⟩ := made
      · exact .unmade hgrown
      · exact .made hgrown
  | opening temporary =>
      simp only [advance, World.answer]
      rcases hcreate : v.files.create v.workingDirectory temporary with e | ⟨id, t⟩
      · exact .unopened hcreate
      · obtain ⟨l, hl, hname, hwants, hopened⟩ := FileTree.create_eq_ok hcreate
        exact .opened hl hname hwants hopened
  | writing temporary handle =>
      rcases hhandle : v.handles[handle]? with - | ⟨id, offset⟩
      · simp only [advance, World.answer, hhandle]
        exact .unheld hhandle
      · rcases hfault : v.fault? with - | fault
        · simp only [advance, World.answer, hhandle, hfault]
          exact .written hhandle
        · simp only [advance, World.answer, hhandle, hfault]
          exact .unwritten hhandle hfault
  | syncing temporary handle =>
      rcases hfault : v.fault? with - | fault
      · simp only [advance, World.answer, hfault]
        exact .synced
      · simp only [advance, World.answer, hfault]
        exact .unsynced hfault
  | replacing temporary =>
      rcases hfault : v.fault? with - | fault
      case some =>
        simp only [advance, World.answer, hfault]
        exact .unreplaced (.inr ⟨fault, hfault, rfl⟩)
      simp only [advance, World.answer, hfault]
      rcases hreplace : v.files.replace v.workingDirectory temporary path with e | t
      · exact .unreplaced (.inl hreplace)
      · obtain ⟨l, l', id, hl, hl', hname, -, hmoved⟩ := FileTree.replace_eq_ok hreplace
        exact .replaced hl hl' hname hmoved
  | removing temporary failure =>
      simp only [advance, World.answer]
      rcases hremove : v.files.remove v.workingDirectory temporary with e | t
      · exact .unremoved hremove
      · obtain ⟨l, id, hl, hremoved⟩ := FileTree.remove_eq_ok hremove
        exact .removed hl hremoved
  | ended result => exact .ended

variable {I : WriteStage → World → Prop} {w : World}

/-- What holds at the first stage and is preserved by every step holds wherever an atomic write is
stopped. -/
theorem holds_along (hfirst : I (first path) w)
    (hstep : ∀ {s s' v v'}, Step path bytes s v s' v' → I s v → I s' v') (n : Nat) :
    ∃ s, (World.steps n w (writeAtomically path bytes).run).1 = s.program path bytes ∧
      I s (World.steps n w (writeAtomically path bytes).run).2 := by
  rw [← program_first]
  generalize first path = s at hfirst
  induction n generalizing s w with
  | zero => exact ⟨s, rfl, hfirst⟩
  | succ n ih =>
      rw [World.steps, step_program]
      exact ih _ (hstep (step_advance path bytes s w) hfirst)

/-- What holds at the first stage and is preserved by every step holds once an atomic write has run
to its end. -/
theorem holds_at_end (hfirst : I (first path) w)
    (hstep : ∀ {s s' v v'}, Step path bytes s v s' v' → I s v → I s' v') :
    I (ended (w.runTask (writeAtomically path bytes)).1)
      (w.runTask (writeAtomically path bytes)).2 := by
  obtain ⟨n, hn⟩ := w.exists_steps_eq_run (writeAtomically path bytes).run
  obtain ⟨s, hs, hI⟩ := holds_along hfirst hstep n
  rw [hn] at hs hI
  rwa [eq_ended_of_program_eq_done hs.symm] at hI

end WriteStage

end Outreach
