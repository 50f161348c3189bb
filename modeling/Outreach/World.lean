import Outreach.Files.Tree
import Outreach.Program

/-!
# The Model World

A world answers the requests of programs: it has a file tree, a working directory, variables, a
clock, a time zone and a service. Each request is one step; between the steps of one program another
may run.

An open file is a handle: the number of the file and the place where the next bytes go. It stays
with its file when the name of the file changes or goes.

The disk may fail. A world has the faults that it will show: a write, a wait for the disk or a
change of name that meets one is refused, a write after some of its bytes have been taken.

## Main results

* `World.run_bind`: running programs one after the other.
* `World.runTask_bind_eq_ok`: when one task after another succeeds.
-/

namespace Outreach

/-- A **fault** of the disk: the error with which it refuses a request, and how many of the bytes to
be written it has taken by then. -/
structure Fault where
  error : FileError
  taken : Nat
  deriving DecidableEq, Repr

/-- A **world**: all that the answers to the requests of programs depend on. Processes that run in
it one after the other or by turns see each other through it only. -/
structure World where
  files : FileTree
  /-- The working directory, as long as it exists. -/
  workingDirectory : Option Location
  environment : List (String × String)
  /-- Milliseconds since the start of 1970 in universal time. -/
  clock : Nat
  /-- By how many milliseconds local time is ahead of universal time at each instant. -/
  zone : Nat → Int := fun _ => 0
  /-- What the service does with a message. -/
  service : Posting → Except String Reply
  /-- The open files, each with the place of its next byte. -/
  handles : List (FileId × Nat)
  /-- What goes wrong with the next requests to write, to sync and to replace, one entry for each.
  Nothing goes wrong with those after them. -/
  faults : List (Option Fault) := []
  /-- The messages that have been sent, the first one first. -/
  sent : List Posting

/-- The world of an empty file tree at the start of 1970, seen from its root, without a service. -/
instance : Inhabited World where
  default :=
    { files := .empty, workingDirectory := some [], environment := [], clock := 0,
      service := fun _ => .error "no service", handles := [], sent := [] }

/-- Bytes with others written over them from a place on. Zeros fill a gap before that place. -/
def overwrite (old : ByteArray) (offset : Nat) (new : ByteArray) : ByteArray :=
  let gap := ByteArray.mk (Array.replicate (offset - old.size) 0)
  old.extract 0 offset ++ gap ++ new ++ old.extract (offset + new.size) old.size

namespace World

/-- The path of a location: its names behind slashes, from the root on. -/
def pathOf (l : Location) : String :=
  "/" ++ String.intercalate "/" l

/-- The date of an instant where the program runs, which is that of the instant moved by the
offset of local time. -/
def dateAt (w : World) (instant : Nat) : Date :=
  Date.ofUnixMillis (instant + w.zone instant)

/-- The date where the program runs, at the time that the clock shows. -/
def date (w : World) : Date :=
  w.dateAt w.clock

/-- What goes wrong with the next request that can meet a fault, if anything does. -/
def fault? (w : World) : Option Fault :=
  w.faults.head?.join

/-- The world once a request that can meet a fault has been dealt with. -/
def pastFault (w : World) : World :=
  { w with faults := w.faults.tail }

/-- A world **without faults**: no request to write, to sync or to replace will be refused by the
disk. Requests can still fail for what stands in the tree. -/
def IsFaultless (w : World) : Prop :=
  ∀ fault ∈ w.faults, fault = none

theorem IsFaultless.fault?_eq {w : World} (h : w.IsFaultless) : w.fault? = none := by
  rw [fault?]
  rcases hfaults : w.faults with - | ⟨fault, faults⟩
  · rfl
  · exact h fault (by simp [hfaults])

/-- A world without faults has none later either. -/
theorem IsFaultless.pastFault {w : World} (h : w.IsFaultless) : w.pastFault.IsFaultless :=
  fun fault hfault => h fault (List.mem_of_mem_tail hfault)

/-- The world once some bytes have been written through a handle to a place in its file. -/
def written (w : World) (handle : Nat) (id : FileId) (offset : Nat) (bytes : ByteArray) : World :=
  { w.pastFault with
    files := w.files.setContent id (overwrite (w.files.content id) offset bytes)
    handles := w.handles.set handle (id, offset + bytes.size) }

/-- The answer of a world to one request, and the world after it. -/
def answer (w : World) : (r : Request) → r.Answer × World
  | .workingDirectory =>
    (match w.workingDirectory with
     | none => .error .notFound
     | some l => .ok (pathOf l), w)
  | .readVariable name => (w.environment.lookup name, w)
  | .clock => (w.clock, w)
  | .date => (w.date, w)
  | .pathExists path => (w.files.pathExists w.workingDirectory path, w)
  | .isDirectory path => (w.files.isDirectory w.workingDirectory path, w)
  | .readText path => (w.files.readText w.workingDirectory path, w)
  | .makeDirectories path =>
    let (result, files) := w.files.makeDirectories w.workingDirectory path
    (result, { w with files })
  | .create path =>
    match w.files.create w.workingDirectory path with
    | .error e => (.error e, w)
    | .ok (id, files) => (.ok w.handles.length, { w with files, handles := w.handles ++ [(id, 0)] })
  | .write handle bytes =>
    match w.handles[handle]? with
    | none => (.error (.other "Bad file descriptor (os error 9)"), w)
    | some (id, offset) =>
      match w.fault? with
      | none => (.ok (), w.written handle id offset bytes)
      | some fault =>
        (.error fault.error, w.written handle id offset (bytes.extract 0 fault.taken))
  | .sync _ =>
    match w.fault? with
    | none => (.ok (), w.pastFault)
    | some fault => (.error fault.error, w.pastFault)
  | .replace source target =>
    match w.fault? with
    | some fault => (.error fault.error, w.pastFault)
    | none =>
      match w.files.replace w.workingDirectory source target with
      | .error e => (.error e, w.pastFault)
      | .ok files => (.ok (), { w.pastFault with files })
  | .remove path =>
    match w.files.remove w.workingDirectory path with
    | .error e => (.error e, w)
    | .ok files => (.ok (), { w with files })
  | .post posting => (w.service posting, { w with sent := w.sent ++ [posting] })

variable {α β : Type}

/-- Run a program to its end, each request answered by the world that the one before has left. -/
def run (w : World) : Program α → α × World
  | .done a => (a, w)
  | .perform r next =>
    let (answer, w) := w.answer r
    w.run (next answer)

/-- Run one request of a program, if it is not done. Between two steps of one program another may
take steps. -/
def step (w : World) : Program α → Program α × World
  | .done a => (.done a, w)
  | .perform r next =>
    let (answer, w) := w.answer r
    (next answer, w)

@[simp] theorem run_done (w : World) (a : α) : w.run (.done a) = (a, w) := rfl

@[simp] theorem run_request (w : World) (r : Request) : w.run (Program.request r) = w.answer r :=
  rfl

/-- Running one program after another is running the second in the world that the first leaves. -/
theorem run_bind (w : World) (p : Program α) (f : α → Program β) :
    w.run (p.bind f) = (w.run p).2.run (f (w.run p).1) := by
  induction p generalizing w with
  | done a => rfl
  | perform r next ih => exact ih _ _

/-- Run a task to its end: what it gives, or the failure that it ends with, and the world that is
left in either case. -/
def runTask (w : World) (t : Task α) : Except Failure α × World :=
  w.run t.run

@[simp] theorem runTask_pure (w : World) (a : α) : w.runTask (pure a) = (.ok a, w) := rfl

@[simp] theorem runTask_throw (w : World) (f : Failure) :
    w.runTask (throw f : Task α) = (.error f, w) := rfl

/-- A single request succeeds as a task with the answer of the world. -/
@[simp] theorem runTask_request (w : World) (r : Request) :
    w.runTask (Task.request r) = (.ok (w.answer r).1, (w.answer r).2) := rfl

/-- A program taken as a task succeeds with what the program gives. -/
@[simp] theorem runTask_ofProgram (w : World) (p : Program α) :
    w.runTask (Task.ofProgram p) = (.ok (w.run p).1, (w.run p).2) :=
  w.run_bind p _

/-- Running one task after another: the second runs in the world that the first leaves, unless the
first fails. -/
theorem runTask_bind (w : World) (t : Task α) (f : α → Task β) :
    w.runTask (t >>= f) =
      match w.runTask t with
      | (.ok a, w) => w.runTask (f a)
      | (.error e, w) => (.error e, w) := by
  have h := w.run_bind t.run (ExceptT.bindCont f)
  rw [show w.runTask (t >>= f) = w.run (t.run.bind (ExceptT.bindCont f)) from rfl, h, runTask]
  rcases w.run t.run with ⟨- | a, w'⟩ <;> rfl

/-- A task without a result that does not fail has run to its end. -/
theorem runTask_of_isOk {w : World} {t : Task Unit} (h : (w.runTask t).1.isOk = true) :
    w.runTask t = (.ok (), (w.runTask t).2) := by
  generalize w.runTask t = p at h
  obtain ⟨e | ⟨⟩, w'⟩ := p
  · exact absurd h (by simp [Except.isOk, Except.toBool])
  · rfl

/-- Two tasks in a row succeed exactly when the first does and then the second. -/
theorem runTask_bind_eq_ok {w w' : World} {t : Task α} {f : α → Task β} {b : β} :
    w.runTask (t >>= f) = (.ok b, w') ↔
      ∃ a v, w.runTask t = (.ok a, v) ∧ v.runTask (f a) = (.ok b, w') := by
  rw [runTask_bind]
  rcases w.runTask t with ⟨- | a, v⟩
  · simp
  · constructor
    · exact fun h => ⟨a, v, rfl, h⟩
    · rintro ⟨_, _, ⟨⟩, h⟩
      exact h

end World

end Outreach
