import Outreach.Proofs.Files.Course

/-!
# Races of Two Writers

Two atomic writes of one path may run at the same time. Each goes from request to request, and
between two of them the other may take any number of steps. A schedule says whose step is next.

## Main results

* `Race.holds_along`: what every step of each writer preserves holds at any point of any schedule.
* `Race.holds_along_of_apart`: the same for schedules by which the writers keep apart.
* `OnCourse.step`: if the parent of the path is there, neither writer changes a directory.
-/

namespace Outreach

/-- One of two writers, which take the same path but write bytes of their own. -/
inductive Writer where
  | first
  | second
  deriving DecidableEq, Repr

/-- The other writer of the two. -/
def Writer.other : Writer → Writer
  | first => second
  | second => first

/-- Two writers in one world, each with what is left of its program. -/
structure Race where
  programs : Writer → Program (Except Failure Unit)
  world : World

namespace Race

/-- Two atomic writes of one path that have not begun. -/
def start (w : World) (path : String) (contents : Writer → ByteArray) : Race where
  programs i := (writeAtomically path (contents i)).run
  world := w

/-- One writer takes a step: one request of its program is answered by the common world. -/
def step (r : Race) (i : Writer) : Race where
  programs j := if j = i then (r.world.step (r.programs i)).1 else r.programs j
  world := (r.world.step (r.programs i)).2

/-- The writers take steps in a given order. One that is done takes steps without effect. -/
def run (r : Race) (schedule : List Writer) : Race :=
  schedule.foldl step r

/-- Whether a program opens a file next, and so empties the temporary file. -/
def opens {α : Type} : Program α → Bool
  | .perform (.create _) _ => true
  | _ => false

/-- Whether a program is at work on a temporary file that it has opened. -/
def isMidway {α : Type} : Program α → Bool
  | .perform (.write _ _) _ => true
  | .perform (.sync _) _ => true
  | .perform (.replace _ _) _ => true
  | .perform (.remove _) _ => true
  | _ => false

/-- A schedule by which the writers keep **apart**: neither opens the temporary file while the other
is at work on it. -/
def Apart (r : Race) : List Writer → Prop
  | [] => True
  | i :: schedule =>
    (opens (r.programs i) = true → isMidway (r.programs i.other) = false) ∧
      (r.step i).Apart schedule

instance decidableApart (r : Race) : (schedule : List Writer) → Decidable (r.Apart schedule)
  | [] => inferInstanceAs (Decidable True)
  | i :: schedule =>
    have : Decidable ((r.step i).Apart schedule) := (r.step i).decidableApart schedule
    inferInstanceAs (Decidable (_ ∧ _))

end Race

/-! ### Races from stage to stage -/

namespace WriteStage

/-- Whether an atomic write opens its temporary file next, and so empties what is there. -/
def opens : WriteStage → Bool
  | opening _ => true
  | _ => false

/-- Whether an atomic write is at work on its temporary file. -/
def isMidway : WriteStage → Bool
  | writing _ _ | syncing _ _ | replacing _ | removing _ _ => true
  | _ => false

/-- Whether an atomic write is past the point at which it writes. -/
def hasWritten : WriteStage → Bool
  | looking _ | making _ | opening _ | writing _ _ => false
  | _ => true

/-- The program of a stage opens a file next exactly if the stage is that of opening. -/
theorem opens_program (path : String) (bytes : ByteArray) (s : WriteStage) :
    Race.opens (s.program path bytes) = s.opens := by
  cases s <;> rfl

/-- The program of a stage is at work on its temporary file exactly if the stage is. -/
theorem isMidway_program (path : String) (bytes : ByteArray) (s : WriteStage) :
    Race.isMidway (s.program path bytes) = s.isMidway := by
  cases s <;> rfl

end WriteStage

section Assign

variable {α : Type}

/-- What one writer has is replaced: its stage, or the bytes that it has written. -/
def assign (held : Writer → α) (i : Writer) (a : α) (j : Writer) : α :=
  if j = i then a else held j

/-- The writer that something is assigned to holds it. -/
@[simp] theorem assign_self (held : Writer → α) (i : Writer) (a : α) : assign held i a i = a :=
  if_pos rfl

/-- Every other writer holds what it held. -/
theorem assign_of_ne {held : Writer → α} {i j : Writer} {a : α} (h : j ≠ i) :
    assign held i a j = held j := if_neg h

/-- The other writer is not the writer itself. -/
theorem Writer.other_ne (i : Writer) : i.other ≠ i := by
  cases i <;> decide

/-- There are two writers only, so one that is not this is the other. -/
theorem Writer.eq_other_of_ne {i j : Writer} (h : j ≠ i) : j = i.other := by
  cases i <;> cases j <;> first | rfl | exact absurd rfl h

/-- The other of the other writer is the writer itself. -/
@[simp] theorem Writer.other_other (i : Writer) : i.other.other = i := by
  cases i <;> rfl

/-- What is assigned to one writer leaves the other with what it held. -/
@[simp] theorem assign_other (held : Writer → α) (i : Writer) (a : α) :
    assign held i a i.other = held i.other := assign_of_ne i.other_ne

/-- A writer is the one for which something is replaced, or the other one. -/
theorem assign_cases (held : Writer → α) (i : Writer) (a : α) (j : Writer) :
    j = i ∧ assign held i a j = a ∨ j = i.other ∧ assign held i a j = held j := by
  by_cases hj : j = i
  · exact .inl ⟨hj, if_pos hj⟩
  · exact .inr ⟨Writer.eq_other_of_ne hj, if_neg hj⟩

end Assign

namespace Race

/-- The race in which the writers are at some stages. -/
def atStages (path : String) (contents : Writer → ByteArray) (stages : Writer → WriteStage)
    (v : World) : Race where
  programs i := (stages i).program path (contents i)
  world := v

variable {path : String} {contents : Writer → ByteArray} {w : World}

/-- At the start of a race each writer stands at the first stage of its write. -/
theorem start_eq : start w path contents = atStages path contents (fun _ => .first path) w := by
  rw [start, atStages]
  simp only [WriteStage.program_first]

/-- A step of one writer advances its stage and the world, and leaves the other at its stage. -/
theorem step_atStages (stages : Writer → WriteStage) (v : World) (i : Writer) :
    (atStages path contents stages v).step i =
      atStages path contents
        (assign stages i ((stages i).advance path (contents i) v).1)
        ((stages i).advance path (contents i) v).2 := by
  rw [step, atStages, atStages]
  simp only [WriteStage.step_program, mk.injEq, and_true]
  funext j
  by_cases hj : j = i
  · subst hj
    simp
  · rw [if_neg hj, assign_of_ne hj]

variable (contents) {I : (Writer → WriteStage) → World → Prop}

/-- What holds at the start and is preserved by every step of each writer holds at any point. -/
theorem holds_along (hfirst : I (fun _ => .first path) w)
    (hstep : ∀ {stages v i s' v'}, WriteStage.Step path (contents i) (stages i) v s' v' →
      I stages v → I (assign stages i s') v') (schedule : List Writer) :
    ∃ stages, I stages ((start w path contents).run schedule).world := by
  rw [start_eq]
  generalize (fun _ => WriteStage.first path) = stages at hfirst
  induction schedule generalizing stages w with
  | nil => exact ⟨stages, hfirst⟩
  | cons i schedule ih =>
      rw [run, List.foldl_cons, step_atStages]
      exact ih _ (hstep (WriteStage.step_advance path (contents i) (stages i) w) hfirst)

/-- What holds at the start and is preserved by every step of each writer as long as they keep apart
holds at any point as long as they do. -/
theorem holds_along_of_apart (hfirst : I (fun _ => .first path) w)
    (hstep : ∀ {stages v i s' v'}, WriteStage.Step path (contents i) (stages i) v s' v' →
      ((stages i).opens = true → (stages i.other).isMidway = false) →
      I stages v → I (assign stages i s') v') {schedule : List Writer}
    (hapart : (start w path contents).Apart schedule) :
    ∃ stages, I stages ((start w path contents).run schedule).world := by
  rw [start_eq] at hapart ⊢
  generalize (fun _ => WriteStage.first path) = stages at hfirst hapart
  induction schedule generalizing stages w with
  | nil => exact ⟨stages, hfirst⟩
  | cons i schedule ih =>
      rw [Apart] at hapart
      obtain ⟨hopens, hrest⟩ := hapart
      rw [step_atStages] at hrest
      simp only [atStages, WriteStage.opens_program, WriteStage.isMidway_program] at hopens
      rw [run, List.foldl_cons, step_atStages]
      have hnext := hstep (WriteStage.step_advance path (contents i) (stages i) w) hopens hfirst
      exact ih _ hnext hrest

end Race

/-! ### Both writers -/

/-- Both writers are **on course**: they have changed no directory and do what is allowed. -/
structure OnCourse (w : World) (path : String) (stages : Writer → WriteStage) (v : World) :
    Prop extends w.SameDirectories v where
  allowed (i : Writer) : (stages i).Allowed w path

namespace OnCourse

variable {w v v' : World} {path : String} {stages : Writer → WriteStage} {i : Writer}
  {bytes : ByteArray} {s' : WriteStage}

/-- At the start of a race whose parent directory is there, both writers are on course. -/
theorem start (hparent : w.hasParent path = true) : OnCourse w path (fun _ => .first path) w :=
  ⟨.refl w, fun _ => WriteStage.allowed_first hparent⟩

/-- **A step of either writer keeps both on course.** -/
theorem step (hstep : WriteStage.Step path bytes (stages i) v s' v')
    (h : OnCourse w path stages v) : OnCourse w path (assign stages i s') v' := by
  obtain ⟨hsame, hallowed⟩ := hstep.sameDirectories h.toSameDirectories (h.allowed i)
  refine ⟨hsame, fun j => ?_⟩
  rcases assign_cases stages i s' j with ⟨-, hj⟩ | ⟨-, hj⟩ <;> rw [hj]
  · exact hallowed
  · exact h.allowed j

/-- What either writer finds at the temporary path has the temporary name. -/
theorem temporaryAt (h : OnCourse w path stages v) {temporary : String} {l : Location}
    (htemporary : temporaryPath? path = some temporary)
    (hl : v.files.locate v.workingDirectory temporary = .ok l) : TemporaryAt w path l :=
  ⟨temporary, htemporary, h.locate_eq_ok_iff.mp hl⟩

end OnCourse

end Outreach
