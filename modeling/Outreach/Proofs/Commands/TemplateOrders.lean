import Outreach.Proofs.Commands.Frame

/-!
# Orders About Templates

A command on templates carries out an order. What it stores is what the order makes of the templates
that it has loaded, and if that fails it stores nothing.

## Main results

* `TemplateOrder.stores_command`: **what a command that changes templates does**, by what its order
  makes of the templates.
* `TemplateOrder.shows_command`: the same of a command that only looks.
* `Templates.obey_congr`: an order depends on the text of its input file alone.
-/

namespace Outreach

/-! ### Orders -/

/-- What users can **order** about their templates: one order for each command on templates. -/
inductive TemplateOrder where
  | list
  | view (id : Option String)
  /-- Add a template from a file, or with the content of the active one. -/
  | add (name : String) (file : Option String)
  | update (id file : String)
  | delete (id : String)
  | select (id : String)
  | reset (id : Option String)
  deriving DecidableEq, Repr

namespace TemplateOrder

/-- The command of an order, as the command line gives it. -/
def command : TemplateOrder → Command
  | list => .templateList
  | view id => .templateShow id
  | add name file => .templateAdd name file
  | update id file => .templateUpdate id file
  | delete id => .templateDelete id
  | select id => .templateSelect id
  | reset id => .templateReset id

/-- Whether an order only looks, so that nothing is stored. -/
def isReading : TemplateOrder → Bool
  | list | view _ => true
  | _ => false

/-- The file that an order reads a content from, if it names one. -/
def input? : TemplateOrder → Option String
  | add _ file => file
  | update _ file => some file
  | _ => none

end TemplateOrder

namespace Templates

/-- The content of a new template that is **held in memory**: that of a file, or that of the active
template. -/
def contentFor (s : Templates) (inputs : String → Except FileError String) :
    Option String → Except Failure String
  | none => .ok ((s.active?.map Template.content).getD "")
  | some file => (inputs file).mapError (.inputUnreadable .template file)

/-- What an order makes of templates that are **held in memory**, given the texts of the input files
and the time. -/
def obey (s : Templates) (inputs : String → Except FileError String) (clock : Nat) :
    TemplateOrder → Except Failure Templates
  | .list => .ok s
  | .view id => do
    let _ ← s.choose id
    return s
  | .add name file => do
    let content ← s.contentFor inputs file
    (s.add clock name content).kept
  | .update id file => do
    let content ← s.contentFor inputs (some file)
    (s.update id content).kept
  | .delete id => (s.delete id).kept
  | .select id => (s.select id).kept
  | .reset id => do
    let t ← s.choose id
    (s.reset t.id).kept

end Templates

/-! ### One command -/

/-- A task **stores** what has been made in memory: it fails as that does, with no change, or all
that it does is to save it. -/
inductive Task.Stores (d : DataDirectory) (v : World) :
    Except Failure Templates → Task String → Prop
  | failed {f : Failure} {t : Task String} (hrun : v.runTask t = (.error f, v)) :
      Stores d v (.error f) t
  | saved {s : Templates} {t : Task String} (text : String)
      (hrun : v.runTask t = v.runTask (do s.save d.templatesPath; return text)) :
      Stores d v (.ok s) t

/-- A task **shows** what has been made in memory: it fails as that does, or it succeeds, with no
change. -/
inductive Task.Shows (v : World) : Except Failure Templates → Task String → Prop
  | failed {f : Failure} {t : Task String} (hrun : v.runTask t = (.error f, v)) :
      Shows v (.error f) t
  | shown {s : Templates} {t : Task String} (text : String)
      (hrun : v.runTask t = (.ok text, v)) : Shows v (.ok s) t

section Answers

variable {α : Type} {d : DataDirectory} {v : World} {s : Templates}

/-- Reading an input file gives its text or the error of the file system under the name of its
purpose. -/
theorem runTask_readInput (purpose : InputFile) (path : String) :
    v.runTask (readInput purpose path) =
      ((v.textAt path).mapError (.inputUnreadable purpose path), v) := by
  rw [World.textAt, readInput, World.runTask_bind, World.runTask_request]
  simp only [World.answer]
  rcases v.files.readText v.workingDirectory path with e | text <;> rfl

theorem runTask_ofExcept (x : Except Failure α) : v.runTask (Task.ofExcept x) = (x, v) := by
  cases x <;> rfl

theorem runTask_now : v.runTask now = (.ok v.clock, v) := rfl

/-- The content of a new template is fetched in a world as it is from the texts of its files. -/
theorem runTask_newContent (file : Option String) :
    v.runTask (newContent s file) =
      (s.contentFor (v.textAt) file, v) := by
  cases file with
  | none => rfl
  | some path => exact runTask_readInput _ _

namespace Task.Stores

/-- Saving templates and giving a text stores these templates. -/
theorem save (s : Templates) (text : String) :
    Stores d v (.ok s) (do s.save d.templatesPath; return text) := .saved text rfl

/-- What follows a task that succeeds without a change stores what it stores. -/
theorem bind_ok {t : Task α} {f : α → Task String} {a : α} {x : Except Failure Templates}
    (ht : v.runTask t = (.ok a, v)) (hf : Stores d v x (f a)) : Stores d v x (t >>= f) := by
  have hrun : v.runTask (t >>= f) = v.runTask (f a) := by rw [World.runTask_bind, ht]
  cases hf with
  | failed h => exact .failed (hrun.trans h)
  | saved text h => exact .saved text (hrun.trans h)

/-- What is kept after an edit is stored, if that is what is done with it. -/
theorem edit {o : Outcome Templates α} {f : α × Templates → Task String}
    (hf : ∀ a s, Stores d v (.ok s) (f (a, s))) :
    Stores d v o.kept (Task.ofExcept o.toExcept >>= f) := by
  obtain ⟨e | a, s⟩ := o
  · exact .failed rfl
  · exact bind_ok (runTask_ofExcept _) (hf a s)

/-- What follows a task without a change stores what the two make in memory one after the other. -/
theorem bind {t : Task α} {f : α → Task String} {y : Except Failure α}
    {g : α → Except Failure Templates} (ht : v.runTask t = (y, v))
    (hf : ∀ a, Stores d v (g a) (f a)) : Stores d v (y >>= g) (t >>= f) := by
  cases y with
  | error e => exact .failed (by rw [World.runTask_bind, ht])
  | ok a => exact bind_ok ht (hf a)

end Task.Stores

/-- **What a command that changes templates does**, by what its order does in memory. -/
theorem TemplateOrder.stores_command {o : TemplateOrder}
    (hload : v.runTask d.loadTemplates = (.ok s, v)) (ho : o.isReading = false) :
    Task.Stores d v (s.obey (v.textAt) v.clock o)
      (o.command.runIn d) := by
  cases o with
  | list => exact absurd ho (by simp [isReading])
  | view id => exact absurd ho (by simp [isReading])
  | add name file =>
      exact .bind_ok hload (.bind (runTask_newContent file) fun content =>
        .bind_ok runTask_now (.edit fun _ s' => .save s' _))
  | update id file =>
      exact .bind (runTask_readInput _ _) fun content => .bind_ok hload (.edit fun _ s' => .save s' _)
  | delete id => exact .bind_ok hload (.edit fun _ s' => .save s' _)
  | select id => exact .bind_ok hload (.edit fun _ s' => .save s' _)
  | reset id => exact .bind_ok hload (.bind (runTask_ofExcept _) fun t =>
        .edit fun _ s' => .save s' _)

/-- **What a command that only looks does**, by what its order does in memory. -/
theorem TemplateOrder.shows_command {o : TemplateOrder}
    (hload : v.runTask d.loadTemplates = (.ok s, v)) (ho : o.isReading = true) :
    Task.Shows v (s.obey v.textAt v.clock o) (o.command.runIn d) := by
  cases o with
  | list =>
      refine .shown s.listing ?_
      simp only [command, Command.runIn, runTemplateList, World.runTask_bind, hload,
        World.runTask_pure]
  | view id =>
      have hrun : v.runTask (runTemplateShow d id) =
          ((s.choose id).map fun t => unlines [t.content], v) := by
        simp only [runTemplateShow, World.runTask_bind, hload, runTask_ofExcept]
        cases s.choose id <;> rfl
      rw [Templates.obey]
      rcases hchoose : s.choose id with f | t
      · rw [hchoose] at hrun
        exact .failed hrun
      · rw [hchoose] at hrun
        exact .shown _ hrun
  | _ => exact absurd ho (by simp [isReading])

/-- An order that only looks changes nothing in memory. -/
theorem TemplateOrder.obey_of_isReading {o : TemplateOrder} {s' : Templates}
    {inputs : String → Except FileError String} {clock : Nat} (ho : o.isReading = true)
    (h : s.obey inputs clock o = .ok s') : s' = s := by
  cases o with
  | list => exact (Except.ok.inj h).symm
  | view id =>
      rw [Templates.obey] at h
      rcases hchoose : s.choose id with f | t
      · rw [hchoose] at h
        exact absurd h (by simp [bind, Except.bind])
      · rw [hchoose] at h
        exact (Except.ok.inj h).symm
  | _ => exact absurd ho (by simp [isReading])

end Answers

/-! ### Input files -/

/-- What is the same up to the classes of failures succeeds with the same. -/
theorem toOption_eq_of_mapError_eq {α : Type} {x y : Except Failure α}
    (h : x.mapError Failure.kind = y.mapError Failure.kind) : x.toOption = y.toOption := by
  rcases x with e | a <;> rcases y with e' | b
  · rfl
  · cases h
  · cases h
  · exact congrArg some (Except.ok.inj h)

/-- What fails alike goes on to fail alike. -/
theorem mapError_kind_bind {α β : Type} {x y : Except Failure α}
    (h : x.mapError Failure.kind = y.mapError Failure.kind) (f : α → Except Failure β) :
    (x >>= f).mapError Failure.kind = (y >>= f).mapError Failure.kind := by
  rcases x with e | a <;> rcases y with e' | b
  · exact congrArg Except.error (Except.error.inj h)
  · cases h
  · cases h
  · rw [Except.ok.inj h]

/-- An order depends on the text of its input file alone, and up to the class of a failure only on
whether there is one. -/
theorem Templates.obey_congr {s : Templates} {inputs inputs' : String → Except FileError String}
    {o : TemplateOrder} (clock : Nat)
    (h : ∀ file, o.input? = some file → (inputs file).toOption = (inputs' file).toOption) :
    (s.obey inputs clock o).mapError Failure.kind =
      (s.obey inputs' clock o).mapError Failure.kind := by
  have hcontent : ∀ file, (inputs file).toOption = (inputs' file).toOption →
      (s.contentFor inputs (some file)).mapError Failure.kind =
        (s.contentFor inputs' (some file)).mapError Failure.kind := by
    intro file hfile
    rw [contentFor, contentFor]
    rcases hx : inputs file with e | text <;> rcases hy : inputs' file with e' | text'
    · rfl
    · simp [hx, hy, Except.toOption] at hfile
    · simp [hx, hy, Except.toOption] at hfile
    · rw [hx, hy] at hfile
      rw [Option.some.inj hfile]
  cases o with
  | add name file =>
      cases file with
      | none => rfl
      | some file => exact mapError_kind_bind (hcontent file (h file rfl)) _
  | update id file => exact mapError_kind_bind (hcontent file (h file rfl)) _
  | _ => rfl

end Outreach
