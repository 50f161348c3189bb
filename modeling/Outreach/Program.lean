import Outreach.Calendar
import Outreach.Failure

/-!
# Programs

A command talks to its surroundings by *requests*: it asks for a variable, reads a file, sends a
message to a service. A *program* is the tree of what it asks for and how it goes on for each
answer. What answers the requests is left open: the model world does, and so does the operating
system.

## Main results

* `Program.bind_assoc`, `Program.bind_done`: programs can be put one after the other.
-/

namespace Outreach

/-- A **message to a service** over the web: a text in JSON, posted to an address. -/
structure Posting where
  address : String
  body : String
  deriving DecidableEq, Repr

/-- The **reply** of a service: a status and the bytes of the body. -/
structure Reply where
  status : Nat
  body : ByteArray

/-- What a program can ask for: all its dealings with what lies outside of it, one request for
each call of the system. -/
inductive Request where
  /-- The path of the directory in which the program runs. -/
  | workingDirectory
  /-- The value of an environment variable. -/
  | readVariable (name : String)
  /-- The milliseconds since the start of 1970 in universal time. -/
  | clock
  /-- The date where the program runs. -/
  | date
  /-- Whether a path stands for anything. -/
  | pathExists (path : String)
  /-- Whether a path stands for a directory. -/
  | isDirectory (path : String)
  /-- The text of a file. -/
  | readText (path : String)
  /-- Make a directory and the parents that it lacks. -/
  | makeDirectories (path : String)
  /-- Open a file for writing, empty from now on; the answer is its handle. -/
  | create (path : String)
  /-- Write bytes through a handle. -/
  | write (handle : Nat) (bytes : ByteArray)
  /-- Wait until what has been written is on the disk. -/
  | sync (handle : Nat)
  /-- Give a file another name, in place of a file of that name. -/
  | replace (source target : String)
  /-- Take the name of a file away. -/
  | remove (path : String)
  /-- Send a message to a service; without a reply, the words for the reason. -/
  | post (posting : Posting)

/-- The type of the answer to a request. Where the system may refuse, the answer is the error or
the result. -/
abbrev Request.Answer : Request → Type
  | workingDirectory => Except FileError String
  | readVariable _ => Option String
  | clock => Nat
  | date => Date
  | pathExists _ => Bool
  | isDirectory _ => Bool
  | readText _ => Except FileError String
  | makeDirectories _ => Except FileError Unit
  | create _ => Except FileError Nat
  | write _ _ => Except FileError Unit
  | sync _ => Except FileError Unit
  | replace _ _ => Except FileError Unit
  | remove _ => Except FileError Unit
  | post _ => Except String Reply

/-- A **program**: done, or a request with what follows each answer to it. -/
inductive Program (α : Type) where
  | done (value : α)
  | perform (request : Request) (next : request.Answer → Program α)

namespace Program

variable {α β γ : Type}

/-- Go on with `f` once a program is done. Its requests come first, and what they were answered
decides what follows. -/
def bind : Program α → (α → Program β) → Program β
  | done a, f => f a
  | perform r next, f => perform r fun answer => (next answer).bind f

instance : Monad Program where
  pure := done
  bind := bind

theorem pure_eq (a : α) : (pure a : Program α) = done a := rfl

theorem bind_eq (p : Program α) (f : α → Program β) : p >>= f = p.bind f := rfl

@[simp] theorem done_bind (a : α) (f : α → Program β) : (done a).bind f = f a := rfl

/-- What follows a program that makes a request follows what it does with the answer. -/
@[simp] theorem perform_bind (r : Request) (next : r.Answer → Program α) (f : α → Program β) :
    (perform r next).bind f = perform r fun answer => (next answer).bind f := rfl

/-- Nothing is added by giving what a program gives. -/
@[simp] theorem bind_done (p : Program α) : p.bind done = p := by
  induction p with
  | done a => rfl
  | perform r next ih => simp [ih]

/-- Three programs one after the other may be put together from either end. -/
@[simp] theorem bind_assoc (p : Program α) (f : α → Program β) (g : β → Program γ) :
    (p.bind f).bind g = p.bind fun a => (f a).bind g := by
  induction p with
  | done a => rfl
  | perform r next ih => simp [ih]

instance : LawfulMonad Program := LawfulMonad.mk' _ bind_done (fun _ _ => rfl) bind_assoc

/-- Ask for one thing, and give the answer as it comes. -/
def request (r : Request) : Program r.Answer :=
  perform r done

end Program

/-- A **task**: a program that may end with a failure, after which nothing more is asked for. -/
abbrev Task := ExceptT Failure Program

namespace Task

/-- The task of a program that cannot fail by itself. Refusals of the system are part of what it
gives. -/
def ofProgram {α : Type} (p : Program α) : Task α :=
  ExceptT.lift p

/-- Ask for one thing. The task does not fail if the system refuses, since the refusal is the
answer. -/
def request (r : Request) : Task r.Answer :=
  ofProgram (Program.request r)

/-- The value of a pure step, or the failure with which it ends the task. -/
def ofExcept {α : Type} : Except Failure α → Task α
  | .ok a => pure a
  | .error f => throw f

/-- The value of an operation on files, or the failure that its error means. -/
def orFail {α : Type} (failure : FileError → Failure) : Except FileError α → Task α
  | .ok a => pure a
  | .error e => throw (failure e)

end Task

end Outreach
