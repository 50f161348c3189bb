import Outreach.Edit
import Outreach.FreshId
import Outreach.Message.BuiltIn
import Outreach.Text.Blank

/-!
# Templates

Users keep several message templates, of which one is active. The collection remembers the id of
the active template; if no template has that id, the first one counts as active.
-/

namespace Outreach

/-- A **template** with the id by which commands name it, and the name that lists show. -/
structure Template where
  id : String
  name : String
  content : String
  deriving DecidableEq, Repr

namespace Template

/-- The built-in template, whose text is that of every message as long as no other is stored. -/
def builtIn : Template :=
  ⟨"default-1", "預設範本", Message.builtInTemplate⟩

end Template

/-- A **collection of templates** with the id of the active one, which need not be the id of any. -/
structure Templates where
  activeId : String
  list : List Template
  deriving DecidableEq, Repr

namespace Templates

/-- The built-in collection: the built-in template alone, as the active one. -/
def builtIn : Templates :=
  ⟨Template.builtIn.id, [Template.builtIn]⟩

/-- The ids, in order. One that was written by hand may occur twice. -/
def ids (s : Templates) : List String :=
  s.list.map Template.id

/-- The first template with an id, if there is one. -/
def find? (s : Templates) (id : String) : Option Template :=
  s.list.find? (·.id == id)

/-- The active template: the one with the active id, or else the first. -/
def active? (s : Templates) : Option Template :=
  (s.find? s.activeId).or s.list.head?

/-- The template with an id, or the failure that there is none. -/
def get (s : Templates) (id : String) : Except Failure Template :=
  match s.find? id with
  | some t => .ok t
  | none => .error (.templateNotFound id)

/-- The template with an id, or the active one if no id is given. -/
def choose (s : Templates) : Option String → Except Failure Template
  | some id => s.get id
  | none =>
    match s.active? with
    | some t => .ok t
    | none => .error .noTemplate

/-- Make a template the active one. It has to be there, or else the active id stays. -/
def select (s : Templates) (id : String) : Outcome Templates Unit := Edit.of s do
  let _ ← MonadExcept.ofExcept ((← getThe Templates).get id)
  modify fun s => { s with activeId := id }

/-- Add a template at the end and make it the active one. -/
def add (s : Templates) (clock : Nat) (name content : String) : Outcome Templates Template :=
  Edit.of s do
    let name := Text.trim name
    if name.isEmpty then throw .templateNameBlank
    if content.isEmpty then throw .templateContentEmpty
    let template : Template := ⟨freshId (← getThe Templates).ids clock, name, content⟩
    modify fun s => { s with activeId := template.id }
    modify fun s => { s with list := s.list ++ [template] }
    return template

/-- The templates with the content of the first one with an id changed. -/
def replaceContent (id content : String) : List Template → List Template
  | [] => []
  | t :: ts =>
    if t.id == id then { t with content } :: ts else t :: replaceContent id content ts

/-- Change the content of the first template with an id. Any content is taken, also an empty one. -/
def update (s : Templates) (id content : String) : Outcome Templates Unit := Edit.of s do
  match (← getThe Templates).find? id with
  | none => throw (.templateToChangeNotFound id)
  | some _ => modify fun s => { s with list := replaceContent id content s.list }

/-- Give the first template with an id the content of the built-in one. -/
def reset (s : Templates) (id : String) : Outcome Templates Unit :=
  s.update id Message.builtInTemplate

/-- The id that becomes active once the template at a place is gone: the one that moves into the
place, or else the one before it. -/
def successorId (rest : List Template) (place : Nat) : String :=
  match rest[place]? with
  | some t => t.id
  | none => (rest.getLast?.map Template.id).getD ""

/-- Take out the first template with an id, which must not be the last one left. If its id was the
active one, another template becomes active. -/
def delete (s : Templates) (id : String) : Outcome Templates Template := Edit.of s do
  if (← getThe Templates).list.length ≤ 1 then throw .lastTemplate
  match (← getThe Templates).find? id with
  | none => throw (.templateToChangeNotFound id)
  | some removed =>
    let place := (← getThe Templates).list.findIdx (·.id == id)
    modify fun s => { s with list := s.list.eraseP (·.id == id) }
    if (← getThe Templates).activeId = removed.id then
      modify fun s => { s with activeId := successorId s.list place }
    return removed

end Templates

end Outreach
