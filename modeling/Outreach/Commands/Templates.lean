import Outreach.Commands.Inputs
import Outreach.Commands.Layout
import Outreach.Template.File

/-!
# Commands on Templates

Each command loads the templates with the active one and prints what it found or did; one that
changes them stores them again.
-/

namespace Outreach

/-- The stored templates, or the built-in ones if none are stored. -/
def DataDirectory.loadTemplates (d : DataDirectory) : Task Templates :=
  Templates.load d.templatesPath

/-- The list of templates as it is printed, with a star at those that have the id of the active
one. -/
def Templates.listing (s : Templates) : String :=
  if s.list.isEmpty then unlines ["No templates."]
  else
    let activeId := (s.active?.map Template.id).getD ""
    unlines <| s!"Templates ({s.list.length}):" :: "" :: s.list.map fun t =>
      let mark := if t.id = activeId then "*" else " "
      s!"{mark} {padRight 16 t.id} {t.name}"

/-- The command `template list`: print the list of the templates, with a mark at the active one. -/
def runTemplateList (d : DataDirectory) : Task String := do
  return (← d.loadTemplates).listing

/-- The command `template show`: print the content of the template with an id, or of the active
one. -/
def runTemplateShow (d : DataDirectory) (id : Option String) : Task String := do
  return unlines [(← Task.ofExcept ((← d.loadTemplates).choose id)).content]

/-- The content of a new template: that of a file, or that of the active template. -/
def newContent (s : Templates) : Option String → Task String
  | some path => readInput .template path
  | none => return (s.active?.map Template.content).getD ""

/-- The command `template add`: add a template under a fresh id, make it the active one, and store
the collection. -/
def runTemplateAdd (d : DataDirectory) (name : String) (file : Option String) : Task String := do
  let templates ← d.loadTemplates
  let content ← newContent templates file
  let (template, templates) ← Task.ofExcept (templates.add (← now) name content).toExcept
  templates.save d.templatesPath
  return unlines [s!"Added template: {template.name} ({template.id}), now active"]

/-- The command `template update`: give a template the content of a file. The file is read before
the templates are loaded. -/
def runTemplateUpdate (d : DataDirectory) (id file : String) : Task String := do
  let content ← readInput .template file
  let (_, templates) ← Task.ofExcept ((← d.loadTemplates).update id content).toExcept
  templates.save d.templatesPath
  return unlines [s!"Updated template: {id}"]

/-- The command `template delete`: take out a template, store the others, and name the one that is
active now. -/
def runTemplateDelete (d : DataDirectory) (id : String) : Task String := do
  let (template, templates) ← Task.ofExcept ((← d.loadTemplates).delete id).toExcept
  templates.save d.templatesPath
  return unlines <|
    s!"Deleted template: {template.name} ({template.id})" ::
      (templates.active?.map fun t => s!"Active template: {t.name} ({t.id})").toList

/-- The command `template select`: make a template the active one and store that. -/
def runTemplateSelect (d : DataDirectory) (id : String) : Task String := do
  let (_, templates) ← Task.ofExcept ((← d.loadTemplates).select id).toExcept
  templates.save d.templatesPath
  return unlines [s!"Active template: {id}"]

/-- The command `template reset`: give the template with an id, or the active one, the built-in
content. -/
def runTemplateReset (d : DataDirectory) (id : Option String) : Task String := do
  let templates ← d.loadTemplates
  let template ← Task.ofExcept (templates.choose id)
  let (_, templates) ← Task.ofExcept (templates.reset template.id).toExcept
  templates.save d.templatesPath
  return unlines [s!"Reset template to built-in content: {template.id}"]

end Outreach
