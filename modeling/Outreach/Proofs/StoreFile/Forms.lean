import Outreach.Preset.File
import Outreach.Proofs.Json.RoundTrip
import Outreach.Template.File

/-!
# Stored Forms

The JSON forms of stored presets and templates are made of strings, arrays and objects only, and
each gives back what it is the form of: the parts have different names, and the fields of a record
stand in its own order.

## Main results

* `Presets.ofJson?_toJson`: the form of a collection of presets gives that collection.
* `Templates.ofJson?_toJson`: the form of a collection of templates gives that collection.
-/

namespace Outreach

/-! ### Lists of forms -/

/-- Items that are all read back are read back as a list. -/
theorem mapM_map_eq_some {α β : Type} (write : α → β) (read : β → Option α)
    (h : ∀ a, read (write a) = some a) (l : List α) : (l.map write).mapM read = some l := by
  have hread : read ∘ write = pure := funext h
  rw [List.mapM_map, hread, List.mapM_pure, List.map_id']
  rfl

namespace Json

/-- An object whose names are all text has the members that it was made of. -/
theorem members?_object (l : List (String × Json)) :
    (object (l.map fun m => (some m.1, m.2))).members? = some l :=
  mapM_map_eq_some (fun m : String × Json => (some m.1, m.2)) (fun m => m.1.map (·, m.2))
    (fun _ => rfl) l

/-- An object is textual if its names are text and its values are textual. -/
theorem IsTextual.ofMembers {l : List (String × Json)} (h : ∀ m ∈ l, m.2.IsTextual) :
    (Json.object (l.map fun m => (some m.1, m.2))).IsTextual := by
  refine .object (fun m hm => ?_) fun m hm => ?_
  · obtain ⟨m, -, rfl⟩ := List.mem_map.mp hm
    rfl
  · obtain ⟨n, hn, rfl⟩ := List.mem_map.mp hm
    exact h n hn

/-- A list of things that each have a textual form has a textual form. -/
theorem IsTextual.arrayOf {α : Type} {form : α → Json} (h : ∀ a, (form a).IsTextual)
    (l : List α) : (Json.array (l.map form)).IsTextual := by
  refine .array fun item hitem => ?_
  obtain ⟨a, -, rfl⟩ := List.mem_map.mp hitem
  exact h a

end Json

/-! ### Records -/

namespace Record

/-- The form of a record is an object with its entries in their order, each value a string. -/
theorem toJson_eq (r : Record) :
    r.toJson = .object ((r.entries.map fun e => (e.1, Json.ofString e.2)).map
      fun m => (some m.1, m.2)) := by
  rw [toJson, List.map_map]
  rfl

/-- The form of a record is textual, whatever its entries are. -/
theorem isTextual_toJson (r : Record) : r.toJson.IsTextual := by
  rw [toJson_eq]
  refine .ofMembers fun m hm => ?_
  obtain ⟨e, -, rfl⟩ := List.mem_map.mp hm
  exact .string e.2

/-- The form of a record gives that record. -/
@[simp] theorem ofJson?_toJson (r : Record) : ofJson? r.toJson = some r := by
  have hentries := mapM_map_eq_some (fun e : String × String => (e.1, Json.ofString e.2))
    (fun m => m.2.text?.map (m.1, ·)) (fun e => rfl) r.entries
  rw [ofJson?, toJson_eq, Json.members?_object]
  simp only [Option.bind_eq_bind, Option.bind_some]
  rw [hentries]
  exact congrArg some r.ofList_entries

end Record

/-! ### Presets -/

namespace Preset

/-- The form of a preset is textual, its record included. -/
theorem isTextual_toJson (p : Preset) : p.toJson.IsTextual := by
  refine Json.IsTextual.ofMembers
    (l := [("id", .ofString p.id), ("name", .ofString p.name), ("data", p.data.toJson)]) ?_
  simp only [List.forall_mem_cons]
  exact ⟨.string p.id, .string p.name, p.data.isTextual_toJson, nofun⟩

/-- The form of a preset gives that preset. -/
theorem ofJson?_toJson (p : Preset) : ofJson? p.toJson = some p := by
  have hfields : p.toJson.fields? ["id", "name", "data"] =
      some [some (.ofString p.id), some (.ofString p.name), some p.data.toJson] := rfl
  rw [ofJson?, hfields]
  change (Record.ofJson? p.data.toJson).bind (fun data => some ⟨p.id, p.name, data⟩) = some p
  rw [Record.ofJson?_toJson]
  rfl

end Preset

namespace Presets

/-- The form of all presets is textual. -/
theorem isTextual_toJson (s : Presets) : s.toJson.IsTextual :=
  .arrayOf Preset.isTextual_toJson s.list

/-- **The form of a collection of presets gives that collection**: all presets, in order. -/
theorem ofJson?_toJson (s : Presets) : ofJson? s.toJson = some s := by
  have hlist := mapM_map_eq_some _ _ Preset.ofJson?_toJson s.list
  change ((s.list.map Preset.toJson).mapM Preset.ofJson?).bind (fun l => some ⟨l⟩) = some s
  rw [hlist]
  rfl

end Presets

/-! ### Templates -/

namespace Template

/-- The form of a template is textual. -/
theorem isTextual_toJson (t : Template) : t.toJson.IsTextual := by
  refine Json.IsTextual.ofMembers
    (l := [("id", .ofString t.id), ("name", .ofString t.name),
      ("template", .ofString t.content)]) ?_
  simp only [List.forall_mem_cons]
  exact ⟨.string t.id, .string t.name, .string t.content, nofun⟩

/-- The form of a template gives that template. -/
theorem ofJson?_toJson (t : Template) : ofJson? t.toJson = some t := by
  have hfields : t.toJson.fields? ["id", "name", "template"] =
      some [some (.ofString t.id), some (.ofString t.name), some (.ofString t.content)] := rfl
  rw [ofJson?, hfields]
  rfl

end Template

namespace Templates

/-- The form of all templates is textual, also without an active one. -/
theorem isTextual_toJson (s : Templates) : s.toJson.IsTextual := by
  refine Json.IsTextual.ofMembers
    (l := [("active_id", .ofString s.activeId),
      ("templates", .array (s.list.map Template.toJson))]) ?_
  simp only [List.forall_mem_cons]
  exact ⟨.string s.activeId, .arrayOf Template.isTextual_toJson s.list, nofun⟩

/-- **The form of a collection of templates gives that collection**: all templates, in order, and
the active id, whether or not a template has it. -/
theorem ofJson?_toJson (s : Templates) : ofJson? s.toJson = some s := by
  have hfields : s.toJson.fields? ["active_id", "templates"] =
      some [some (.ofString s.activeId), some (.array (s.list.map Template.toJson))] := rfl
  have hlist := mapM_map_eq_some _ _ Template.ofJson?_toJson s.list
  rw [ofJson?, hfields]
  change ((s.list.map Template.toJson).mapM Template.ofJson?).bind
    (fun l => some ⟨s.activeId, l⟩) = some s
  rw [hlist]
  rfl

end Templates

end Outreach
