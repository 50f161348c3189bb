import Outreach.Proofs.Template.Operations

/-!
# The Active Template After a Deletion

Taking a template out leaves the others in their order, and the active one stays active. If it is
the active one that is taken out, the one that followed it takes over, or the one just before it, if
none followed. The active id may name no template, so that the first one counts as active: the rule
is the same, although no id is changed then.

## Main results

* `Templates.find?_id_of_mem`: with distinct ids, each template is found by its id.
* `Templates.exists_takesOver`: the id that a deletion makes the active one.
* `Templates.delete_active?`: **which template is active after a deletion.**
-/

namespace Outreach.Templates

variable {s s' : Templates} {t : Template} {id wanted activeId : String}
  {before after : List Template}

/-! ### Looking for an id among distinct ones -/

/-- With distinct ids, each template is found by its id. -/
theorem find?_id_of_mem (hids : s.ids.Nodup) (ht : t ∈ s.list) : s.find? t.id = some t := by
  obtain ⟨before, after, hlist⟩ := List.append_of_mem ht
  refine find?_eq_some_iff.mpr ⟨before, after, hlist, rfl, fun u hu hid => ?_⟩
  rw [ids, hlist, List.map_append, List.map_cons] at hids
  have hmem : t.id ∈ before.map Template.id := hid ▸ List.mem_map_of_mem hu
  exact List.disjoint_of_nodup_append hids hmem List.mem_cons_self

/-- Another id leads to the same template without the one that is taken out. -/
theorem find?_of_ne (activeId : String) (h : SplitsAt s.list id before t after)
    (hne : wanted ≠ id) :
    find? ⟨activeId, before ++ after⟩ wanted = s.find? wanted := by
  obtain ⟨hlist, hid, -⟩ := h
  have hother : (t.id == wanted) = false := by
    rw [hid]
    exact beq_eq_false_iff_ne.mpr hne.symm
  rw [find?, find?, hlist, List.find?_append, List.find?_append, List.find?_cons, hother]

/-! ### The neighbour that takes over -/

/-- The template that **takes over** from one between two lists: the one that follows it, or the one
just before it, if none follows. -/
def TakesOver (before after : List Template) (next : Template) : Prop :=
  (∃ rest, after = next :: rest) ∨ (after = [] ∧ ∃ front, before = front ++ [next])

/-- The template that takes over is one of those that are left. -/
theorem TakesOver.mem {next : Template} (h : TakesOver before after next) :
    next ∈ before ++ after := by
  rcases h with ⟨rest, rfl⟩ | ⟨-, front, rfl⟩
  · exact List.mem_append_right _ List.mem_cons_self
  · exact List.mem_append_left _ (List.mem_append_right _ List.mem_cons_self)

/-- The id that a deletion makes the active one is that of the template that takes over. -/
theorem exists_takesOver (h : before ++ after ≠ []) :
    ∃ next, TakesOver before after next ∧
      successorId (before ++ after) before.length = next.id := by
  cases after with
  | cons next rest => exact ⟨next, .inl ⟨rest, rfl⟩, by simp [successorId]⟩
  | nil =>
      rw [List.append_nil] at h ⊢
      refine ⟨before.getLast h, .inr ⟨rfl, before.dropLast, ?_⟩, ?_⟩
      · exact (List.dropLast_append_getLast h).symm
      · simp [successorId, List.getLast?_eq_some_getLast h]

/-! ### Deleting -/

/-- When the active id is that of the template that is taken out, the next one takes over by id. -/
theorem active?_of_eq (hids : s.ids.Nodup) (h : SplitsAt s.list id before t after)
    (hrest : before ++ after ≠ []) :
    ∃ next, TakesOver before after next ∧
      active? ⟨successorId (before ++ after) before.length, before ++ after⟩ = some next := by
  obtain ⟨next, hnext, hid⟩ := exists_takesOver hrest
  refine ⟨next, hnext, ?_⟩
  rw [active?, hid, find?_id_of_mem (nodup_of_splitsAt hids h) hnext.mem]
  rfl

/-- **Which template is active after a deletion**, if the ids are distinct. The templates but the one
that is deleted stay as they are. If it was not the active one, the active one stays active. If it
was, the one that followed it is active, or the one just before it, if it was the last. -/
theorem delete_active? (hids : s.ids.Nodup) (h : s.delete id = (.ok t, s')) :
    ∃ before after active, SplitsAt s.list id before t after ∧ s'.list = before ++ after ∧
      s.active? = some active ∧
      (active ≠ t → s'.active? = some active) ∧
      (active = t → ∃ next, TakesOver before after next ∧ s'.active? = some next) := by
  obtain ⟨before, after, hsplit, hrest, rfl⟩ := delete_eq_ok h
  have hfind : s.find? id = some t := find?_eq_some_iff.mpr ⟨before, after, hsplit⟩
  by_cases hactive : s.activeId = id
  · rw [if_pos hactive]
    refine ⟨before, after, t, hsplit, rfl, ?_, fun hne => absurd rfl hne, fun _ => ?_⟩
    · rw [active?, hactive, hfind]
      rfl
    · exact active?_of_eq hids hsplit hrest
  · rw [if_neg hactive]
    have hsame := find?_of_ne s.activeId hsplit hactive
    rcases hfound : s.find? s.activeId with _ | active
    · -- the active id is stale: the first template counts as active, before and afterwards
      have hfirst : s.active? = (before ++ t :: after).head? := by
        rw [active?, hfound, Option.none_or, hsplit.1]
      have hfirst' : active? ⟨s.activeId, before ++ after⟩ = (before ++ after).head? := by
        rw [active?, hsame, hfound, Option.none_or]
      cases before with
      | nil =>
          refine ⟨[], after, t, hsplit, rfl, hfirst, fun hne => absurd rfl hne, fun _ => ?_⟩
          obtain ⟨next, rest, rfl⟩ := List.exists_cons_of_ne_nil hrest
          exact ⟨next, .inl ⟨rest, rfl⟩, hfirst'⟩
      | cons u front =>
          refine ⟨u :: front, after, u, hsplit, rfl, hfirst, fun _ => hfirst', fun heq => ?_⟩
          exact absurd (heq ▸ hsplit.2.1) (hsplit.2.2 u List.mem_cons_self)
    · obtain ⟨-, -, -, hid, -⟩ := find?_eq_some_iff.mp hfound
      refine ⟨before, after, active, hsplit, rfl, ?_, fun _ => ?_, fun heq => ?_⟩
      · rw [active?, hfound]
        rfl
      · rw [active?, hsame, hfound]
        rfl
      · exact absurd (hid.symm.trans (heq ▸ hsplit.2.1)) hactive

/-- Three templates and a stale active id, so that the first one is active; it is deleted. -/
theorem delete_active?_stale :
    let s : Templates := ⟨"gone", [⟨"1", "a", "x"⟩, ⟨"2", "b", "y"⟩, ⟨"3", "c", "z"⟩]⟩
    let s' : Templates := ⟨"gone", [⟨"2", "b", "y"⟩, ⟨"3", "c", "z"⟩]⟩
    s.ids.Nodup ∧ s.delete "1" = (.ok ⟨"1", "a", "x"⟩, s') ∧
      ∃ before after active, SplitsAt s.list "1" before ⟨"1", "a", "x"⟩ after ∧
        s'.list = before ++ after ∧ s.active? = some active ∧
        (active ≠ ⟨"1", "a", "x"⟩ → s'.active? = some active) ∧
        (active = ⟨"1", "a", "x"⟩ →
          ∃ next, TakesOver before after next ∧ s'.active? = some next) := by
  intro s s'
  have hids : s.ids.Nodup := by decide
  have hdelete : s.delete "1" = (.ok ⟨"1", "a", "x"⟩, s') := by rfl
  exact ⟨hids, hdelete, delete_active? hids hdelete⟩

end Outreach.Templates
