import Outreach.Proofs.FreshId
import Outreach.Template

/-!
# What Operations Do to Templates

Each operation is described by the store that it leaves when it succeeds. All its checks come before
its first change, so it leaves the store as it was when it fails. An operation that looks for an id
splits the list at the first template with that id: those before it have other ids.

## Main results

* `Templates.add_eq_ok`, `Templates.select_eq_ok`, `Templates.update_eq_ok`,
  `Templates.delete_eq_ok`: what each operation leaves.
* `Templates.exists_add_eq_ok_iff`, `Templates.exists_select_eq_ok_iff`,
  `Templates.exists_update_eq_ok_iff`, `Templates.exists_delete_eq_ok_iff`: when it succeeds.
* `Templates.eq_of_add_error`, `Templates.eq_of_select_error`, `Templates.eq_of_update_error`,
  `Templates.eq_of_delete_error`: it leaves the store as it was when it fails.
* `Templates.exists_active?`: a store whose active id is that of a template has that one as its
  active template.
-/

namespace Outreach.Templates

variable {s s' : Templates} {id content : String} {f : Failure}

/-! ### The steps of an operation -/

/-- Adding checks the name, then the content, and changes the store only then. -/
theorem add_eq (s : Templates) (clock : Nat) (name content : String) :
    s.add clock name content =
      if (Text.trim name).isEmpty then (.error .templateNameBlank, s)
      else if content.isEmpty then (.error .templateContentEmpty, s)
      else
        let t : Template := ⟨freshId s.ids clock, Text.trim name, content⟩
        (.ok t, ⟨t.id, s.list ++ [t]⟩) := by
  by_cases hname : (Text.trim name).isEmpty = true
  · simp only [add, hname, if_true, Edit.of_throw_bind]
  · by_cases hcontent : content.isEmpty = true
    · simp only [add, hname, hcontent, Bool.false_eq_true, if_true, if_false, Edit.of_throw_bind]
    · simp only [add, hname, hcontent, Bool.false_eq_true, if_false, Edit.of_get_bind,
        Edit.of_modify_bind, Edit.of_pure]

/-- Selecting looks for the id before it changes the store. -/
theorem select_eq (s : Templates) (id : String) :
    s.select id =
      match s.get id with
      | .error f => (.error f, s)
      | .ok _ => (.ok (), { s with activeId := id }) := by
  rw [select, Edit.of_get_bind]
  cases s.get id <;> rfl

/-- Changing a content looks for the id before it changes the store. -/
theorem update_eq (s : Templates) (id content : String) :
    s.update id content =
      match s.find? id with
      | none => (.error (.templateToChangeNotFound id), s)
      | some _ => (.ok (), { s with list := replaceContent id content s.list }) := by
  rw [update, Edit.of_get_bind]
  cases s.find? id <;> rfl

/-- Deleting counts the templates, then looks for the id, and changes the store only then. -/
theorem delete_eq (s : Templates) (id : String) :
    s.delete id =
      if s.list.length ≤ 1 then (.error .lastTemplate, s)
      else
        match s.find? id with
        | none => (.error (.templateToChangeNotFound id), s)
        | some t =>
          let rest := s.list.eraseP (·.id == id)
          (.ok t, ⟨if s.activeId = t.id then successorId rest (s.list.findIdx (·.id == id))
            else s.activeId, rest⟩) := by
  rw [delete, Edit.of_get_bind]
  by_cases hlength : s.list.length ≤ 1
  · rw [if_pos hlength, if_pos hlength, Edit.of_throw_bind]
  · rw [if_neg hlength, if_neg hlength, Edit.of_get_bind]
    rcases s.find? id with - | t
    · rfl
    · simp only [Edit.of_get_bind, Edit.of_modify_bind]
      by_cases hactive : s.activeId = t.id
      · simp only [hactive, if_true, Edit.of_modify_bind, Edit.of_pure]
      · simp only [hactive, if_false, Edit.of_pure]

/-! ### Looking for an id -/

/-- A list **splits at the first template** with an id. -/
def SplitsAt (list : List Template) (id : String) (before : List Template) (t : Template)
    (after : List Template) : Prop :=
  list = before ++ t :: after ∧ t.id = id ∧ ∀ u ∈ before, u.id ≠ id

/-- What is found is the first template with the id. -/
theorem find?_eq_some_iff {t : Template} :
    s.find? id = some t ↔ ∃ before after, SplitsAt s.list id before t after := by
  rw [find?, List.find?_eq_some_iff_append]
  constructor
  · rintro ⟨hid, before, after, hlist, hbefore⟩
    refine ⟨before, after, hlist, by simpa using hid, fun u hu => by simpa using hbefore u hu⟩
  · rintro ⟨before, after, hlist, hid, hbefore⟩
    exact ⟨by simpa using hid, before, after, hlist, fun u hu => by simpa using hbefore u hu⟩

/-- A template is found exactly for the ids of the templates. -/
theorem find?_eq_none_iff : s.find? id = none ↔ id ∉ s.ids := by
  rw [find?, List.find?_eq_none, ids, List.mem_map]
  constructor
  · rintro h ⟨t, ht, rfl⟩
    exact h t ht (by simp)
  · rintro h t ht hid
    exact h ⟨t, ht, by simpa using hid⟩

/-- A template is found under an id exactly if the id is one of the ids. -/
theorem exists_find?_iff : (∃ t, s.find? id = some t) ↔ id ∈ s.ids := by
  rw [← Option.ne_none_iff_exists', ne_eq, find?_eq_none_iff, Decidable.not_not]

/-- A store whose active id is the id of a template has this template as its active one. -/
theorem exists_active? (h : s.activeId ∈ s.ids) :
    ∃ t ∈ s.list, t.id = s.activeId ∧ s.active? = some t := by
  obtain ⟨t, ht⟩ := exists_find?_iff.mpr h
  obtain ⟨before, after, hlist, hid, -⟩ := find?_eq_some_iff.mp ht
  refine ⟨t, by simp [hlist], hid, ?_⟩
  rw [active?, ht]
  rfl

/-! ### Adding and selecting -/

/-- A template that is added stands at the end with a fresh id, and is the active one. -/
theorem add_eq_ok {clock : Nat} {name : String} {t : Template}
    (h : s.add clock name content = (.ok t, s')) :
    t.name = Text.trim name ∧ t.content = content ∧ t.id = freshId s.ids clock ∧
      s' = ⟨t.id, s.list ++ [t]⟩ := by
  rw [add_eq] at h
  split at h
  · simp at h
  · split at h
    · simp at h
    · obtain ⟨ht, rfl⟩ := Prod.mk.inj h
      obtain rfl := Except.ok.inj ht
      exact ⟨rfl, rfl, rfl, rfl⟩

/-- An addition that fails leaves the store as it was. -/
theorem eq_of_add_error {clock : Nat} {name : String}
    (h : s.add clock name content = (.error f, s')) : s' = s := by
  rw [add_eq] at h
  split at h
  · exact (Prod.mk.inj h).2.symm
  · split at h
    · exact (Prod.mk.inj h).2.symm
    · simp at h

/-- Selecting a template changes the active id only, to one of the ids. -/
theorem select_eq_ok (h : s.select id = (.ok (), s')) :
    id ∈ s.ids ∧ s' = { s with activeId := id } := by
  rw [select_eq, get] at h
  split at h
  · simp at h
  · rename_i hget
    split at hget
    · rename_i t ht
      exact ⟨exists_find?_iff.mp ⟨t, ht⟩, (Prod.mk.inj h).2.symm⟩
    · simp at hget

/-- A selection that fails leaves the store as it was. -/
theorem eq_of_select_error (h : s.select id = (.error f, s')) : s' = s := by
  rw [select_eq] at h
  split at h
  · exact (Prod.mk.inj h).2.symm
  · simp at h

/-- Adding succeeds exactly with a name that is not blank and a content that is not empty. -/
theorem exists_add_eq_ok_iff {clock : Nat} {name : String} :
    (∃ t s', s.add clock name content = (.ok t, s')) ↔ Text.trim name ≠ "" ∧ content ≠ "" := by
  rw [add_eq]
  split
  · rename_i hname
    simp [String.isEmpty_iff.mp hname]
  · rename_i hname
    split
    · rename_i hcontent
      simp [String.isEmpty_iff.mp hcontent]
    · rename_i hcontent
      refine ⟨fun _ => ⟨fun h => ?_, fun h => ?_⟩, fun _ => ⟨_, _, rfl⟩⟩
      · exact hname (String.isEmpty_iff.mpr h)
      · exact hcontent (String.isEmpty_iff.mpr h)

/-- Selecting succeeds exactly with one of the ids. -/
theorem exists_select_eq_ok_iff : (∃ s', s.select id = (.ok (), s')) ↔ id ∈ s.ids := by
  constructor
  · rintro ⟨s', h⟩
    exact (select_eq_ok h).1
  · intro h
    obtain ⟨t, ht⟩ := exists_find?_iff.mpr h
    rw [select_eq, get, ht]
    exact ⟨_, rfl⟩

/-! ### Changing the content -/

/-- The content changes where the list splits. -/
theorem replaceContent_of_splitsAt {before after : List Template} {t : Template}
    (hid : t.id = id) (hbefore : ∀ u ∈ before, u.id ≠ id) :
    replaceContent id content (before ++ t :: after) =
      before ++ { t with content } :: after := by
  induction before with
  | nil => rw [List.nil_append, replaceContent, if_pos (by simpa using hid), List.nil_append]
  | cons u before ih =>
      rw [List.cons_append, replaceContent, if_neg (by simpa using hbefore u List.mem_cons_self),
        ih fun v hv => hbefore v (List.mem_cons_of_mem u hv), List.cons_append]

/-- Changing a content leaves all else as it is. -/
theorem update_eq_ok (h : s.update id content = (.ok (), s')) :
    ∃ before t after, SplitsAt s.list id before t after ∧
      s' = { s with list := before ++ { t with content } :: after } := by
  rw [update_eq] at h
  split at h
  · simp at h
  · rename_i t ht
    obtain ⟨before, after, hsplit⟩ := find?_eq_some_iff.mp ht
    refine ⟨before, t, after, hsplit, ?_⟩
    obtain ⟨hlist, hid, hbefore⟩ := hsplit
    rw [← (Prod.mk.inj h).2, hlist, replaceContent_of_splitsAt hid hbefore]

/-- A change of a content that fails leaves the store as it was. -/
theorem eq_of_update_error (h : s.update id content = (.error f, s')) : s' = s := by
  rw [update_eq] at h
  split at h
  · exact (Prod.mk.inj h).2.symm
  · simp at h

/-- Changing a content succeeds exactly with one of the ids. -/
theorem exists_update_eq_ok_iff : (∃ s', s.update id content = (.ok (), s')) ↔ id ∈ s.ids := by
  rw [← exists_find?_iff, update_eq]
  cases s.find? id with
  | none => simp
  | some t => simp

/-! ### Deleting -/

/-- The ids stay distinct when a template is taken out. -/
theorem nodup_of_splitsAt {activeId : String} {before after : List Template} {t : Template}
    (hids : s.ids.Nodup) (h : SplitsAt s.list id before t after) :
    (ids ⟨activeId, before ++ after⟩).Nodup := by
  have hsub : (before ++ after).Sublist s.list := by
    rw [h.1]
    exact List.Sublist.append_left (List.sublist_cons_self t after) before
  exact hids.sublist (hsub.map Template.id)

/-- As long as templates are left, one of them becomes active. -/
theorem successorId_mem {rest : List Template} (h : rest ≠ []) (place : Nat) :
    successorId rest place ∈ rest.map Template.id := by
  rw [successorId]
  split
  · rename_i t ht
    exact List.mem_map_of_mem (List.mem_of_getElem? ht)
  · rw [List.getLast?_eq_some_getLast h]
    exact List.mem_map_of_mem (List.getLast_mem h)

/-- A template that is deleted is not the only one, and the others stay in order. If its id was
active, another id becomes active. -/
theorem delete_eq_ok {t : Template} (h : s.delete id = (.ok t, s')) :
    ∃ before after, SplitsAt s.list id before t after ∧ before ++ after ≠ [] ∧
      s' = ⟨if s.activeId = id then successorId (before ++ after) before.length else s.activeId,
        before ++ after⟩ := by
  rw [delete_eq] at h
  split at h
  · simp at h
  · rename_i hlength
    split at h
    · simp at h
    · rename_i u hu
      obtain ⟨hvalue, rfl⟩ := Prod.mk.inj h
      obtain rfl := Except.ok.inj hvalue
      obtain ⟨before, after, hsplit⟩ := find?_eq_some_iff.mp hu
      refine ⟨before, after, hsplit, ?_, ?_⟩
      · rintro hnil
        obtain ⟨rfl, rfl⟩ := List.append_eq_nil_iff.mp hnil
        exact hlength (by simp [hsplit.1])
      · obtain ⟨hlist, hid, hbefore⟩ := hsplit
        have herase : s.list.eraseP (·.id == id) = before ++ after := by
          rw [hlist, List.eraseP_append_right _ (by simpa using hbefore),
            List.eraseP_cons_of_pos (by simpa using hid)]
        have hplace : s.list.findIdx (·.id == id) = before.length := by
          rw [hlist, List.findIdx_append, List.findIdx_eq_length_of_false (by simpa using hbefore),
            if_neg (Nat.lt_irrefl _), List.findIdx_cons]
          simp [hid]
        rw [herase, hplace, hid]

/-- A deletion that fails leaves the store as it was. -/
theorem eq_of_delete_error (h : s.delete id = (.error f, s')) : s' = s := by
  rw [delete_eq] at h
  split at h
  · exact (Prod.mk.inj h).2.symm
  · split at h
    · exact (Prod.mk.inj h).2.symm
    · simp at h

/-- Deleting succeeds exactly with one of several ids. -/
theorem exists_delete_eq_ok_iff :
    (∃ t s', s.delete id = (.ok t, s')) ↔ 1 < s.list.length ∧ id ∈ s.ids := by
  rw [← exists_find?_iff, delete_eq]
  split
  · rename_i hlength
    simp [Nat.not_lt.mpr hlength]
  · rename_i hlength
    cases s.find? id with
    | none => simp
    | some t => simp [Nat.lt_of_not_le hlength]

end Outreach.Templates
