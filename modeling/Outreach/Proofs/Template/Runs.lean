import Outreach.Proofs.StoreFile.RoundTrip
import Outreach.Proofs.Template.Operations

/-!
# Runs of Template Operations

Whatever is done to the templates, in whatever order: there always are templates, their ids differ,
and the active id is that of one of them. An operation that is allowed succeeds and makes one change,
which is named here for each operation; every such change keeps the three facts, and so does every
run. An operation that is not allowed fails and changes nothing.

## Main results

* `Templates.exists_attempt_eq_ok_iff`: an operation succeeds exactly if it is allowed.
* `Templates.change_of_attempt`: an operation that succeeds makes its change.
* `Templates.eq_of_attempt_error`: one that fails leaves the templates as they were.
* `Templates.Change.isWellFormed`: each change keeps a collection well-formed.
* `Templates.IsWellFormed.performAll`: so does every run.
* `Templates.performAll_isWellFormed_and_change`: **what holds in every state that a run reaches**.
-/

namespace Outreach.Templates

/-! ### Operations -/

/-- An **operation** on the templates. The clock of an addition and the world in which templates are
saved and loaded are any. -/
inductive Operation where
  | add (clock : Nat) (name content : String)
  | select (id : String)
  | update (id content : String)
  | reset (id : String)
  | delete (id : String)
  /-- Save the templates and load them again. -/
  | reload (w : World) (path : String)

/-- What an operation gives, and the templates that it leaves. Templates that cannot be loaded leave
those that are there. -/
def attempt (s : Templates) : Operation → Outcome Templates Unit
  | .add clock name content => (s.add clock name content).withoutValue
  | .select id => s.select id
  | .update id content => s.update id content
  | .reset id => s.reset id
  | .delete id => (s.delete id).withoutValue
  | .reload w path =>
    let loaded := (w.runTask do
      s.save path
      Templates.load path).1
    (loaded.map fun _ => (), loaded.toOption.getD s)

/-- The templates after an operation, whether or not it fails. -/
def perform (s : Templates) (op : Operation) : Templates :=
  (s.attempt op).2

/-- The templates after a run of operations, each of which may have failed. -/
def performAll (s : Templates) (ops : List Operation) : Templates :=
  ops.foldl perform s

/-- The operations that templates **allow**. Templates can be saved and loaded if they can be
saved. -/
def Allows (s : Templates) : Operation → Prop
  | .add _ name content => Text.trim name ≠ "" ∧ content ≠ ""
  | .select id => id ∈ s.ids
  | .update id _ => id ∈ s.ids
  | .reset id => id ∈ s.ids
  | .delete id => 1 < s.list.length ∧ id ∈ s.ids
  | .reload w path => ∃ w', w.runTask (s.save path) = (.ok (), w')

/-! ### Changes -/

/-- The **change** that an operation makes when it succeeds, described without the way in which it
is made. -/
inductive Change (s : Templates) : Operation → Templates → Prop
  /-- One template more at the end, which is the active one. -/
  | add {clock : Nat} {name content : String} {t : Template} (named : t.name = Text.trim name)
      (filled : t.content = content) (fresh : t.id ∉ s.ids) :
      Change s (.add clock name content) ⟨t.id, s.list ++ [t]⟩
  /-- Another active id, and nothing else. -/
  | select {id : String} (known : id ∈ s.ids) : Change s (.select id) { s with activeId := id }
  /-- Another content of one template, and nothing else. -/
  | update {id content : String} {before after : List Template} {t : Template}
      (split : SplitsAt s.list id before t after) :
      Change s (.update id content) { s with list := before ++ { t with content } :: after }
  /-- The built-in content of one template, and nothing else. -/
  | reset {id : String} {before after : List Template} {t : Template}
      (split : SplitsAt s.list id before t after) :
      Change s (.reset id)
        { s with list := before ++ { t with content := Message.builtInTemplate } :: after }
  /-- One template less. Its id goes from being active to the id of another. -/
  | delete {id activeId : String} {before after : List Template} {t : Template}
      (split : SplitsAt s.list id before t after)
      (active : if s.activeId = id then activeId ∈ (before ++ after).map Template.id
        else activeId = s.activeId) :
      Change s (.delete id) ⟨activeId, before ++ after⟩
  /-- None. -/
  | reload {w : World} {path : String} : Change s (.reload w path) s

variable {s s' : Templates} {op : Operation}

/-- What saving and loading the templates gives is the templates, if they can be saved. -/
theorem attempt_reload_eq_ok_iff {w : World} {path : String} :
    s.attempt (.reload w path) = (.ok (), s') ↔ s.Allows (.reload w path) ∧ s' = s := by
  rw [attempt, Outcome.map_getD_eq_ok_iff]
  exact fst_runTask_save_load_eq_ok_iff (fun _ => load_of_save)

/-- **An operation succeeds exactly if it is allowed.** -/
theorem exists_attempt_eq_ok_iff : (∃ s', s.attempt op = (.ok (), s')) ↔ s.Allows op := by
  cases op with
  | add clock name content =>
      simp only [attempt, Outcome.withoutValue_eq_ok_iff, Allows]
      rw [← exists_add_eq_ok_iff, exists_comm]
  | select id => exact exists_select_eq_ok_iff
  | update id content => exact exists_update_eq_ok_iff
  | reset id => exact exists_update_eq_ok_iff
  | delete id =>
      simp only [attempt, Outcome.withoutValue_eq_ok_iff, Allows]
      rw [← exists_delete_eq_ok_iff, exists_comm]
  | reload w path =>
      simp only [attempt_reload_eq_ok_iff]
      exact ⟨fun ⟨_, h, _⟩ => h, fun h => ⟨s, h, rfl⟩⟩

/-- **An operation that succeeds makes its change.** -/
theorem change_of_attempt (h : s.attempt op = (.ok (), s')) : Change s op s' := by
  cases op with
  | add clock name content =>
      obtain ⟨t, hadd⟩ := Outcome.withoutValue_eq_ok_iff.mp h
      obtain ⟨hname, hcontent, hid, rfl⟩ := add_eq_ok hadd
      exact .add hname hcontent (hid ▸ freshId_notMem s.ids clock)
  | select id =>
      obtain ⟨hid, rfl⟩ := select_eq_ok h
      exact .select hid
  | update id content =>
      obtain ⟨before, t, after, hsplit, rfl⟩ := update_eq_ok h
      exact .update hsplit
  | reset id =>
      obtain ⟨before, t, after, hsplit, rfl⟩ := update_eq_ok h
      exact .reset hsplit
  | delete id =>
      obtain ⟨t, hdelete⟩ := Outcome.withoutValue_eq_ok_iff.mp h
      obtain ⟨before, after, hsplit, hrest, rfl⟩ := delete_eq_ok hdelete
      refine .delete hsplit ?_
      split
      · exact successorId_mem hrest before.length
      · rfl
  | reload w path =>
      obtain ⟨-, rfl⟩ := attempt_reload_eq_ok_iff.mp h
      exact .reload

/-- **An operation that fails leaves the templates as they were.** -/
theorem eq_of_attempt_error {f : Failure} (h : s.attempt op = (.error f, s')) : s' = s := by
  cases op with
  | add clock name content => exact eq_of_add_error (Outcome.withoutValue_eq_error_iff.mp h)
  | select id => exact eq_of_select_error h
  | update id content => exact eq_of_update_error h
  | reset id => exact eq_of_update_error h
  | delete id => exact eq_of_delete_error (Outcome.withoutValue_eq_error_iff.mp h)
  | reload w path => exact Outcome.eq_of_map_getD_error h

/-! ### Well-formed templates -/

/-- A collection of templates is **well-formed** if it is not empty, its ids differ, and its active
id is that of one of its templates. -/
structure IsWellFormed (s : Templates) : Prop where
  nonempty : s.list ≠ []
  nodup : s.ids.Nodup
  active : s.activeId ∈ s.ids

/-- The active id alone shows that there are templates. -/
theorem IsWellFormed.of_mem (hnodup : s.ids.Nodup) (hactive : s.activeId ∈ s.ids) :
    s.IsWellFormed where
  nonempty := by
    rintro hnil
    rw [ids, hnil] at hactive
    exact absurd hactive (by simp)
  nodup := hnodup
  active := hactive

/-- The built-in templates are well formed, so every run from a new directory starts well. -/
theorem isWellFormed_builtIn : builtIn.IsWellFormed :=
  .of_mem (List.nodup_singleton _) List.mem_cons_self

/-- Another content of one template leaves all ids as they are. -/
theorem IsWellFormed.of_splitsAt {id content : String} {before after : List Template}
    {t : Template} (hs : s.IsWellFormed) (h : SplitsAt s.list id before t after) :
    IsWellFormed { s with list := before ++ { t with content } :: after } := by
  have hids : (before ++ { t with content } :: after).map Template.id = s.ids := by
    rw [ids, h.1, List.map_append, List.map_append]
    rfl
  refine .of_mem ?_ ?_
  · rw [ids, hids]
    exact hs.nodup
  · rw [ids, hids]
    exact hs.active

/-- **Each change keeps a collection well-formed.** -/
theorem Change.isWellFormed (h : Change s op s') (hs : s.IsWellFormed) : s'.IsWellFormed := by
  cases h with
  | @add clock name content t _ _ hfresh =>
      refine .of_mem ?_ ?_
      · rw [ids, List.map_append, List.nodup_append]
        refine ⟨hs.nodup, List.nodup_singleton _, ?_⟩
        rintro id hid _ hid' rfl
        rw [List.mem_singleton.mp hid'] at hid
        exact hfresh hid
      · rw [ids, List.map_append]
        exact List.mem_append_right _ List.mem_cons_self
  | select hid => exact .of_mem hs.nodup hid
  | update hsplit => exact hs.of_splitsAt hsplit
  | reset hsplit => exact hs.of_splitsAt hsplit
  | @delete id activeId before after t hsplit hactive =>
      refine .of_mem (nodup_of_splitsAt hs.nodup hsplit) ?_
      obtain ⟨hlist, hid, -⟩ := hsplit
      split at hactive
      · exact hactive
      · rename_i hne
        -- the active id is another than the one that has gone
        have hmem := hs.active
        rw [ids, hlist, List.map_append, List.map_cons, List.mem_append, List.mem_cons] at hmem
        rw [ids, List.map_append, List.mem_append, hactive]
        rcases hmem with hmem | hmem | hmem
        · exact .inl hmem
        · exact absurd (hmem.trans hid) hne
        · exact .inr hmem
  | reload => exact hs

/-- An operation keeps templates well-formed, whether or not it succeeds. -/
theorem IsWellFormed.perform (hs : s.IsWellFormed) (op : Operation) :
    (s.perform op).IsWellFormed := by
  rw [Templates.perform]
  rcases hop : s.attempt op with ⟨f | ⟨⟨⟩⟩, s'⟩
  · exact eq_of_attempt_error hop ▸ hs
  · exact (change_of_attempt hop).isWellFormed hs

/-- So does every run of operations. -/
theorem IsWellFormed.performAll (hs : s.IsWellFormed) (ops : List Operation) :
    (s.performAll ops).IsWellFormed := by
  induction ops generalizing s with
  | nil => exact hs
  | cons op ops ih => exact ih (hs.perform op)

/-- **What holds in every state that a run reaches**, from any well-formed templates, of which the
built-in ones are some: the templates are well-formed, the active template is the one with the
active id, an operation succeeds exactly if it is allowed, one that succeeds makes its change and
one that fails makes none. -/
theorem performAll_isWellFormed_and_change :
    builtIn.IsWellFormed ∧
      ∀ (start : Templates), start.IsWellFormed → ∀ (ops : List Operation) (s : Templates),
        s = start.performAll ops →
          s.IsWellFormed ∧
          (∃ t ∈ s.list, t.id = s.activeId ∧ s.active? = some t) ∧
          (∀ op, (∃ s', s.attempt op = (.ok (), s')) ↔ s.Allows op) ∧
          (∀ op s', s.attempt op = (.ok (), s') → s.perform op = s' ∧ Change s op s') ∧
          ∀ op f s', s.attempt op = (.error f, s') → s.perform op = s' ∧ s' = s := by
  refine ⟨isWellFormed_builtIn, ?_⟩
  rintro start hstart ops s rfl
  have hs := hstart.performAll ops
  refine ⟨hs, exists_active? hs.active, fun op => exists_attempt_eq_ok_iff,
    fun op s' h => ⟨?_, change_of_attempt h⟩, fun op f s' h => ⟨?_, eq_of_attempt_error h⟩⟩
  · rw [perform, h]
  · rw [perform, h]

/-- Two templates, to which one is added under an id that has to move on twice. The first one is
deleted, an unknown one is not selected, another content is given, and the active one is deleted. -/
theorem performAll_isWellFormed_and_change_two :
    let start : Templates := ⟨"5", [⟨"5", "a", "x"⟩, ⟨"6", "b", "y"⟩]⟩
    let ops : List Operation :=
      [.add 5 " c " "z", .delete "5", .select "8", .update "6" "w", .delete "7"]
    let s : Templates := ⟨"6", [⟨"6", "b", "w"⟩]⟩
    start.IsWellFormed ∧ s = start.performAll ops ∧ s.IsWellFormed ∧
      (∃ t ∈ s.list, t.id = s.activeId ∧ s.active? = some t) ∧
      (∀ op, (∃ s', s.attempt op = (.ok (), s')) ↔ s.Allows op) ∧
      (∀ op s', s.attempt op = (.ok (), s') → s.perform op = s' ∧ Change s op s') ∧
      ∀ op f s', s.attempt op = (.error f, s') → s.perform op = s' ∧ s' = s := by
  intro start ops s
  have hstart : start.IsWellFormed := ⟨by decide, by decide, by decide⟩
  have hs : s = start.performAll ops := by decide +kernel
  exact ⟨hstart, hs, performAll_isWellFormed_and_change.2 start hstart ops s hs⟩

end Outreach.Templates
