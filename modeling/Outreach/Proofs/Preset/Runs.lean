import Outreach.Proofs.FreshId
import Outreach.Proofs.Record.Layers
import Outreach.Proofs.Template.Runs
import Outreach.Proofs.Text.Trimming

/-!
# Runs of Preset Operations

Presets are added, deleted, and saved and loaded again. Whatever is done, in whatever order and
whatever the clock shows: their ids differ, their names are trimmed and not blank, and they store
nothing but the fields that a preset may store, so no name of a person ever gets into them. An
operation that is allowed succeeds and makes one change; one that is not allowed fails and changes
nothing.

## Main results

* `Presets.exists_attempt_eq_ok_iff`: an operation succeeds exactly if it is allowed.
* `Presets.change_of_attempt`: an operation that succeeds makes its change.
* `Presets.eq_of_attempt_error`: one that fails leaves the presets as they were.
* `Presets.isWellFormed_builtIn`: the built-in presets of any date are well-formed.
* `Presets.Change.isWellFormed`: each change keeps a collection well-formed.
* `Presets.performAll_isWellFormed`: **what holds in every state that a run reaches**.
-/

namespace Outreach

/-! ### Stored fields -/

namespace Preset

/-- A preset is **presentable**: its name is trimmed and not blank, and it stores no other fields
than a preset may. -/
structure IsPresentable (p : Preset) : Prop where
  named : p.name ≠ ""
  trimmed : Text.IsTrimmed p.name.toList
  stored : ∀ key ∈ p.data.keys, key ∈ Field.stored.map Field.name

variable {p : Preset}

/-- A preset stores nothing under a name that a preset may not store. -/
theorem IsPresentable.get?_eq_none (h : p.IsPresentable) {key : String}
    (hkey : key ∉ Field.stored.map Field.name) : p.data.get? key = none :=
  Record.get?_eq_none_iff.mpr fun hmem => hkey (h.stored key hmem)

/-- The preset of some fields stores no others. -/
theorem keys_ofFields_subset {id name : String} {fields : List (Field × String)}
    (h : ∀ e ∈ fields, e.1 ∈ Field.stored) :
    ∀ key ∈ (ofFields id name fields).data.keys, key ∈ Field.stored.map Field.name := by
  intro key hkey
  obtain ⟨value, hvalue⟩ := Record.mem_keys_iff.mp hkey
  rw [ofFields, Record.get?_ofList, List.lookup_eq_some_iff] at hvalue
  obtain ⟨before, after, hentries, -⟩ := hvalue
  have hmem : (key, value) ∈ before ++ (key, value) :: after :=
    List.mem_append_right before List.mem_cons_self
  rw [← hentries, List.mem_reverse] at hmem
  obtain ⟨⟨f, text⟩, he, heq⟩ := List.mem_map.mp hmem
  obtain ⟨rfl, rfl⟩ := Prod.mk.inj heq
  exact List.mem_map_of_mem (h _ he)

/-- Each built-in preset is presentable. -/
theorem isPresentable_of_mem_builtIn {date : Date} (hp : p ∈ builtIn date) : p.IsPresentable := by
  have hnames : ∀ name ∈ (builtIn date).map Preset.name,
      name ≠ "" ∧ Text.IsTrimmed name.toList := by
    have hlist : (builtIn date).map Preset.name = ["方案A：分潤20%", "方案B：分潤15%+保底25000",
        "方案C：分潤10%+加碼10000", "門檻達標模板", "粉絲優惠模板：組合優惠"] := rfl
    rw [hlist]
    decide +kernel
  obtain ⟨hnamed, htrimmed⟩ := hnames p.name (List.mem_map_of_mem hp)
  refine ⟨hnamed, htrimmed, ?_⟩
  simp only [builtIn, List.mem_cons, List.not_mem_nil, or_false] at hp
  rcases hp with rfl | rfl | rfl | rfl | rfl <;>
    exact keys_ofFields_subset (by simp [Field.stored])

end Preset

namespace Presets

/-! ### Operations -/

/-- An **operation** on the presets. The clock of an addition and the world in which presets are
saved and loaded, with the day, are any. -/
inductive Operation where
  | add (clock : Nat) (name : String) (fields : Record)
  | delete (id : String)
  /-- Save the presets and load them again. -/
  | reload (w : World) (path : String) (day : Date)

/-- What an operation gives, and the presets that it leaves. Presets that cannot be loaded leave
those that are there. -/
def attempt (s : Presets) : Operation → Outcome Presets Unit
  | .add clock name fields => (s.add clock name fields).withoutValue
  | .delete id => (s.delete id).withoutValue
  | .reload w path day =>
    let loaded := (w.runTask do
      s.save path
      Presets.load path day).1
    (loaded.map fun _ => (), loaded.toOption.getD s)

/-- The presets after an operation, whether or not it fails. -/
def perform (s : Presets) (op : Operation) : Presets :=
  (s.attempt op).2

/-- The presets after a run of operations, each of which may have failed. -/
def performAll (s : Presets) (ops : List Operation) : Presets :=
  ops.foldl perform s

/-- The operations that presets **allow**. Presets can be saved and loaded if they can be saved. -/
def Allows (s : Presets) : Operation → Prop
  | .add _ name _ => Text.trim name ≠ ""
  | .delete id => id ∈ s.ids
  | .reload w path _ => ∃ w', w.runTask (s.save path) = (.ok (), w')

/-! ### Changes -/

/-- The **change** that an operation makes when it succeeds, described without the way in which it
is made. -/
inductive Change (s : Presets) : Operation → Presets → Prop
  /-- One preset more at the end. Of the given fields it has those that a preset may store. -/
  | add {clock : Nat} {name : String} {fields : Record} {p : Preset}
      (named : p.name = Text.trim name) (filled : p.name ≠ "") (fresh : p.id ∉ s.ids)
      (stored : ∀ key, p.data.get? key =
        if key ∈ Field.stored.map Field.name then fields.get? key else none) :
      Change s (.add clock name fields) ⟨s.list ++ [p]⟩
  /-- One preset less: the first one with the id. -/
  | delete {id : String} {before after : List Preset} {p : Preset}
      (split : s.list = before ++ p :: after) (known : p.id = id) (first : ∀ q ∈ before, q.id ≠ id) :
      Change s (.delete id) ⟨before ++ after⟩
  /-- None. -/
  | reload {w : World} {path : String} {day : Date} : Change s (.reload w path day) s

variable {s s' : Presets} {op : Operation} {id : String} {f : Failure}

/-- Adding checks the name, and changes the presets only then. -/
theorem add_eq (s : Presets) (clock : Nat) (name : String) (fields : Record) :
    s.add clock name fields =
      if (Text.trim name).isEmpty then (.error .presetNameBlank, s)
      else
        let p : Preset :=
          ⟨freshId s.ids clock, Text.trim name, fields.retain (Field.stored.map Field.name)⟩
        (.ok p, ⟨s.list ++ [p]⟩) := by
  by_cases hname : (Text.trim name).isEmpty = true
  · simp only [add, hname, if_true, Edit.of_throw_bind]
  · simp only [add, hname, Bool.false_eq_true, if_false, Edit.of_get_bind, Edit.of_modify_bind,
      Edit.of_pure]

/-- Deleting looks for the id, and changes the presets only then. -/
theorem delete_eq (s : Presets) (id : String) :
    s.delete id =
      match s.find? id with
      | none => (.error (.presetToDeleteNotFound id), s)
      | some p => (.ok p, ⟨s.list.eraseP (·.id == id)⟩) := by
  rw [delete, Edit.of_get_bind]
  cases s.find? id <;> rfl

/-- A preset that is added stands at the end with a fresh id. -/
theorem add_eq_ok {clock : Nat} {name : String} {fields : Record} {p : Preset}
    (h : s.add clock name fields = (.ok p, s')) :
    p.name = Text.trim name ∧ p.name ≠ "" ∧ p.id = freshId s.ids clock ∧
      p.data = fields.retain (Field.stored.map Field.name) ∧ s' = ⟨s.list ++ [p]⟩ := by
  rw [add_eq] at h
  split at h
  · simp at h
  · rename_i hname
    obtain ⟨hp, rfl⟩ := Prod.mk.inj h
    obtain rfl := Except.ok.inj hp
    exact ⟨rfl, fun hempty => hname (String.isEmpty_iff.mpr hempty), rfl, rfl, rfl⟩

/-- An addition that fails leaves the presets as they were. -/
theorem eq_of_add_error {clock : Nat} {name : String} {fields : Record}
    (h : s.add clock name fields = (.error f, s')) : s' = s := by
  rw [add_eq] at h
  split at h
  · exact (Prod.mk.inj h).2.symm
  · simp at h

/-- Adding succeeds exactly with a name that is not blank. -/
theorem exists_add_eq_ok_iff (s : Presets) (clock : Nat) (name : String) (fields : Record) :
    (∃ p s', s.add clock name fields = (.ok p, s')) ↔ Text.trim name ≠ "" := by
  rw [add_eq]
  split
  · rename_i hname
    simp [String.isEmpty_iff.mp hname]
  · rename_i hname
    exact ⟨fun _ hempty => hname (String.isEmpty_iff.mpr hempty), fun _ => ⟨_, _, rfl⟩⟩

/-- What is found is the first preset with the id. -/
theorem find?_eq_some_iff {p : Preset} :
    s.find? id = some p ↔
      ∃ before after, s.list = before ++ p :: after ∧ p.id = id ∧ ∀ q ∈ before, q.id ≠ id := by
  rw [find?, List.find?_eq_some_iff_append]
  constructor
  · rintro ⟨hid, before, after, hlist, hbefore⟩
    exact ⟨before, after, hlist, by simpa using hid, fun q hq => by simpa using hbefore q hq⟩
  · rintro ⟨before, after, hlist, hid, hbefore⟩
    exact ⟨by simpa using hid, before, after, hlist, fun q hq => by simpa using hbefore q hq⟩

/-- A preset is found exactly for the ids of the presets. -/
theorem find?_eq_none_iff : s.find? id = none ↔ id ∉ s.ids := by
  rw [find?, List.find?_eq_none, ids, List.mem_map]
  constructor
  · rintro h ⟨p, hp, rfl⟩
    exact h p hp (by simp)
  · rintro h p hp hid
    exact h ⟨p, hp, by simpa using hid⟩

/-- A preset that is deleted is the first one with the id, and the others stay in order. -/
theorem delete_eq_ok {p : Preset} (h : s.delete id = (.ok p, s')) :
    ∃ before after, s.list = before ++ p :: after ∧ p.id = id ∧ (∀ q ∈ before, q.id ≠ id) ∧
      s' = ⟨before ++ after⟩ := by
  rw [delete_eq] at h
  split at h
  · simp at h
  · rename_i q hq
    obtain ⟨hvalue, rfl⟩ := Prod.mk.inj h
    obtain rfl := Except.ok.inj hvalue
    obtain ⟨before, after, hlist, hid, hbefore⟩ := find?_eq_some_iff.mp hq
    refine ⟨before, after, hlist, hid, hbefore, ?_⟩
    rw [hlist, List.eraseP_append_right _ (by simpa using hbefore),
      List.eraseP_cons_of_pos (by simpa using hid)]

/-- A deletion that fails leaves the presets as they were. -/
theorem eq_of_delete_error (h : s.delete id = (.error f, s')) : s' = s := by
  rw [delete_eq] at h
  split at h
  · exact (Prod.mk.inj h).2.symm
  · simp at h

/-- Deleting succeeds exactly with one of the ids. -/
theorem exists_delete_eq_ok_iff (s : Presets) (id : String) :
    (∃ p s', s.delete id = (.ok p, s')) ↔ id ∈ s.ids := by
  rw [← Decidable.not_not (p := id ∈ s.ids), ← find?_eq_none_iff, delete_eq]
  cases s.find? id with
  | none => simp
  | some p => simp

/-- What saving and loading the presets gives is the presets, if they can be saved. -/
theorem attempt_reload_eq_ok_iff {w : World} {path : String} {day : Date} :
    s.attempt (.reload w path day) = (.ok (), s') ↔ s.Allows (.reload w path day) ∧ s' = s := by
  rw [attempt, Outcome.map_getD_eq_ok_iff]
  exact fst_runTask_save_load_eq_ok_iff (fun _ => load_of_save day)

/-- **An operation succeeds exactly if it is allowed.** -/
theorem exists_attempt_eq_ok_iff : (∃ s', s.attempt op = (.ok (), s')) ↔ s.Allows op := by
  cases op with
  | add clock name fields =>
      simp only [attempt, Outcome.withoutValue_eq_ok_iff, Allows]
      rw [← exists_add_eq_ok_iff s clock name fields, exists_comm]
  | delete id =>
      simp only [attempt, Outcome.withoutValue_eq_ok_iff, Allows]
      rw [← exists_delete_eq_ok_iff, exists_comm]
  | reload w path day =>
      simp only [attempt_reload_eq_ok_iff]
      exact ⟨fun ⟨_, h, _⟩ => h, fun h => ⟨s, h, rfl⟩⟩

/-- **An operation that succeeds makes its change.** -/
theorem change_of_attempt (h : s.attempt op = (.ok (), s')) : Change s op s' := by
  cases op with
  | add clock name fields =>
      obtain ⟨p, hadd⟩ := Outcome.withoutValue_eq_ok_iff.mp h
      obtain ⟨hname, hfilled, hid, hdata, rfl⟩ := add_eq_ok hadd
      refine .add hname hfilled (hid ▸ freshId_notMem s.ids clock) fun key => ?_
      rw [hdata, Record.get?_retain]
      simp only [List.contains_iff_mem]
  | delete id =>
      obtain ⟨p, hdelete⟩ := Outcome.withoutValue_eq_ok_iff.mp h
      obtain ⟨before, after, hlist, hid, hbefore, rfl⟩ := delete_eq_ok hdelete
      exact .delete hlist hid hbefore
  | reload w path day =>
      obtain ⟨-, rfl⟩ := attempt_reload_eq_ok_iff.mp h
      exact .reload

/-- **An operation that fails leaves the presets as they were.** -/
theorem eq_of_attempt_error (h : s.attempt op = (.error f, s')) : s' = s := by
  cases op with
  | add clock name fields => exact eq_of_add_error (Outcome.withoutValue_eq_error_iff.mp h)
  | delete id => exact eq_of_delete_error (Outcome.withoutValue_eq_error_iff.mp h)
  | reload w path day => exact Outcome.eq_of_map_getD_error h

/-! ### Well-formed presets -/

/-- A collection of presets is **well-formed** if its ids differ and each preset is presentable. -/
structure IsWellFormed (s : Presets) : Prop where
  nodup : s.ids.Nodup
  presentable : ∀ p ∈ s.list, p.IsPresentable

/-- The built-in presets of any date are well-formed. -/
theorem isWellFormed_builtIn (date : Date) : (builtIn date).IsWellFormed where
  nodup := by
    have hids : (builtIn date).ids = ["A", "B", "C", "THRESHOLD_TEMPLATE", "FAN_OFFER_COMBO"] := rfl
    rw [hids]
    decide
  presentable _ hp := Preset.isPresentable_of_mem_builtIn hp

/-- Fewer presets are still well-formed. -/
theorem IsWellFormed.sublist {list : List Preset} (hs : s.IsWellFormed)
    (h : list.Sublist s.list) : IsWellFormed ⟨list⟩ where
  nodup := hs.nodup.sublist (h.map Preset.id)
  presentable p hp := hs.presentable p (h.subset hp)

/-- **Each change keeps a collection well-formed.** -/
theorem Change.isWellFormed (h : Change s op s') (hs : s.IsWellFormed) : s'.IsWellFormed := by
  cases h with
  | @add clock name fields p hname hfilled hfresh hstored =>
      refine ⟨?_, fun q hq => ?_⟩
      · rw [ids, List.map_append, List.nodup_append]
        refine ⟨hs.nodup, List.nodup_singleton _, ?_⟩
        rintro id hid _ hid' rfl
        rw [List.mem_singleton.mp hid'] at hid
        exact hfresh hid
      · rcases List.mem_append.mp hq with hq | hq
        · exact hs.presentable q hq
        · obtain rfl := List.mem_singleton.mp hq
          refine ⟨hfilled, ?_, fun key hkey => ?_⟩
          · rw [hname, Text.trim, String.toList_ofList]
            exact Text.isTrimmed_trimChars _
          · obtain ⟨value, hvalue⟩ := Record.mem_keys_iff.mp hkey
            rw [hstored] at hvalue
            by_contra hother
            rw [if_neg hother] at hvalue
            exact absurd hvalue (by simp)
  | @delete id before after p hlist hid hbefore =>
      refine hs.sublist ?_
      rw [hlist]
      exact List.Sublist.append_left (List.sublist_cons_self p after) before
  | reload => exact hs

/-- An operation keeps presets well-formed, whether or not it succeeds. -/
theorem IsWellFormed.perform (hs : s.IsWellFormed) (op : Operation) :
    (s.perform op).IsWellFormed := by
  rw [Presets.perform]
  rcases hop : s.attempt op with ⟨f | ⟨⟨⟩⟩, s'⟩
  · exact eq_of_attempt_error hop ▸ hs
  · exact (change_of_attempt hop).isWellFormed hs

/-- So does every run of operations. -/
theorem IsWellFormed.performAll (hs : s.IsWellFormed) (ops : List Operation) :
    (s.performAll ops).IsWellFormed := by
  induction ops generalizing s with
  | nil => exact hs
  | cons op ops ih => exact ih (hs.perform op)

/-- In a well-formed collection the presets that are left by a deletion are all those with another
id, in order. -/
theorem IsWellFormed.list_of_delete (hs : s.IsWellFormed) (h : s.attempt (.delete id) = (.ok (), s')) :
    s'.list = s.list.filter (·.id ≠ id) := by
  have hchange := change_of_attempt h
  cases hchange with
  | @delete _ before after p hlist hid hbefore =>
      have hnodup := hs.nodup
      rw [ids, hlist, List.map_append, List.map_cons, List.nodup_append, List.nodup_cons] at hnodup
      obtain ⟨-, ⟨hnotMem, -⟩, -⟩ := hnodup
      have hkept : before.filter (·.id ≠ id) = before :=
        List.filter_eq_self.mpr fun q hq => by simpa using hbefore q hq
      have hkept' : after.filter (·.id ≠ id) = after := by
        refine List.filter_eq_self.mpr fun q hq => ?_
        have hne : q.id ≠ id := by
          intro heq
          rw [← hid] at heq
          exact hnotMem (heq ▸ List.mem_map_of_mem hq)
        simpa using hne
      rw [hlist, List.filter_append, List.filter_cons_of_neg (by simpa using hid), hkept, hkept']

/-- **What holds in every state that a run reaches** from the built-in presets of a date: the ids
differ, each name is trimmed and not blank, and nothing is stored but the fields of a preset, so no
contact person and no name of a KOL. An operation succeeds exactly if it is allowed, one that
succeeds makes its change, with every preset but the one of the id left by a deletion, and one that
fails makes none. -/
theorem performAll_isWellFormed (date : Date) (ops : List Operation) (s : Presets)
    (h : s = (builtIn date).performAll ops) :
    s.IsWellFormed ∧
      (∀ p ∈ s.list, p.data.get? Field.contactPerson.name = none ∧
        p.data.get? Field.kolName.name = none) ∧
      (∀ op, (∃ s', s.attempt op = (.ok (), s')) ↔ s.Allows op) ∧
      (∀ op s', s.attempt op = (.ok (), s') → s.perform op = s' ∧ Change s op s') ∧
      (∀ id s', s.attempt (.delete id) = (.ok (), s') →
        s'.list = s.list.filter (·.id ≠ id)) ∧
      ∀ op f s', s.attempt op = (.error f, s') → s.perform op = s' ∧ s' = s := by
  have hs : s.IsWellFormed := by
    rw [h]
    exact (isWellFormed_builtIn date).performAll ops
  refine ⟨hs, fun p hp => ?_, fun op => exists_attempt_eq_ok_iff,
    fun op s' hop => ⟨?_, change_of_attempt hop⟩, fun id s' hop => hs.list_of_delete hop,
    fun op f s' hop => ⟨?_, eq_of_attempt_error hop⟩⟩
  · have hpresentable := hs.presentable p hp
    exact ⟨hpresentable.get?_eq_none (by decide), hpresentable.get?_eq_none (by decide)⟩
  · rw [perform, hop]
  · rw [perform, hop]

/-- Two presets are added at one reading of the clock, of which the first brings the names of people
and a field that no deal has; a blank name and an unknown id change nothing. The presets that are
built in are deleted, and what is left is saved and loaded. -/
theorem performAll_isWellFormed_two :
    let fields : Record := .ofList [("kolName", "K"), ("fanOffer", " x "), ("contactPerson", "C"),
      ("remark", "r")]
    let ops : List Operation :=
      [.add 7 " 一 " fields, .add 7 "二" ∅, .add 7 "\u3000" fields, .delete "9", .delete "A",
        .delete "B", .delete "C", .delete "THRESHOLD_TEMPLATE", .delete "FAN_OFFER_COMBO"]
    let reload : Operation := .reload default "d/p.json" ⟨2027, 1, 1⟩
    let s : Presets := ⟨[⟨"7", "一", .ofList [("fanOffer", " x ")]⟩, ⟨"8", "二", ∅⟩]⟩
    s = (builtIn ⟨2026, 2, 3⟩).performAll (ops ++ [reload]) ∧ s.IsWellFormed ∧
      (∀ p ∈ s.list, p.data.get? Field.contactPerson.name = none ∧
        p.data.get? Field.kolName.name = none) ∧
      (∀ op, (∃ s', s.attempt op = (.ok (), s')) ↔ s.Allows op) ∧
      (∀ op s', s.attempt op = (.ok (), s') → s.perform op = s' ∧ Change s op s') ∧
      (∀ id s', s.attempt (.delete id) = (.ok (), s') →
        s'.list = s.list.filter (·.id ≠ id)) ∧
      ∀ op f s', s.attempt op = (.error f, s') → s.perform op = s' ∧ s' = s := by
  intro fields ops reload s
  have hops : ops.foldl perform (builtIn ⟨2026, 2, 3⟩) = s := by decide +kernel
  have hreload : s.attempt reload = (.ok (), s) :=
    attempt_reload_eq_ok_iff.mpr ⟨⟨_, World.runTask_of_isOk (by decide +kernel)⟩, rfl⟩
  have hs : s = (builtIn ⟨2026, 2, 3⟩).performAll (ops ++ [reload]) := by
    rw [performAll, List.foldl_append, hops, List.foldl_cons, List.foldl_nil, perform, hreload]
  exact ⟨hs, performAll_isWellFormed ⟨2026, 2, 3⟩ (ops ++ [reload]) s hs⟩

end Presets

end Outreach
