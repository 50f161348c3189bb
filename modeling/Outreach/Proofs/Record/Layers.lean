import Mathlib.Data.List.Sort
import Outreach.Record

/-!
# Records as Layers

What a record holds is what it gives for each name. Entries that are written one after the other
form a layer over what was there: where the layer has a text it is read, and elsewhere what was
there.

## Main results

* `Record.get?_setAll`: of several entries with one name the last is read.
* `Record.get?_merge`: reading after one record has been laid over another.
* `Record.get?_mapValues`: reading after the texts have been changed.
* `Record.ext_get?`: records that give the same for each name are the same.
-/

namespace Outreach.Record

/-- Of several entries with one name the last is read, and without one what was there before. -/
theorem get?_setAll (r : Record) (entries : List (String × String)) (key : String) :
    (r.setAll entries).get? key = (entries.reverse.lookup key).or (r.get? key) := by
  induction entries generalizing r with
  | nil => rfl
  | cons e rest ih =>
      have hstep : r.setAll (e :: rest) = (r.set e.1 e.2).setAll rest := rfl
      have hlast : [e].lookup key = if key = e.1 then some e.2 else none :=
        lookup_cons_eq_ite key e.1 e.2 []
      rw [hstep, ih, get?_set, List.reverse_cons, List.lookup_append, hlast]
      by_cases hkey : key = e.1
      · rw [if_pos hkey, if_pos hkey, Option.or_assoc]
        rfl
      · rw [if_neg hkey, if_neg hkey, Option.or_none]

/-- A record made of entries has the last value that is given for each name. -/
theorem get?_ofList (entries : List (String × String)) (key : String) :
    (ofList entries).get? key = entries.reverse.lookup key :=
  (get?_setAll empty entries key).trans (Option.or_none ..)

/-- **Reading after one record has been laid over another**: what the upper one has is read, and
where it has nothing, what the lower one has. -/
@[simp] theorem get?_merge (r other : Record) (key : String) :
    (r.merge other).get? key = (other.get? key).or (r.get? key) := by
  have hother : other.get? key = other.entries.reverse.lookup key := by
    rw [← get?_ofList, ofList_entries]
  rw [merge, get?_setAll, hother]

/-- Reading after the texts have been changed. -/
@[simp] theorem get?_mapValues (f : String → String → String) (r : Record) (key : String) :
    (r.mapValues f).get? key = (r.get? key).map (f key) := by
  simp only [get?, mapValues]
  induction r.entries with
  | nil => rfl
  | cons e entries ih =>
      rw [List.map_cons, lookup_cons_eq_ite, lookup_cons_eq_ite, ih]
      split
      · rename_i hkey
        rw [hkey]
        rfl
      · rfl

/-- An entry is read under its name: no other one has it. -/
theorem mem_entries_iff {r : Record} {key value : String} :
    (key, value) ∈ r.entries ↔ r.get? key = some value := by
  rw [get?, List.lookup_eq_some_iff]
  constructor
  · intro hmem
    obtain ⟨before, after, hentries⟩ := List.append_of_mem hmem
    refine ⟨before, after, hentries, fun e he => ?_⟩
    have hlt : e.1 < key := by
      have hsorted := r.sorted
      rw [hentries] at hsorted
      exact (List.pairwise_append.mp hsorted).2.2 e he _ List.mem_cons_self
    simpa using (String.ne_of_lt hlt).symm
  · rintro ⟨before, after, hentries, -⟩
    rw [hentries]
    exact List.mem_append_right _ List.mem_cons_self

/-- **Records that give the same for each name are the same.** -/
theorem ext_get? {r s : Record} (h : ∀ key, r.get? key = s.get? key) : r = s := by
  have hentries : r.entries = s.entries := by
    have : Std.Irrefl (fun a b : String × String => a.1 < b.1) := ⟨fun a => String.lt_irrefl a.1⟩
    have : Std.Antisymm (fun a b : String × String => a.1 < b.1) :=
      ⟨fun a b hab hba => absurd hba (String.lt_asymm hab)⟩
    refine r.sorted.eq_of_mem_iff s.sorted fun ⟨key, value⟩ => ?_
    rw [mem_entries_iff, mem_entries_iff, h]
  obtain ⟨entries, sorted⟩ := r
  exact (Record.mk.injEq ..).mpr hentries

/-- A name is listed exactly if there is a text under it. -/
theorem mem_keys_iff {r : Record} {key : String} :
    key ∈ r.keys ↔ ∃ value, r.get? key = some value := by
  rw [← contains_iff_mem_keys, contains, Option.isSome_iff_exists]

/-- A record has no value for a name exactly if the name is not among its names. -/
theorem get?_eq_none_iff {r : Record} {key : String} : r.get? key = none ↔ key ∉ r.keys := by
  rw [mem_keys_iff, ← Option.isSome_iff_exists, Bool.not_eq_true, Option.isSome_eq_false_iff,
    Option.isNone_iff_eq_none]

end Outreach.Record
