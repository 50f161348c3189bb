import Outreach.Json

/-!
# Paths into JSON Values

A *path* goes from a value through members of objects and items of arrays to a part of it. A reader
that goes on from null where a step does not apply finds the part all the same, unless the part is
null itself: from null no step leads anywhere.

## Main results

* `get_eq_iff`, `item_eq_iff`: where one step leads.
* `follow_eq_iff`: **following a path comes to the part that it leads to.**
-/

namespace Outreach.Json

/-- A **step** into a value: to the member of an object under a name, or to the item at a place of an
array. -/
inductive Step where
  | member (name : String)
  | item (place : Nat)
  deriving DecidableEq, Repr

/-- A **path leads** from a value to a part of it. Of the members under one name the last one
counts. -/
inductive LeadsTo : Json → List Step → Json → Prop
  | here {value : Json} : LeadsTo value [] value
  | member {before after : List (Option String × Json)} {name : String} {value part : Json}
      {path : List Step} (last : ∀ m ∈ after, m.1 ≠ some name) (onward : LeadsTo value path part) :
      LeadsTo (.object (before ++ (some name, value) :: after)) (.member name :: path) part
  | item {items : List Json} {place : Nat} {value part : Json} {path : List Step}
      (there : items[place]? = some value) (onward : LeadsTo value path part) :
      LeadsTo (.array items) (.item place :: path) part

/-- What one step leads to; null in place of what is not there. -/
def step (json : Json) : Step → Json
  | .member name => json.get name
  | .item place => json.item place

/-- What a path leads to; null in place of what is not there. -/
def follow (json : Json) (path : List Step) : Json :=
  path.foldl step json

variable {json value part : Json} {name : String} {place : Nat} {path : List Step}

/-! ### One step -/

/-- What is found under a name is the last member of that name. -/
theorem get_eq_iff (hvalue : value ≠ null) :
    json.get name = value ↔
      ∃ before after, json = .object (before ++ (some name, value) :: after) ∧
        ∀ m ∈ after, m.1 ≠ some name := by
  constructor
  · intro h
    cases json with
    | object members =>
        rw [get] at h
        rcases hfind : members.reverse.find? (·.1 == some name) with _ | ⟨key, found⟩
        · rw [hfind] at h
          exact absurd h.symm hvalue
        · rw [hfind] at h
          obtain rfl : found = value := h
          obtain ⟨hkey, after, before, hmembers, hafter⟩ :=
            List.find?_eq_some_iff_append.mp hfind
          obtain rfl : key = some name := by simpa using hkey
          refine ⟨before.reverse, after.reverse, ?_, fun m hm => ?_⟩
          · rw [← List.reverse_reverse members, hmembers]
            simp
          · simpa using hafter m (List.mem_reverse.mp hm)
    | _ => exact absurd h.symm hvalue
  · rintro ⟨before, after, rfl, hafter⟩
    have hnone : after.reverse.find? (·.1 == some name) = none :=
      List.find?_eq_none.mpr fun m hm => by simpa using hafter m (List.mem_reverse.mp hm)
    rw [get, List.reverse_append, List.reverse_cons, List.find?_append, List.find?_append, hnone]
    simp

/-- An item other than null is found at a place exactly if an array has it there. -/
theorem item_eq_iff (hvalue : value ≠ null) :
    json.item place = value ↔ ∃ items, json = .array items ∧ items[place]? = some value := by
  constructor
  · intro h
    cases json with
    | array items =>
        rw [item] at h
        rcases hitem : items[place]? with _ | found
        · rw [hitem] at h
          exact absurd h.symm hvalue
        · rw [hitem] at h
          obtain rfl : found = value := h
          exact ⟨items, rfl, hitem⟩
    | _ => exact absurd h.symm hvalue
  · rintro ⟨items, rfl, hitem⟩
    rw [item, hitem]
    rfl

/-! ### Whole paths -/

/-- From null no path leads to anything else. -/
theorem eq_null_of_leadsTo (h : LeadsTo null path part) : part = null := by
  cases h
  rfl

/-- **Following a path comes to the part that it leads to**, unless this is null. -/
theorem follow_eq_iff (hpart : part ≠ null) : json.follow path = part ↔ json.LeadsTo path part := by
  induction path generalizing json with
  | nil =>
      constructor
      · rintro rfl
        exact .here
      · rintro ⟨⟩
        rfl
  | cons s path ih =>
      rw [follow, List.foldl_cons, ← follow, ih]
      constructor
      · intro h
        have hvalue : json.step s ≠ null := by
          intro hnull
          rw [hnull] at h
          exact hpart (eq_null_of_leadsTo h)
        cases s with
        | member name =>
            obtain ⟨before, after, hjson, hlast⟩ := (get_eq_iff hvalue).mp rfl
            rw [hjson]
            exact .member hlast h
        | item place =>
            obtain ⟨items, hjson, hitem⟩ := (item_eq_iff hvalue).mp rfl
            rw [hjson]
            exact .item hitem h
      · intro h
        cases h with
        | @member before after name value _ _ hlast h =>
            have hvalue : value ≠ null := by
              rintro rfl
              exact hpart (eq_null_of_leadsTo h)
            rwa [step, (get_eq_iff hvalue).mpr ⟨before, after, rfl, hlast⟩]
        | @item items place value _ _ hitem h =>
            rw [step, item, hitem]
            exact h

end Outreach.Json
