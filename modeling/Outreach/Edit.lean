import Outreach.Failure

/-!
# Edits of Collections

Presets and templates are edited in place: an edit makes its checks and its changes one after the
other, and what it has changed stays changed even if a later check fails. So an edit always leaves a
collection, beside its value or its failure; that one that fails leaves what it has found depends on
the order of its steps.

## Main results

* `Edit.of_modify_bind`, `Edit.of_throw_bind`: what a change and a failed check leave.
* `Outcome.kept_eq_ok_iff`: what is kept after an edit.
* `Outcome.map_getD_eq_ok_iff`, `Outcome.eq_of_map_getD_error`: what a load leaves, made or failed.
-/

namespace Outreach

/-- The **outcome** of an edit: a value or a failure, and the collection that is left in either
case. -/
abbrev Outcome (σ α : Type) := Except Failure α × σ

/-- An **edit** of a collection. -/
abbrev Edit (σ α : Type) := ExceptT Failure (StateM σ) α

/-- Make an edit of a collection. -/
def Edit.of {σ α : Type} (s : σ) (edit : Edit σ α) : Outcome σ α :=
  StateT.run (ExceptT.run edit) s

/-! ### Steps of edits -/

namespace Edit

variable {σ α β : Type} {s : σ}

/-- An edit that only gives a value leaves the state as it is. -/
theorem of_pure (a : α) : of s (pure a) = (.ok a, s) := rfl

/-- Looking at the collection changes nothing. -/
theorem of_get_bind (g : σ → Edit σ α) : of s (getThe σ >>= g) = of s (g s) := rfl

/-- After a change the edit goes on with the changed collection. -/
theorem of_modify_bind (h : σ → σ) (g : PUnit → Edit σ α) :
    of s (modify h >>= g) = of (h s) (g ⟨⟩) := rfl

/-- A check that fails leaves the collection as it is by then. -/
theorem of_throw_bind (f : Failure) (g : β → Edit σ α) :
    of s (throw f >>= g) = (.error f, s) := rfl

end Edit

/-! ### Outcomes -/

namespace Outcome

variable {σ α : Type} {o : Outcome σ α} {s : σ} {a : α} {f : Failure}

/-- What goes on after an edit: its value and the collection, if it has not failed. -/
def toExcept (o : Outcome σ α) : Except Failure (α × σ) :=
  o.1.map fun a => (a, o.2)

/-- What is **kept** after an edit: the collection, if it has not failed. -/
def kept (o : Outcome σ α) : Except Failure σ :=
  o.1.map fun _ => o.2

/-- An outcome without its value. -/
def withoutValue (o : Outcome σ α) : Outcome σ Unit :=
  (o.1.map fun _ => (), o.2)

/-- It goes on with the value and the collection of an edit that has not failed. -/
theorem toExcept_eq_ok_iff : o.toExcept = .ok (a, s) ↔ o = (.ok a, s) := by
  obtain ⟨f | b, s'⟩ := o
  · simp [toExcept, Except.map]
  · simp [toExcept, Except.map]

/-- The collection that is left by an edit is kept if the edit has not failed. -/
theorem kept_eq_ok_iff : o.kept = .ok s ↔ ∃ a, o = (.ok a, s) := by
  obtain ⟨f | b, s'⟩ := o
  · simp [kept, Except.map]
  · simp [kept, Except.map]

/-- Nothing is kept of an edit that has failed. -/
theorem kept_eq_error_iff : o.kept = .error f ↔ o.1 = .error f := by
  obtain ⟨f' | b, s'⟩ := o
  · simp [kept, Except.map]
  · simp [kept, Except.map]

/-- An edit succeeds, whatever its value. -/
theorem withoutValue_eq_ok_iff : o.withoutValue = (.ok (), s) ↔ ∃ a, o = (.ok a, s) := by
  obtain ⟨f | b, s'⟩ := o
  · simp [withoutValue, Except.map]
  · simp [withoutValue, Except.map]

/-- An edit fails, and leaves the same, without its value. -/
theorem withoutValue_eq_error_iff : o.withoutValue = (.error f, s) ↔ o = (.error f, s) := by
  obtain ⟨f' | b, s'⟩ := o
  · simp [withoutValue, Except.map]
  · simp [withoutValue, Except.map]

/-- A collection that is taken from a load succeeds with what is loaded. -/
theorem map_getD_eq_ok_iff {loaded : Except Failure σ} {s' : σ} :
    ((loaded.map fun _ => (), loaded.toOption.getD s) : Outcome σ Unit) = (.ok (), s') ↔
      loaded = .ok s' := by
  cases loaded with
  | error f => simp [Except.map]
  | ok t => simp [Except.map, Except.toOption]

/-- A load that fails leaves the collection that was there. -/
theorem eq_of_map_getD_error {loaded : Except Failure σ} {s' : σ}
    (h : ((loaded.map fun _ => (), loaded.toOption.getD s) : Outcome σ Unit) = (.error f, s')) :
    s' = s := by
  cases loaded with
  | error g => exact (Prod.mk.inj h).2.symm
  | ok t => simp [Except.map] at h

end Outcome

end Outreach
