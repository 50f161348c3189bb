import Outreach.Proofs.Commands.Messages

/-!
# Failing on the Hand Controller

The choice for the hand controller is looked at in one place only, where terms are read from the
record of a message. Whatever else fails on the way to a message fails for another reason. So a
message that fails on the choice has a record with a choice that is neither of the two words.

## Main results

* `Task.Avoids.bind`: what is put together from tasks that avoid some failures avoids them.
* `MessageOptions.exists_of_unknownSendHandle`: **why a message fails on the hand controller.**
-/

namespace Outreach

/-- Whether a failure is that of a choice for the hand controller. -/
def Failure.isUnknownSendHandle : Failure → Bool
  | .unknownSendHandle _ => true
  | _ => false

/-- A result **avoids** some failures if it is none of them. -/
def Avoids {α : Type} (p : Failure → Bool) (x : Except Failure α) : Prop :=
  ∀ f, x = .error f → p f = false

variable {α β : Type} {p : Failure → Bool}

namespace Avoids

/-- A good outcome is no failure, so it is none of the failures to be avoided. -/
theorem ok (a : α) : Avoids p (.ok a : Except Failure α) :=
  fun _ h => absurd h (by simp)

/-- An outcome that fails avoids the failures in question if its own failure is none of them. -/
theorem error {f : Failure} (h : p f = false) : Avoids p (.error f : Except Failure α) := by
  rintro g hg
  obtain rfl := Except.error.inj hg
  exact h

/-- An outcome that avoids the failures, followed by outcomes that avoid them, avoids them. -/
theorem bind {x : Except Failure α} {g : α → Except Failure β} (hx : Avoids p x)
    (hg : ∀ a, Avoids p (g a)) : Avoids p (x >>= g) := by
  cases x with
  | error f => exact error (hx f rfl)
  | ok a => exact hg a

/-- A check before the rest. -/
theorem ifThrow {c : Prop} [Decidable c] {f : Failure} {rest : PUnit → Except Failure α}
    (hf : p f = false) (hrest : Avoids p (rest ⟨⟩)) :
    Avoids p (if c then throw f >>= rest else rest ⟨⟩) := by
  split
  · exact error hf
  · exact hrest

/-- Going through a list with outcomes that avoid the failures avoids them, by induction on the
list. -/
theorem mapM {g : α → Except Failure β} (hg : ∀ a, Avoids p (g a)) (l : List α) :
    Avoids p (l.mapM g) := by
  induction l with
  | nil => exact ok _
  | cons a l ih =>
      rw [List.mapM_cons]
      exact bind (hg a) fun b => bind ih fun bs => ok _

/-- Folding over a list with outcomes that avoid the failures avoids them, from every start. -/
theorem foldlM {g : β → α → Except Failure β} (hg : ∀ b a, Avoids p (g b a)) (b : β)
    (l : List α) : Avoids p (l.foldlM g b) := by
  induction l generalizing b with
  | nil => exact ok _
  | cons a l ih =>
      rw [List.foldlM_cons]
      exact bind (hg b a) ih

end Avoids

/-- A task **avoids** some failures if it fails with none of them in any world. -/
def Task.Avoids (p : Failure → Bool) (t : Task α) : Prop :=
  ∀ w : World, Outreach.Avoids p (w.runTask t).1

namespace Task.Avoids

/-- A task that gives a value at once does not fail. -/
theorem pure (a : α) : Avoids p (Pure.pure a : Task α) := fun _ => .ok a

/-- A task that fails at once avoids the failures in question if its own failure is none of them. -/
theorem throw {f : Failure} (h : p f = false) : Avoids p (MonadExcept.throw f : Task α) :=
  fun _ => .error h

/-- A program taken as a task cannot fail, so it avoids every failure. -/
theorem ofProgram (q : Program α) : Avoids p (Task.ofProgram q) := by
  intro w
  rw [World.runTask_ofProgram]
  exact .ok _

/-- A single request cannot fail as a task: what goes wrong is part of its answer. -/
theorem request (r : Request) : Avoids p (Task.request r) := ofProgram _

/-- A known outcome that avoids the failures avoids them as a task. -/
theorem ofExcept {x : Except Failure α} (h : Outreach.Avoids p x) :
    Avoids p (Task.ofExcept x) := by
  intro w
  rwa [runTask_ofExcept]

/-- Naming an error of the file system avoids the failures if no error is named as one of them. -/
theorem orFail {failure : FileError → Failure} (h : ∀ e, p (failure e) = false)
    (x : Except FileError α) : Avoids p (Task.orFail failure x) := by
  cases x with
  | error e => exact throw (h e)
  | ok a => exact pure a

/-- **What is put together from tasks that avoid some failures avoids them.** -/
theorem bind {t : Task α} {f : α → Task β} (ht : Avoids p t) (hf : ∀ a, Avoids p (f a)) :
    Avoids p (t >>= f) := by
  intro w
  have hw := ht w
  rw [World.runTask_bind]
  split
  · rename_i a v _
    exact hf a v
  · rename_i e v hrun
    rw [hrun] at hw
    exact .error (hw e rfl)

/-- A failure that the first of two tasks avoids comes from the second. -/
theorem exists_of_bind_eq_error {t : Task α} {f : α → Task β} {w : World} {failure : Failure}
    (ht : Avoids p t) (h : (w.runTask (t >>= f)).1 = .error failure) (hp : p failure = true) :
    ∃ a v, w.runTask t = (.ok a, v) ∧ (v.runTask (f a)).1 = .error failure := by
  have hw := ht w
  rw [World.runTask_bind] at h
  rcases hrun : w.runTask t with ⟨e | a, v⟩
  · rw [hrun] at h hw
    obtain rfl : e = failure := Except.error.inj h
    exact absurd ((hw e rfl).symm.trans hp) (by simp)
  · rw [hrun] at h
    exact ⟨a, v, rfl, h⟩

/-- A failure that the second of two tasks avoids comes from the first. -/
theorem eq_error_of_bind_eq_error {t : Task α} {f : α → Task β} {w : World} {failure : Failure}
    (hf : ∀ a, Avoids p (f a)) (h : (w.runTask (t >>= f)).1 = .error failure)
    (hp : p failure = true) : (w.runTask t).1 = .error failure := by
  rw [World.runTask_bind] at h
  rcases hrun : w.runTask t with ⟨e | a, v⟩
  · rw [hrun] at h
    exact congrArg Except.error (Except.error.inj h)
  · rw [hrun] at h
    exact absurd ((hf a v failure h).symm.trans hp) (by simp)

end Task.Avoids

/-! ### What fails for other reasons -/

open Failure (isUnknownSendHandle)

/-- Checking the settings does not fail over the choice of hand controller, which they do not
have. -/
theorem Settings.avoids_check (s : Settings) : Avoids isUnknownSendHandle s.check := by
  rw [check]
  refine .ifThrow rfl (.ifThrow rfl (.ifThrow rfl (.ifThrow rfl (.ifThrow rfl ?_))))
  split
  · exact .error rfl
  · exact .ok _

/-- Reading the settings from a text does not fail over the choice of hand controller. -/
theorem Settings.avoids_ofText (text : String) : Avoids isUnknownSendHandle (ofText text) := by
  have hchecked : ∀ settings : Settings, Avoids isUnknownSendHandle (do
      settings.check
      return settings) := fun settings => .bind settings.avoids_check fun _ => .ok settings
  rw [ofText]
  split
  · exact .bind (.ok _) hchecked
  · split
    · exact .error rfl
    · exact .bind (.ok _) hchecked

/-- Loading the settings does not fail over the choice of hand controller. -/
theorem Settings.avoids_loadOrDefault (path : String) :
    (loadOrDefault path).Avoids isUnknownSendHandle := by
  refine .bind (.request _) fun there => ?_
  split
  · refine .bind (.request _) fun text => ?_
    split
    · exact .throw rfl
    · exact .ofExcept (avoids_ofText _)
  · exact .pure _

/-- Loading a store does not fail over the choice of hand controller, whatever its content is
decoded to. -/
theorem StoreFile.avoids_load (decode : Json → Option α) (path : String) :
    (load decode path).Avoids isUnknownSendHandle := by
  refine .bind (.request _) fun text => ?_
  split
  · exact .pure _
  · exact .throw rfl
  · split
    · exact .throw rfl
    · split
      · exact .throw rfl
      · exact .pure _

/-- Reading a record from a text does not fail over the choice of hand controller: any text is
taken as a value. -/
theorem Record.avoids_ofText (text : String) : Avoids isUnknownSendHandle (ofText text) := by
  rw [ofText]
  split
  · exact .ok _
  · split
    · exact .error rfl
    · refine .bind (.mapM (fun name => ?_) _) fun entries => .ok _
      split
      · exact .ok _
      · exact .error rfl

/-- Assigning to fields does not fail over the choice of hand controller: any text is taken as a
value. -/
theorem Record.avoids_assignAll (r : Record) (texts : List String) :
    Avoids isUnknownSendHandle (r.assignAll texts) := by
  refine .foldlM (fun r text => .bind ?_ fun e => .ok _) r texts
  rw [readAssignment]
  split
  · exact .error rfl
  · dsimp only
    split
    · exact .error rfl
    · exact .ok _

/-- Reading a record from its file and assignments does not fail over the choice of hand
controller. -/
theorem RecordSource.avoids_read (s : RecordSource) : s.read.Avoids isUnknownSendHandle := by
  refine .bind ?_ fun r => .ofExcept (r.avoids_assignAll _)
  rw [readFile]
  split
  · exact .pure _
  · exact .bind (.bind (.request _) fun text => .orFail (fun _ => rfl) text) fun text =>
      .ofExcept (Record.avoids_ofText text)

/-- Putting the fields of a message together does not fail over the choice of hand controller. -/
theorem MessageOptions.avoids_fields (o : MessageOptions) (d : DataDirectory) (date : Date) :
    (o.fields d date).Avoids isUnknownSendHandle := by
  have hget : ∀ (presets : Presets) (id : String), Avoids isUnknownSendHandle (presets.get id) := by
    intro presets id
    rw [Presets.get]
    split
    · exact .ok _
    · exact .error rfl
  refine .bind ?_ fun preset => .bind o.source.avoids_read fun given => .pure _
  rw [presetData]
  split
  · exact .pure _
  · exact .bind (.bind (StoreFile.avoids_load _ _) fun _ => .pure _) fun presets =>
      .bind (.ofExcept (hget presets _)) fun _ => .pure _

/-- Asking for the required names does not fail over the choice of hand controller. -/
theorem Terms.avoids_checkRequired (t : Terms) : Avoids isUnknownSendHandle t.checkRequired := by
  rw [checkRequired]
  split
  · exact .error rfl
  · exact .ok _

/-- Choosing a template does not fail over the choice of hand controller. -/
theorem Templates.avoids_choose (s : Templates) (id : Option String) :
    Avoids isUnknownSendHandle (s.choose id) := by
  cases id with
  | some id =>
      rw [choose, get]
      split
      · exact .ok _
      · exact .error rfl
  | none =>
      rw [choose]
      split
      · exact .ok _
      · exact .error rfl

/-- Polishing an offer does not fail over the choice of hand controller. -/
theorem Polish.avoids_polish (s : Polish.Settings) (offer : String) :
    (polish s offer).Avoids isUnknownSendHandle := by
  refine .bind (.ofExcept ?_) fun _ => .ofProgram _
  rw [checkOffer]
  split
  · exact .error rfl
  · exact .ok _

/-- **Why a message fails on the hand controller**: its record has this choice, which is neither of
the two words. -/
theorem MessageOptions.exists_of_unknownSendHandle {o : MessageOptions} {d : DataDirectory}
    {w : World} {text : String}
    (h : (w.runTask (runGenerate d o)).1 = .error (.unknownSendHandle text)) :
    ∃ fields, w.runTask (o.fields d w.date) = (.ok fields, w) ∧
      fields.get? Field.sendHandle.name = some text ∧ SendHandle.ofText? text = none := by
  have hmessage := Task.Avoids.eq_error_of_bind_eq_error (p := isUnknownSendHandle)
    (fun _ => .pure _) h rfl
  obtain ⟨settings, u, hsettings, h⟩ :=
    (Settings.avoids_loadOrDefault _).exists_of_bind_eq_error hmessage rfl
  obtain rfl : w = u :=
    (Settings.observes_loadOrDefault _ w).symm.trans (congrArg Prod.snd hsettings)
  have hfields := Task.Avoids.eq_error_of_bind_eq_error (p := isUnknownSendHandle)
    (fun _ => .bind (.bind (StoreFile.avoids_load _ _) fun _ => .pure _) fun templates =>
      .bind (.ofExcept (templates.avoids_choose _)) fun _ => .pure _) h rfl
  have hafter : ∀ (fields : Record) (terms : Terms),
      (Task.ofExcept terms.checkRequired >>= fun _ =>
        if o.polish then do
          return fields.set Field.fanOffer.name (← Polish.polish settings.polish terms.fanOffer)
        else return fields : Task Record).Avoids isUnknownSendHandle := by
    intro fields terms
    refine .bind (.ofExcept terms.avoids_checkRequired) fun _ => ?_
    split
    · exact .bind (Polish.avoids_polish _ _) fun _ => .pure _
    · exact .pure _
  obtain ⟨date, u, hdate, h⟩ := Task.Avoids.exists_of_bind_eq_error (p := isUnknownSendHandle)
    (.bind (.request _) fun _ => .pure _) hfields rfl
  obtain ⟨hdate', rfl⟩ := Prod.mk.inj hdate
  obtain rfl := Except.ok.inj hdate'
  obtain ⟨fields, u, hread, h⟩ := (o.avoids_fields d _).exists_of_bind_eq_error h rfl
  obtain rfl : w = u := (o.observes_fields d _ w).symm.trans (congrArg Prod.snd hread)
  have hterms := Task.Avoids.eq_error_of_bind_eq_error (hafter fields) h rfl
  rw [runTask_ofExcept] at hterms
  obtain ⟨word, hword, hunknown, heq⟩ := Terms.ofRecord_eq_error_iff.mp hterms
  obtain rfl := Failure.unknownSendHandle.inj heq
  exact ⟨fields, hread, hword, hunknown⟩

end Outreach
