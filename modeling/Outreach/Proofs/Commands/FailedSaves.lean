import Outreach.Proofs.Commands.TemplateProcesses

/-!
# Saves That Fail

A save that fails can be told from all other failures by the words it uses. Templates that were
loaded before are loaded after it, or their path can no longer be followed: on the way there, some
directories may have been made and others not.

This needs a data directory whose path is steady. If the path leads up from a directory that is
missing, making this directory may lead it to templates that were out of reach. And if the disk
fails, the template file must not be the file that has the temporary name.

## Main results

* `Templates.load_of_save_failed`: **what is loaded after a save that has failed.**
-/

namespace Outreach

section Saving

variable {w v : World} {d : DataDirectory} {f : Failure}

/-! ### What is loaded after it -/

/-- A data directory is **steady** if its path is: it leads up, by `..`, only through directories that
are there. -/
def DataDirectory.IsSteady (d : DataDirectory) (w : World) : Prop :=
  w.files.IsSteady w.workingDirectory d.path

/-- The name of each store can be the name of an entry: it has no slash and no meaning of its own.
-/
theorem Store.name_proper (s : Store) :
    '/' ∉ s.name.toList ∧ s.name ≠ "" ∧ s.name ≠ "." ∧ s.name ≠ ".." := by
  cases s <;> decide

/-- What the path of a store leads to after a save that has failed, it led to before. -/
theorem locate_of_save_failed {s : Store} {json : Json} {l : Location} (hsteady : d.IsSteady w)
    (h : w.runTask (StoreFile.save json (s.path d)) = (.error f, v))
    (hl : v.files.locate v.workingDirectory (s.path d) = .ok l) (hget : v.files.get? l ≠ none) :
    w.files.locate w.workingDirectory (s.path d) = .ok l := by
  obtain ⟨hslash, hne, hdot, hup⟩ := s.name_proper
  rw [StoreFile.save_eq] at h
  have hend := WriteStage.holds_at_end
    (WriteStage.Reached.first w (s.path d) (StoreFile.bytes json)) .step
  have hkept := (parentsMade_writeAtomically w (s.path d) (StoreFile.bytes json)).kept
  have hhere := w.workingDirectory_run (writeAtomically (s.path d) (StoreFile.bytes json)).run
  rw [← World.runTask] at hhere
  rw [h] at hend hkept hhere
  have htemporary : ¬ TemporaryAt v (s.path d) l :=
    not_temporaryAt_of_locate hl (FileTree.endsInName_join hslash hne hdot hup)
  rcases hend.get?_of_failed htemporary with hsame | ⟨hnone, p, hp, hlocated⟩
  · rw [hhere] at hl
    exact hsteady.locate_join hkept hslash hne hup hdot hl (hsame ▸ hget)
  · rw [hhere] at hl hlocated
    obtain ⟨hnames, habsolute⟩ := Path.prefix_of_mem_writtenParents hslash hne hdot hup hp
    exact absurd hlocated
      (hsteady.locate_ne hkept hslash hne hup hdot hl hnone hnames habsolute)

/-- A save that has failed leaves the file that its path leads to, unless the disk fails and this
file also has the temporary name. -/
theorem textAt_of_save_failed_of_locate {s : Store} {json : Json} {l : Location}
    (hunlinked : w.IsFaultless ∨ ¬ w.SharesTemporary (s.path d))
    (hcheck : (w.runTask (s.check d)).1 = .ok ())
    (hl : w.files.locate w.workingDirectory (s.path d) = .ok l)
    (h : w.runTask (StoreFile.save json (s.path d)) = (.error f, v)) :
    v.textAt (s.path d) = w.textAt (s.path d) := by
  rcases hunlinked with hfaultless | hunlinked
  · rw [eq_of_save_failed hfaultless hcheck hl h]
  · obtain ⟨hslash, hne, hdot, hup⟩ := s.name_proper
    rw [StoreFile.save_eq] at h
    have hsame := WriteStage.sameDirectories_runTask
      (World.hasParent_of_locate hl (FileTree.endsInName_join hslash hne hdot hup))
      (StoreFile.bytes json)
    rw [h] at hsame
    have hformer : ¬ FormerTemporary w v (s.path d) l := by
      rintro ⟨m, hm, hshares⟩
      exact hunlinked ⟨l, m, hl, hsame.temporaryAt_iff.mp hm, hshares⟩
    rw [World.textAt, World.textAt, hsame.here]
    exact hsame.directories.readText_eq hl (fileAt?_of_writeAtomically_failed h hformer)

/-- After a save that has failed, the file is read as before, or there was no file to be read before,
and there is none now. -/
theorem textAt_of_save_failed {s : Store} {json : Json} (hsteady : d.IsSteady w)
    (hunlinked : w.IsFaultless ∨ ¬ w.SharesTemporary (s.path d))
    (hcheck : (w.runTask (s.check d)).1 = .ok ())
    (h : w.runTask (StoreFile.save json (s.path d)) = (.error f, v)) :
    v.textAt (s.path d) = w.textAt (s.path d) ∨
      (∃ e, w.textAt (s.path d) = .error e) ∧ ∃ e, v.textAt (s.path d) = .error e := by
  rcases hl : w.files.locate w.workingDirectory (s.path d) with e | l
  · refine .inr ⟨⟨e, ?_⟩, ?_⟩ <;> rw [World.textAt, FileTree.readText, FileTree.read, FileTree.find]
    · rw [hl]
    · rcases hl' : v.files.locate v.workingDirectory (s.path d) with e' | l'
      · exact ⟨e', rfl⟩
      · rcases hget : v.files.get? l' with - | entry
        · exact ⟨.notFound, by simp only [hget]⟩
        · have hl'' := locate_of_save_failed hsteady h hl' (by simp [hget])
          exact absurd (hl.symm.trans hl'') (by simp)
  · exact .inl (textAt_of_save_failed_of_locate hunlinked hcheck hl h)

/-- If the file cannot be read, the built-in templates are loaded if there is none, and loading
fails otherwise. -/
theorem Templates.load_of_error {e : FileError} (h : w.textAt d.templatesPath = .error e) :
    (w.runTask d.loadTemplates).1 =
      if e = .notFound then .ok .builtIn else .error (.storeUnreadable d.templatesPath e) := by
  rw [DataDirectory.loadTemplates, load, World.runTask_bind]
  by_cases he : e = .notFound
  · subst he
    rw [StoreFile.load_of_missing _ h, if_pos rfl]
    rfl
  · rw [StoreFile.load_of_unreadable _ h he, if_neg he]

/-- **What is loaded after a save that has failed** is what was loaded before, or the file cannot be
reached any more. -/
theorem Templates.load_of_save_failed {s s' : Templates} (hsteady : d.IsSteady w)
    (hunlinked : w.IsFaultless ∨ ¬ w.SharesTemporary d.templatesPath)
    (hload : (w.runTask d.loadTemplates).1 = .ok s)
    (h : w.runTask (s'.save d.templatesPath) = (.error f, v)) :
    (v.runTask d.loadTemplates).1 = .ok s ∨
      ∃ e, (v.runTask d.loadTemplates).1 = .error (.storeUnreadable d.templatesPath e) := by
  have hrun : w.runTask d.loadTemplates = (.ok s, w) := Prod.ext hload (observes_load _ w)
  have hcheck : (w.runTask (Store.templates.check d)).1 = .ok () := by
    rw [Store.check, World.runTask_bind, hrun]
    rfl
  have hunlinked' : w.IsFaultless ∨ ¬ w.SharesTemporary (Store.templates.path d) := hunlinked
  have hsave : w.runTask (StoreFile.save s'.toJson (Store.templates.path d)) = (.error f, v) := h
  rcases textAt_of_save_failed hsteady hunlinked' hcheck hsave with hsame | ⟨⟨e, he⟩, e', he'⟩
  · have hread : v.textAt d.templatesPath = w.textAt d.templatesPath := hsame
    exact .inl ((load_congr hread).trans hload)
  · rw [load_of_error he] at hload
    rw [load_of_error he']
    split at hload
    · obtain rfl := Except.ok.inj hload
      split
      · exact .inl rfl
      · exact .inr ⟨e', rfl⟩
    · exact absurd hload (by simp)

end Saving

end Outreach
