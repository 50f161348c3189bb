import Outreach.Proofs.Files.Race

/-!
# What Two Writers Leave

Two atomic writes of one path use the same temporary name and nothing keeps them apart. If one opens
the temporary file while the other has it open, both write to one file, and what is put in the place
of the target can be empty or have bytes of both. If they keep apart, each finds the file as it
wrote it.

## Main results

* `race_tears`: two writers can leave bytes of both at the target.
* `race_target`: **what two writers can leave at the target**, and that it is whole if they keep
  apart.
-/

namespace Outreach

/-! ### Mixtures -/

/-- What a file can hold that only the two writers have written: nothing, the bytes of one of them,
or those of one written over those of the other. -/
inductive Mixture (contents : Writer → ByteArray) (written : Writer → Prop) : ByteArray → Prop
  | empty : Mixture contents written .empty
  | whole {i : Writer} (hi : written i) : Mixture contents written (contents i)
  | overlaid {i : Writer} (h : ∀ j, written j) :
      Mixture contents written (overwrite (contents i.other) 0 (contents i))

namespace Mixture

variable {pieces pieces' : Writer → ByteArray} {written written' : Writer → Prop}
  {bytes part : ByteArray}

/-- A mixture stays one if what has been written stays. -/
theorem mono (h : Mixture pieces written bytes) (hsame : ∀ i, written i → pieces' i = pieces i)
    (hsub : ∀ i, written i → written' i) : Mixture pieces' written' bytes := by
  cases h with
  | empty => exact .empty
  | whole hi =>
      rw [← hsame _ hi]
      exact .whole (hsub _ hi)
  | overlaid hall =>
      rw [← hsame _ (hall _), ← hsame _ (hall _)]
      exact .overlaid fun j => hsub j (hall j)

/-- What a writer that has not written yet makes of a mixture. -/
theorem write {i : Writer} (h : Mixture pieces written bytes) (hi : ¬ written i)
    (hsub : ∀ j, written j → written' j) (hi' : written' i) :
    Mixture (assign pieces i part) written' (overwrite bytes 0 part) := by
  cases h with
  | empty =>
      have hmix : Mixture (assign pieces i part) written' (assign pieces i part i) := .whole hi'
      rw [assign_self] at hmix
      rwa [overwrite_empty]
  | @whole j hj =>
      -- only the other writer has written
      obtain rfl : j = i.other := Writer.eq_other_of_ne fun he => hi (he ▸ hj)
      have hmix : Mixture (assign pieces i part) written'
          (overwrite (assign pieces i part i.other) 0 (assign pieces i part i)) := by
        refine .overlaid fun k => ?_
        by_cases hk : k = i
        · exact hk ▸ hi'
        · exact Writer.eq_other_of_ne hk ▸ hsub _ hj
      rwa [assign_self, assign_other] at hmix
  | overlaid hall => exact absurd (hall i) hi

end Mixture

/-! ### Any schedule -/

/-- The writers that have written, at the stages where they are. -/
def Written (stages : Writer → WriteStage) (i : Writer) : Prop :=
  (stages i).hasWritten = true

/-- What each writer has written, or is about to write: its bytes, or a beginning of them if the disk
fails. -/
structure ArePieces (w : World) (contents pieces : Writer → ByteArray) : Prop where
  begins (i : Writer) : IsBeginning (pieces i) (contents i)
  whole (hfaultless : w.IsFaultless) : pieces = contents

/-- The whole contents of both writers are pieces of them. -/
theorem ArePieces.all (w : World) (contents : Writer → ByteArray) :
    ArePieces w contents contents :=
  ⟨fun i => .all (contents i), fun _ => rfl⟩

/-- A writer has written a piece of its own. -/
theorem ArePieces.assign {w : World} {contents pieces : Writer → ByteArray} {i : Writer}
    {part : ByteArray} (h : ArePieces w contents pieces) (hpart : IsBeginning part (contents i))
    (hwhole : w.IsFaultless → part = contents i) :
    ArePieces w contents (assign pieces i part) where
  begins j := by
    rcases assign_cases pieces i part j with ⟨rfl, hj⟩ | ⟨-, hj⟩ <;> rw [hj]
    · exact hpart
    · exact h.begins j
  whole hfaultless := by
    funext j
    rcases assign_cases pieces i part j with ⟨rfl, hj⟩ | ⟨-, hj⟩ <;> rw [hj]
    · exact hwhole hfaultless
    · exact congrFun (h.whole hfaultless) j

/-- **Any two writers** leave at the target what it held, or a mixture of the pieces that they have
written. What they have open and what has the temporary name once one of them is at work on it are
mixtures. -/
structure Mixing (w : World) (path : String) (contents pieces : Writer → ByteArray)
    (target : Location) (stages : Writer → WriteStage) (v : World) :
    Prop extends OnCourse w path stages v where
  arePieces : ArePieces w contents pieces
  faultless (h : w.IsFaultless) : v.IsFaultless
  opened (i : Writer) (temporary : String) (handle : Nat)
      (hi : stages i = .writing temporary handle) :
    ∃ id, v.handles[handle]? = some (id, 0) ∧
      Mixture pieces (Written stages) (v.files.content id)
  handles (i : Writer) (temporary temporary' : String) (handle handle' : Nat)
      (hi : stages i = .writing temporary handle)
      (hi' : stages i.other = .writing temporary' handle') : handle ≠ handle'
  temporary (i : Writer) (hi : (stages i).isMidway = true) (l : Location)
      (hl : TemporaryAt w path l) (id : FileId) (hid : v.files.get? l = some (.file id)) :
    Mixture pieces (Written stages) (v.files.content id)
  held : v.files.fileAt? target = w.files.fileAt? target ∨
    ∃ bytes, v.files.fileAt? target = some bytes ∧ Mixture pieces (Written stages) bytes

namespace Mixing

variable {w v v' : World} {path : String} {contents pieces : Writer → ByteArray}
  {target : Location} {stages : Writer → WriteStage} {i : Writer} {s s' : WriteStage}

/-- A writer that has written has still done so after one of the two has taken a step. -/
theorem written_mono (hwritten : (stages i).hasWritten = true → s'.hasWritten = true) (j : Writer)
    (hj : Written stages j) : Written (assign stages i s') j := by
  rw [Written] at hj ⊢
  rcases assign_cases stages i s' j with ⟨rfl, hstage⟩ | ⟨-, hstage⟩ <;> rw [hstage]
  · exact hwritten hj
  · exact hj

/-- A writer that leaves files and handles alone goes on to a stage at which it is no more at work
than before. -/
theorem put (h : Mixing w path contents pieces target stages v)
    (hcourse : OnCourse w path (assign stages i s') v') (hfiles : v'.files = v.files)
    (hhandles : v'.handles = v.handles) (hfaultless : v.IsFaultless → v'.IsFaultless)
    (hwritten : (stages i).hasWritten = true → s'.hasWritten = true)
    (hmidway : s'.isMidway = true → (stages i).isMidway = true)
    (hwriting : ∀ temporary handle, s' ≠ .writing temporary handle) :
    Mixing w path contents pieces target (assign stages i s') v' := by
  have hmono : ∀ {bytes}, Mixture pieces (Written stages) bytes →
      Mixture pieces (Written (assign stages i s')) bytes :=
    fun hmix => hmix.mono (fun _ _ => rfl) (written_mono hwritten)
  have hold : ∀ j temporary handle, assign stages i s' j = .writing temporary handle →
      stages j = .writing temporary handle := by
    intro j temporary handle hj
    rcases assign_cases stages i s' j with ⟨-, hstage⟩ | ⟨-, hstage⟩ <;> rw [hstage] at hj
    · exact absurd hj (hwriting temporary handle)
    · exact hj
  refine ⟨hcourse, h.arePieces, fun hw => hfaultless (h.faultless hw), fun j t m hj => ?_,
    fun j t t' m m' hj hj' => ?_, fun j hj l hl id hid => ?_, ?_⟩
  · obtain ⟨id, hid, hmix⟩ := h.opened j t m (hold j t m hj)
    rw [hfiles, hhandles]
    exact ⟨id, hid, hmono hmix⟩
  · exact h.handles j t t' m m' (hold j t m hj) (hold j.other t' m' hj')
  · rw [hfiles] at hid ⊢
    refine hmono (h.temporary j ?_ l hl id hid)
    rcases assign_cases stages i s' j with ⟨rfl, hstage⟩ | ⟨-, hstage⟩ <;> rw [hstage] at hj
    · exact hmidway hj
    · exact hj
  · rw [hfiles]
    exact h.held.imp_right fun ⟨bytes, hbytes, hmix⟩ => ⟨bytes, hbytes, hmono hmix⟩

/-- A writer opens the temporary file. It is empty then, wherever it stands. -/
theorem afterOpening {temporary : String} {t : FileTree} {l : Location} {id : FileId}
    (h : Mixing w path contents pieces target stages v) (hs : stages i = .opening temporary)
    (hl : TemporaryAt w path l) (hne : target ≠ l) (hopened : v.files.Opened t l id)
    (hcourse : OnCourse w path (assign stages i (.writing temporary v.handles.length))
      { v with files := t, handles := v.handles ++ [(id, 0)] }) :
    Mixing w path contents pieces target (assign stages i (.writing temporary v.handles.length))
      { v with files := t, handles := v.handles ++ [(id, 0)] } := by
  have hmono : ∀ {bytes}, Mixture pieces (Written stages) bytes →
      Mixture pieces (Written (assign stages i (.writing temporary v.handles.length))) bytes :=
    fun hmix => hmix.mono (fun _ _ => rfl) (written_mono (by simp [hs, WriteStage.hasWritten]))
  have hcontent : ∀ k, Mixture pieces (Written stages) (v.files.content k) →
      Mixture pieces (Written (assign stages i (.writing temporary v.handles.length)))
        (t.content k) := by
    intro k hk
    rw [hopened.content]
    split
    · exact .empty
    · exact hmono hk
  have hempty : Mixture pieces
      (Written (assign stages i (.writing temporary v.handles.length))) (t.content id) := by
    rw [hopened.content, if_pos rfl]
    exact .empty
  -- a handle that was open before comes before the new one
  have hlater : ∀ {j tmp m}, stages j = .writing tmp m → m < v.handles.length := by
    intro j tmp m hj
    obtain ⟨k, hk, -⟩ := h.opened j tmp m hj
    exact (List.getElem?_eq_some_iff.mp hk).1
  refine ⟨hcourse, h.arePieces, h.faultless, fun j tmp m hj => ?_,
    fun j tmp tmp' m m' hj hj' => ?_, fun j _ l' hl' k hk => ?_, ?_⟩
  · rcases assign_cases stages i (.writing temporary v.handles.length) j with
      ⟨-, hstage⟩ | ⟨-, hstage⟩ <;> rw [hstage] at hj
    · obtain ⟨rfl, rfl⟩ := WriteStage.writing.inj hj
      exact ⟨id, by simp, hempty⟩
    · obtain ⟨k, hk, hmix⟩ := h.opened j tmp m hj
      exact ⟨k, (List.getElem?_append_left (hlater hj)).trans hk, hcontent k hmix⟩
  · rcases assign_cases stages i (.writing temporary v.handles.length) j with
      ⟨rfl, hstage⟩ | ⟨rfl, hstage⟩ <;> rw [hstage] at hj
    · obtain ⟨rfl, rfl⟩ := WriteStage.writing.inj hj
      rw [assign_other] at hj'
      exact Nat.ne_of_gt (hlater hj')
    · rw [Writer.other_other, assign_self] at hj'
      obtain ⟨rfl, rfl⟩ := WriteStage.writing.inj hj'
      exact Nat.ne_of_lt (hlater hj)
  · obtain rfl := hl'.unique hl
    rw [hopened.get?, if_pos rfl] at hk
    obtain rfl := FileEntry.file.inj (Option.some.inj hk)
    exact hempty
  · rcases hopened.fileAt?_cases hne with hsame | hnothing
    · rw [hsame]
      exact h.held.imp_right fun ⟨bytes, hbytes, hmix⟩ => ⟨bytes, hbytes, hmono hmix⟩
    · exact .inr ⟨.empty, hnothing, .empty⟩

/-- A writer writes through its handle, wherever the file stands by now: all of its bytes, or a
beginning of them. -/
theorem afterWriting {temporary : String} {m offset : Nat} {id : FileId} {part : ByteArray}
    (h : Mixing w path contents pieces target stages v) (hs : stages i = .writing temporary m)
    (hm : v.handles[m]? = some (id, offset)) (hpart : IsBeginning part (contents i))
    (hwhole : w.IsFaultless → part = contents i) (hwritten : s'.hasWritten = true)
    (hwriting : ∀ temporary handle, s' ≠ .writing temporary handle)
    (hcourse : OnCourse w path (assign stages i s') (v.written m id offset part)) :
    Mixing w path contents (assign pieces i part) target (assign stages i s')
      (v.written m id offset part) := by
  have hnot : ¬ Written stages i := by simp [Written, hs, WriteStage.hasWritten]
  have hsub : ∀ j, Written stages j → Written (assign stages i s') j :=
    written_mono fun _ => hwritten
  have hmono : ∀ {bytes}, Mixture pieces (Written stages) bytes →
      Mixture (assign pieces i part) (Written (assign stages i s')) bytes := by
    refine fun hmix => hmix.mono (fun j hj => assign_of_ne ?_) hsub
    rintro rfl
    exact hnot hj
  obtain ⟨id', hm', hmix⟩ := h.opened i temporary m hs
  obtain ⟨rfl, rfl⟩ := Prod.mk.inj (Option.some.inj (hm'.symm.trans hm))
  have hnew : Mixture (assign pieces i part) (Written (assign stages i s'))
      (overwrite (v.files.content id') 0 part) :=
    hmix.write hnot hsub (by rwa [Written, assign_self])
  have hcontent : ∀ k, Mixture pieces (Written stages) (v.files.content k) →
      Mixture (assign pieces i part) (Written (assign stages i s'))
        ((v.files.setContent id' (overwrite (v.files.content id') 0 part)).content k) := by
    intro k hk
    rcases v.files.content_setContent_cases id' (overwrite (v.files.content id') 0 part) k
      with hsame | hover
    · rw [hsame]
      exact hmono hk
    · rw [hover]
      exact hnew
  have hold : ∀ {j tmp k}, assign stages i s' j = .writing tmp k →
      j = i.other ∧ stages j = .writing tmp k := by
    intro j tmp k hj
    rcases assign_cases stages i s' j with ⟨-, hstage⟩ | ⟨hother, hstage⟩ <;> rw [hstage] at hj
    · exact absurd hj (hwriting tmp k)
    · exact ⟨hother, hj⟩
  refine ⟨hcourse, h.arePieces.assign hpart hwhole, fun hw => (h.faultless hw).pastFault,
    fun j tmp k hj => ?_, fun j tmp tmp' k k' hj hj' => ?_, fun j hj l hl k hk => ?_, ?_⟩
  · obtain ⟨rfl, hj⟩ := hold hj
    obtain ⟨id, hk, hmix⟩ := h.opened _ tmp k hj
    have hne : m ≠ k := h.handles i temporary tmp m k hs hj
    exact ⟨id, (List.getElem?_set_ne hne).trans hk, hcontent id hmix⟩
  · obtain ⟨rfl, -⟩ := hold hj
    obtain ⟨he, -⟩ := hold hj'
    exact absurd he (Writer.other_ne _)
  · refine hcontent k (h.temporary j ?_ l hl k hk)
    rcases assign_cases stages i s' j with ⟨rfl, -⟩ | ⟨-, hstage⟩
    · rw [hs]
      rfl
    · rwa [hstage] at hj
  · rcases v.files.fileAt?_setContent_cases id' (overwrite (v.files.content id') 0 part) target
      with hsame | hover
    · rw [World.written, hsame]
      rcases h.held with hunchanged | ⟨bytes, hbytes, hmix⟩
      · exact .inl hunchanged
      · exact .inr ⟨bytes, hbytes, hmono hmix⟩
    · exact .inr ⟨_, hover, hnew⟩

/-- A writer puts what has the temporary name in the place of the target. -/
theorem afterMoving {t : FileTree} {l : Location} {id : FileId}
    (h : Mixing w path contents pieces target stages v) (hi : (stages i).isMidway = true)
    (hl : TemporaryAt w path l) (hne : target ≠ l) (hmoved : v.files.Moved t l target id) :
    Mixing w path contents pieces target stages { v.pastFault with files := t } where
  here := h.here
  directories := h.directories.trans hmoved.sameDirectories
  allowed := h.allowed
  arePieces := h.arePieces
  faultless hw := (h.faultless hw).pastFault
  opened j tmp m hj := by
    obtain ⟨k, hk, hmix⟩ := h.opened j tmp m hj
    exact ⟨k, hk, (FileTree.content_eq hmoved.contents k).symm ▸ hmix⟩
  handles := h.handles
  temporary j hj l' hl' k hk := by
    obtain rfl := hl'.unique hl
    rcases hmoved.get?_source (Ne.symm hne) with hgone | ⟨hboth, -⟩
    · exact absurd (hgone.symm.trans hk) (by simp)
    · -- both were names of the file
      obtain rfl := FileEntry.file.inj (Option.some.inj (hboth.symm.trans hk))
      exact (FileTree.content_eq hmoved.contents _).symm ▸ h.temporary j hj l' hl _ hmoved.source
  held := by
    refine .inr ⟨v.files.content id, ?_, h.temporary i hi l hl id hmoved.source⟩
    exact hmoved.fileAt?_target.trans (FileTree.fileAt?_of_file hmoved.source)

/-- A writer takes the temporary name away. -/
theorem afterRemoving {t : FileTree} {l : Location} {id : FileId}
    (h : Mixing w path contents pieces target stages v) (hl : TemporaryAt w path l)
    (hne : target ≠ l) (hremoved : v.files.Removed t l id) :
    Mixing w path contents pieces target stages { v with files := t } where
  here := h.here
  directories := h.directories.trans hremoved.sameDirectories
  allowed := h.allowed
  arePieces := h.arePieces
  faultless := h.faultless
  opened j tmp m hj := by
    obtain ⟨k, hk, hmix⟩ := h.opened j tmp m hj
    exact ⟨k, hk, (FileTree.content_eq hremoved.contents k).symm ▸ hmix⟩
  handles := h.handles
  temporary j hj l' hl' k hk := by
    obtain rfl := hl'.unique hl
    rw [hremoved.get?, if_pos rfl] at hk
    exact absurd hk (by simp)
  held := by
    rw [hremoved.fileAt?_eq hne]
    exact h.held

/-- **A step of either writer leaves no more than mixtures.** -/
theorem step (htarget : w.files.locate w.workingDirectory path = .ok target)
    (hne : ∀ l, TemporaryAt w path l → target ≠ l)
    (hstep : WriteStage.Step path (contents i) (stages i) v s' v')
    (h : Mixing w path contents pieces target stages v) :
    ∃ pieces', Mixing w path contents pieces' target (assign stages i s') v' := by
  have hcourse := h.toOnCourse.step hstep
  have hi := h.allowed i
  generalize hs : stages i = s at hstep hi
  cases hstep with
  | found =>
      refine ⟨pieces, h.put hcourse rfl rfl id (by simp [hs, WriteStage.hasWritten]) ?_ ?_⟩
      · rw [WriteStage.prepared]
        split <;> simp [WriteStage.isMidway]
      · rw [WriteStage.prepared]
        split <;> simp
  | missing => exact absurd (hcourse.allowed i) (by rw [assign_self]; exact id)
  | made => exact hi.elim
  | unmade => exact hi.elim
  | opened hl _ _ hopened =>
      have hl := h.temporaryAt hi hl
      exact ⟨pieces, h.afterOpening hs hl (hne _ hl) hopened hcourse⟩
  | unopened =>
      exact ⟨pieces, h.put hcourse rfl rfl id (fun _ => rfl) (by simp [WriteStage.isMidway])
        (by simp)⟩
  | written hm =>
      exact ⟨_, h.afterWriting hs hm (.all _) (fun _ => rfl) rfl (by simp) hcourse⟩
  | unwritten hm hfault =>
      refine ⟨_, h.afterWriting hs hm ⟨_, rfl⟩ (fun hw => ?_) rfl (by simp) hcourse⟩
      exact absurd ((h.faultless hw).fault?_eq.symm.trans hfault) (by simp)
  | unheld hm =>
      obtain ⟨id, hm', -⟩ := h.opened i _ _ hs
      exact absurd (hm'.symm.trans hm) (by simp)
  | synced =>
      exact ⟨pieces, h.put hcourse rfl rfl .pastFault (fun _ => rfl)
        (by simp [hs, WriteStage.isMidway]) (by simp)⟩
  | unsynced =>
      exact ⟨pieces, h.put hcourse rfl rfl .pastFault (fun _ => rfl)
        (by simp [hs, WriteStage.isMidway]) (by simp)⟩
  | replaced hl hl' _ hmoved =>
      obtain rfl := Except.ok.inj ((h.locate_eq_ok_iff.mp hl').symm.trans htarget)
      have hl := h.temporaryAt hi hl
      have hmidway : (stages i).isMidway = true := by rw [hs]; rfl
      exact ⟨pieces, (h.afterMoving hmidway hl (hne _ hl) hmoved).put hcourse rfl rfl id
        (fun _ => rfl) (by simp [WriteStage.isMidway]) (by simp)⟩
  | unreplaced =>
      exact ⟨pieces, h.put hcourse rfl rfl .pastFault (fun _ => rfl)
        (by simp [hs, WriteStage.isMidway]) (by simp)⟩
  | removed hl hremoved =>
      have hl := h.temporaryAt hi hl
      exact ⟨pieces, (h.afterRemoving hl (hne _ hl) hremoved).put hcourse rfl rfl id
        (fun _ => rfl) (by simp [WriteStage.isMidway]) (by simp)⟩
  | unremoved =>
      exact ⟨pieces, h.put hcourse rfl rfl id (fun _ => rfl) (by simp [WriteStage.isMidway])
        (by simp)⟩
  | ended =>
      exact ⟨pieces, h.put hcourse rfl rfl id (fun _ => rfl) (by simp [WriteStage.isMidway])
        (by simp)⟩

end Mixing

/-! ### Writers that keep apart -/

/-- What a writer that is at work alone has at the temporary name: an empty file that it has open,
or one with its bytes. -/
def WriteStage.Owns (w : World) (path : String) (bytes : ByteArray) (v : World) :
    WriteStage → Prop
  | writing _ handle => ∃ l id, TemporaryAt w path l ∧ v.files.get? l = some (.file id) ∧
      v.handles[handle]? = some (id, 0) ∧ v.files.content id = .empty
  | syncing _ _ | replacing _ => ∃ l id, TemporaryAt w path l ∧
      v.files.get? l = some (.file id) ∧ v.files.content id = bytes
  | _ => True

/-- **Two writers that keep apart** leave at the target what it held or the bytes of one of them:
one at most is at work on the temporary file, which is not the file of the target. -/
structure Untorn (w : World) (path : String) (contents : Writer → ByteArray) (target : Location)
    (stages : Writer → WriteStage) (v : World) : Prop extends OnCourse w path stages v where
  alone (i : Writer) (hi : (stages i).isMidway = true) : (stages i.other).isMidway = false
  owns (i : Writer) : (stages i).Owns w path (contents i) v
  unshared (l : Location) (hl : TemporaryAt w path l) : ¬ v.files.SharesFile target l
  held : v.files.fileAt? target = w.files.fileAt? target ∨
    ∃ i, v.files.fileAt? target = some (contents i)

namespace WriteStage

variable {w v : World} {path : String} {bytes : ByteArray} {s : WriteStage}

/-- What a writer has is among the files and handles. -/
theorem Owns.congr {v' : World} (h : s.Owns w path bytes v) (hfiles : v'.files = v.files)
    (hhandles : v'.handles = v.handles) : s.Owns w path bytes v' := by
  cases s with
  | writing temporary handle =>
      rw [Owns, hfiles, hhandles]
      exact h
  | syncing temporary handle =>
      rw [Owns, hfiles]
      exact h
  | replacing temporary =>
      rw [Owns, hfiles]
      exact h
  | _ => trivial

/-- A writer that is not at work owns nothing. -/
theorem owns_of_not_midway (h : s.isMidway = false) : s.Owns w path bytes v := by
  cases s <;> trivial

end WriteStage

namespace Untorn

variable {w v v' : World} {path : String} {contents : Writer → ByteArray} {target : Location}
  {stages : Writer → WriteStage} {i : Writer} {s s' : WriteStage}

/-- A writer takes a step while the other is not at work. -/
theorem put (h : Untorn w path contents target stages v)
    (hcourse : OnCourse w path (assign stages i s') v')
    (halone : s'.isMidway = true → (stages i.other).isMidway = false)
    (howns : s'.Owns w path (contents i) v')
    (hother : (stages i.other).Owns w path (contents i.other) v')
    (hunshared : ∀ l, TemporaryAt w path l → ¬ v'.files.SharesFile target l)
    (hheld : v'.files.fileAt? target = v.files.fileAt? target ∨
      v'.files.fileAt? target = some (contents i)) :
    Untorn w path contents target (assign stages i s') v' := by
  refine ⟨hcourse, fun j hj => ?_, fun j => ?_, hunshared, ?_⟩
  · rcases assign_cases stages i s' j with ⟨rfl, hstage⟩ | ⟨rfl, hstage⟩ <;> rw [hstage] at hj
    · rw [assign_other]
      exact halone hj
    · rw [Writer.other_other, assign_self]
      exact Bool.eq_false_iff.mpr fun hs => absurd hj (by simp [halone hs])
  · rcases assign_cases stages i s' j with ⟨rfl, hstage⟩ | ⟨rfl, hstage⟩ <;> rw [hstage]
    · exact howns
    · exact hother
  · rcases hheld with hsame | hnew
    · rw [hsame]
      exact h.held
    · exact .inr ⟨i, hnew⟩

/-- A writer goes on without a change to files and handles. -/
theorem put_same (h : Untorn w path contents target stages v)
    (hcourse : OnCourse w path (assign stages i s') v') (hfiles : v'.files = v.files)
    (hhandles : v'.handles = v.handles)
    (hmidway : s'.isMidway = true → (stages i).isMidway = true)
    (howns : s'.Owns w path (contents i) v) :
    Untorn w path contents target (assign stages i s') v' :=
  h.put hcourse (fun hs => h.alone i (hmidway hs)) (howns.congr hfiles hhandles)
    ((h.owns i.other).congr hfiles hhandles) (hfiles.symm ▸ h.unshared) (.inl (by rw [hfiles]))

/-- A writer opens the temporary file while the other is not at work on it. -/
theorem afterOpening {temporary : String} {t : FileTree} {l : Location} {id : FileId}
    (h : Untorn w path contents target stages v) (hidle : (stages i.other).isMidway = false)
    (hl : TemporaryAt w path l) (hne : target ≠ l) (hopened : v.files.Opened t l id)
    (hcourse : OnCourse w path (assign stages i (.writing temporary v.handles.length))
      { v with files := t, handles := v.handles ++ [(id, 0)] }) :
    Untorn w path contents target (assign stages i (.writing temporary v.handles.length))
      { v with files := t, handles := v.handles ++ [(id, 0)] } := by
  have hget : t.get? l = some (.file id) := by rw [hopened.get?, if_pos rfl]
  have hempty : t.content id = .empty := by rw [hopened.content, if_pos rfl]
  refine h.put hcourse (fun _ => hidle) ⟨l, id, hl, hget, by simp, hempty⟩
    (WriteStage.owns_of_not_midway hidle) (fun l' hl' => ?_)
    (.inl (hopened.fileAt?_eq hne (h.unshared l hl)))
  -- the file that has been opened is not that of the target
  obtain rfl := hl'.unique hl
  rintro ⟨k, hk, hk'⟩
  obtain rfl := FileEntry.file.inj (Option.some.inj (hk'.symm.trans hget))
  exact hopened.get?_ne hne (h.unshared l' hl') hk

/-- A writer writes the temporary file, which is empty and not that of the target: all of its bytes,
or some of them if it fails then. -/
theorem afterWriting {temporary : String} {m offset : Nat} {id : FileId} {part : ByteArray}
    (h : Untorn w path contents target stages v) (hs : stages i = .writing temporary m)
    (hm : v.handles[m]? = some (id, offset))
    (hs' : s' = .syncing temporary m ∧ part = contents i ∨ ∃ failure, s' = .removing temporary failure)
    (hcourse : OnCourse w path (assign stages i s') (v.written m id offset part)) :
    Untorn w path contents target (assign stages i s') (v.written m id offset part) := by
  have hidle : (stages i.other).isMidway = false := h.alone i (by rw [hs]; rfl)
  have howns := h.owns i
  rw [hs] at howns
  obtain ⟨l, id', hl, hget, hm', hempty⟩ := howns
  obtain ⟨rfl, rfl⟩ := Prod.mk.inj (Option.some.inj (hm'.symm.trans hm))
  have htarget : v.files.get? target ≠ some (.file id') := fun hk =>
    h.unshared l hl ⟨id', hk, hget⟩
  refine h.put hcourse (fun _ => hidle) ?_ (WriteStage.owns_of_not_midway hidle) h.unshared
    (.inl (FileTree.fileAt?_setContent _ htarget))
  rcases hs' with ⟨rfl, rfl⟩ | ⟨failure, rfl⟩
  · refine ⟨l, id', hl, hget, ?_⟩
    change (v.files.setContent id' _).content id' = contents i
    rw [FileTree.content_setContent v.files (v.files.held l id' hget), if_pos rfl, hempty,
      overwrite_empty]
  · trivial

/-- A writer puts its temporary file in the place of the target. -/
theorem afterMoving {temporary : String} {t : FileTree} {l : Location} {id : FileId}
    (h : Untorn w path contents target stages v) (hs : stages i = .replacing temporary)
    (hl : TemporaryAt w path l) (hne : target ≠ l) (hmoved : v.files.Moved t l target id)
    (hcourse : OnCourse w path (assign stages i (.ended (.ok ()))) { v.pastFault with files := t }) :
    Untorn w path contents target (assign stages i (.ended (.ok ())))
      { v.pastFault with files := t } := by
  have hidle : (stages i.other).isMidway = false := h.alone i (by rw [hs]; rfl)
  have howns := h.owns i
  rw [hs] at howns
  obtain ⟨k, id', hk, hget, hbytes⟩ := howns
  obtain rfl := hk.unique hl
  obtain rfl := FileEntry.file.inj (Option.some.inj (hget.symm.trans hmoved.source))
  refine h.put hcourse (by simp [WriteStage.isMidway]) trivial
    (WriteStage.owns_of_not_midway hidle) (fun m hm => ?_) (.inr ?_)
  · -- nothing has the temporary name any more
    obtain rfl := hm.unique hl
    rintro ⟨id, -, hleft⟩
    rcases hmoved.get?_source (Ne.symm hne) with hgone | ⟨-, hboth⟩
    · exact absurd (hgone.symm.trans hleft) (by simp)
    · exact h.unshared m hl ⟨id', hboth, hget⟩
  · exact hmoved.fileAt?_target.trans
      ((FileTree.fileAt?_of_file hget).trans (congrArg some hbytes))

/-- A writer takes the temporary name away. -/
theorem afterRemoving {temporary : String} {failure : Failure} {t : FileTree} {l : Location}
    {id : FileId} (h : Untorn w path contents target stages v)
    (hs : stages i = .removing temporary failure) (hl : TemporaryAt w path l) (hne : target ≠ l)
    (hremoved : v.files.Removed t l id)
    (hcourse : OnCourse w path (assign stages i (.ended (.error failure)))
      { v with files := t }) :
    Untorn w path contents target (assign stages i (.ended (.error failure)))
      { v with files := t } := by
  have hidle : (stages i.other).isMidway = false := h.alone i (by rw [hs]; rfl)
  refine h.put hcourse (by simp [WriteStage.isMidway]) trivial
    (WriteStage.owns_of_not_midway hidle) (fun m hm => ?_) (.inl (hremoved.fileAt?_eq hne))
  obtain rfl := hm.unique hl
  rintro ⟨id, -, hgone⟩
  rw [hremoved.get?, if_pos rfl] at hgone
  exact absurd hgone (by simp)

/-- **A step of either writer leaves the target whole if they keep apart.** -/
theorem step (htarget : w.files.locate w.workingDirectory path = .ok target)
    (hne : ∀ l, TemporaryAt w path l → target ≠ l)
    (hstep : WriteStage.Step path (contents i) (stages i) v s' v')
    (hapart : (stages i).opens = true → (stages i.other).isMidway = false)
    (h : Untorn w path contents target stages v) :
    Untorn w path contents target (assign stages i s') v' := by
  have hcourse := h.toOnCourse.step hstep
  have hi := h.allowed i
  have howns := h.owns i
  generalize hs : stages i = s at hstep hi howns hapart
  cases hstep with
  | found =>
      refine h.put_same hcourse rfl rfl ?_ ?_
      · rw [WriteStage.prepared]
        split <;> simp [WriteStage.isMidway]
      · rw [WriteStage.prepared]
        split <;> trivial
  | missing => exact absurd (hcourse.allowed i) (by rw [assign_self]; exact id)
  | made => exact hi.elim
  | unmade => exact hi.elim
  | opened hl _ _ hopened =>
      have hl := h.temporaryAt hi hl
      exact h.afterOpening (hapart rfl) hl (hne _ hl) hopened hcourse
  | unopened => exact h.put_same hcourse rfl rfl (by simp [WriteStage.isMidway]) trivial
  | written hm => exact h.afterWriting hs hm (.inl ⟨rfl, rfl⟩) hcourse
  | unwritten hm => exact h.afterWriting hs hm (.inr ⟨_, rfl⟩) hcourse
  | unheld hm =>
      obtain ⟨l, id, -, -, hm', -⟩ := howns
      exact absurd (hm'.symm.trans hm) (by simp)
  | synced => exact h.put_same hcourse rfl rfl (by simp [hs, WriteStage.isMidway]) howns
  | unsynced => exact h.put_same hcourse rfl rfl (by simp [hs, WriteStage.isMidway]) trivial
  | replaced hl hl' _ hmoved =>
      obtain rfl := Except.ok.inj ((h.locate_eq_ok_iff.mp hl').symm.trans htarget)
      have hl := h.temporaryAt hi hl
      exact h.afterMoving hs hl (hne _ hl) hmoved hcourse
  | unreplaced => exact h.put_same hcourse rfl rfl (by simp [hs, WriteStage.isMidway]) trivial
  | removed hl hremoved =>
      have hl := h.temporaryAt hi hl
      exact h.afterRemoving hs hl (hne _ hl) hremoved hcourse
  | unremoved => exact h.put_same hcourse rfl rfl (by simp [WriteStage.isMidway]) trivial
  | ended => exact h.put_same hcourse rfl rfl (by simp [WriteStage.isMidway]) trivial

end Untorn

/-! ### What is left at the target -/

/-- A write that has not begun is not at work on a temporary file. -/
theorem WriteStage.isMidway_first (path : String) : (first path).isMidway = false := by
  have hprepared : (prepared path).isMidway = false := by
    rw [prepared]
    split <;> rfl
  rw [first]
  split
  · exact hprepared
  · split
    · exact hprepared
    · rfl

section Start

variable {w v : World} {path : String} {target : Location} {stages : Writer → WriteStage}

/-- At the start of a race nothing is mixed yet, so the invariant of a race holds. -/
theorem Mixing.start (contents : Writer → ByteArray) (target : Location)
    (hparent : w.hasParent path = true) :
    Mixing w path contents contents target (fun _ => .first path) w := by
  have hidle : ∀ {s}, WriteStage.first path = s → s.isMidway = true → False := by
    rintro s rfl hs
    exact absurd (hs.symm.trans (WriteStage.isMidway_first path)) (by simp)
  exact ⟨.start hparent, .all w contents, id, fun _ _ _ hi => (hidle hi rfl).elim,
    fun _ _ _ _ _ hi _ => (hidle hi rfl).elim, fun _ hi => (hidle rfl hi).elim, .inl rfl⟩

/-- At the start of a race whose target shares no file with the temporary name, the invariant of
untorn races holds. -/
theorem Untorn.start (contents : Writer → ByteArray)
    (hparent : w.hasParent path = true)
    (htarget : w.files.locate w.workingDirectory path = .ok target)
    (hshares : ¬ w.SharesTemporary path) :
    Untorn w path contents target (fun _ => .first path) w :=
  ⟨.start hparent, fun _ _ => WriteStage.isMidway_first path,
    fun _ => WriteStage.owns_of_not_midway (WriteStage.isMidway_first path),
    fun l hl hk => hshares ⟨target, l, htarget, hl, hk⟩, .inl rfl⟩

/-- The path leads to the target at any point. -/
theorem OnCourse.bytesAt?_eq (h : OnCourse w path stages v)
    (htarget : w.files.locate w.workingDirectory path = .ok target) :
    v.bytesAt? path = v.files.fileAt? target := by
  rw [World.bytesAt?, FileTree.bytesAt?, h.locate_eq_ok_iff.mpr htarget]

/-- A path that leads nowhere goes on to lead nowhere. -/
theorem OnCourse.bytesAt?_eq_none {e : FileError} (h : OnCourse w path stages v)
    (hnowhere : w.files.locate w.workingDirectory path = .error e) : v.bytesAt? path = none := by
  rw [World.bytesAt?, FileTree.bytesAt?]
  split
  · rename_i l hl
    exact absurd ((h.locate_eq_ok_iff.mp hl).symm.trans hnowhere) (by simp)
  · rfl

/-- The target has not the temporary name unless it is a directory. -/
theorem ne_of_temporaryAt (htarget : w.files.locate w.workingDirectory path = .ok target)
    (hfile : w.files.isDirectory w.workingDirectory path = false) (l : Location)
    (hl : TemporaryAt w path l) : target ≠ l := by
  have hname : FileTree.endsInName path = true := by
    rw [← Bool.not_eq_false]
    intro hname
    have hdirectory := FileTree.get?_of_not_endsInName htarget hname
    simp [FileTree.isDirectory, FileTree.find, htarget, hdirectory] at hfile
  rintro rfl
  exact not_temporaryAt_of_locate htarget hname hl

end Start

/-- **What two writers can leave at the target**, whatever the order of their steps: what it held at
the start, nothing, the bytes of one of them, or those of one written over those of the other, where
a writer that fails has written a beginning of its bytes. As long as they keep apart, it is what it
held at the start or the bytes of one of them, even if they fail. -/
theorem race_target (w : World) (path : String) (contents : Writer → ByteArray)
    (hparent : w.hasParent path = true)
    (hfile : w.files.isDirectory w.workingDirectory path = false) (schedule : List Writer) :
    (((Race.start w path contents).run schedule).world.bytesAt? path = w.bytesAt? path ∨
      ∃ pieces bytes, ArePieces w contents pieces ∧
        ((Race.start w path contents).run schedule).world.bytesAt? path = some bytes ∧
        Mixture pieces (fun _ => True) bytes) ∧
    ((Race.start w path contents).Apart schedule → ¬ w.SharesTemporary path →
      ((Race.start w path contents).run schedule).world.bytesAt? path = w.bytesAt? path ∨
        ∃ i, ((Race.start w path contents).run schedule).world.bytesAt? path =
          some (contents i)) := by
  rcases htarget : w.files.locate w.workingDirectory path with e | target
  · -- a path that leads nowhere
    obtain ⟨stages, h⟩ := Race.holds_along contents (OnCourse.start hparent) OnCourse.step
      schedule
    have hsame := (h.bytesAt?_eq_none htarget).trans
      ((OnCourse.start hparent).bytesAt?_eq_none htarget).symm
    exact ⟨.inl hsame, fun _ _ => .inl hsame⟩
  · have hne := ne_of_temporaryAt htarget hfile
    have hstart := (OnCourse.start hparent).bytesAt?_eq htarget
    refine ⟨?_, fun hapart hshares => ?_⟩
    · obtain ⟨stages, pieces, h⟩ := Race.holds_along contents
        (I := fun stages v => ∃ pieces, Mixing w path contents pieces target stages v)
        ⟨contents, Mixing.start contents target hparent⟩
        (fun hstep ⟨_, h⟩ => h.step htarget hne hstep) schedule
      rw [h.bytesAt?_eq htarget, hstart]
      exact h.held.imp_right fun ⟨bytes, hbytes, hmix⟩ =>
        ⟨pieces, bytes, h.arePieces, hbytes, hmix.mono (fun _ _ => rfl) fun _ _ => trivial⟩
    · obtain ⟨stages, h⟩ := Race.holds_along_of_apart contents
        (Untorn.start contents hparent htarget hshares)
        (fun hstep hturn h => h.step htarget hne hstep hturn) hapart
      rw [h.bytesAt?_eq htarget, hstart]
      exact h.held

/-- The texts of two writers, as bytes. -/
def textsOf (a b : String) : Writer → ByteArray
  | .first => a.toUTF8
  | .second => b.toUTF8

/-- Two writers in an empty directory, one after the other. -/
theorem race_target_in_turn :
    (default : World).hasParent "x" = true ∧
    (default : World).files.isDirectory (default : World).workingDirectory "x" = false ∧
    (Race.start default "x" (textsOf "AAAA" "B")).Apart
      [.first, .first, .first, .first, .second, .second, .second, .second] ∧
    ¬ (default : World).SharesTemporary "x" ∧
    (((Race.start default "x" (textsOf "AAAA" "B")).run
        [.first, .first, .first, .first, .second, .second, .second, .second]).world.bytesAt? "x" =
          (default : World).bytesAt? "x" ∨
      ∃ i, ((Race.start default "x" (textsOf "AAAA" "B")).run
        [.first, .first, .first, .first, .second, .second, .second, .second]).world.bytesAt? "x" =
          some (textsOf "AAAA" "B" i)) := by
  have hapart : (Race.start default "x" (textsOf "AAAA" "B")).Apart
      [.first, .first, .first, .first, .second, .second, .second, .second] := by decide +kernel
  have hshares : ¬ (default : World).SharesTemporary "x" := by
    rintro ⟨l, -, -, -, id, hid, -⟩
    change (if l = [] then some FileEntry.directory else none) = some (.file id) at hid
    split at hid <;> simp at hid
  exact ⟨by decide +kernel, by decide +kernel, hapart, hshares,
    (race_target default "x" (textsOf "AAAA" "B") (by decide +kernel) (by decide +kernel)
      [.first, .first, .first, .first, .second, .second, .second, .second]).2 hapart hshares⟩

/-- **Two writers can tear the target.** Both open the temporary file, one writes it and puts it in
place, and only then the other writes through its handle. -/
theorem race_tears :
    ¬ ∀ (w : World) (path : String) (contents : Writer → ByteArray) (schedule : List Writer),
      w.hasParent path = true → w.files.isDirectory w.workingDirectory path = false →
        ((Race.start w path contents).run schedule).world.bytesAt? path = w.bytesAt? path ∨
          ∃ i, ((Race.start w path contents).run schedule).world.bytesAt? path =
            some (contents i) := by
  intro h
  have htorn : ((Race.start default "x" (textsOf "AAAA" "B")).run
      [.first, .second, .first, .first, .first, .second]).world.bytesAt? "x" =
        some "BAAA".toUTF8 := by decide +kernel
  rcases h default "x" (textsOf "AAAA" "B") [.first, .second, .first, .first, .first, .second]
    (by decide +kernel) (by decide +kernel) with hsame | ⟨i, hi⟩
  · rw [htorn] at hsame
    exact absurd hsame (by decide +kernel)
  · rw [htorn] at hi
    cases i with
    | first => exact absurd hi (by decide +kernel)
    | second => exact absurd hi (by decide +kernel)

end Outreach
