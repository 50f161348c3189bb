import Outreach.Files.Tree

/-!
# What File Operations Do to a Tree

A path is looked up through directories only, so what it leads to stays as long as the directories
do. The operations that open and move files are described here by what they require and by what
stands where afterwards.

## Main results

* `FileTree.locate_mono`: a tree that keeps the directories of another finds what that one finds.
* `FileTree.SameDirectories.locate_eq_ok_iff`: two trees with the same directories find the same.
* `FileTree.create_eq_ok`: what opening a file for writing does.
* `FileTree.replace_eq_ok`: what giving a file another name does.
* `FileTree.remove_eq_ok`: what removing a file does.
* `FileTree.grown_makeDirectories`: what making directories does.
-/

namespace Outreach.FileTree

/-- A tree **keeps the directories** of another: where that has one, it has one too. -/
def KeepsDirectories (t t' : FileTree) : Prop :=
  ∀ k, t.get? k = some .directory → t'.get? k = some .directory

/-! ### Looking up -/

/-- A name that leads from a directory to a place leads there in every tree that keeps the
directories. -/
theorem step_mono {t t' : FileTree} (h : t.KeepsDirectories t') {here l : Location}
    {name : String} (hs : t.step here name = .ok l) : t'.step here name = .ok l := by
  have hd : t.get? here = some .directory := by
    rw [step] at hs
    split at hs
    · simp at hs
    · simp at hs
    · assumption
  rw [step, hd] at hs
  rw [step, h _ hd]
  exact hs

/-- Names that lead to a place one after the other lead there in every tree that keeps the
directories. -/
theorem foldlM_step_mono {t t' : FileTree} (h : t.KeepsDirectories t') {ns : List String}
    {here l : Location} (hs : ns.foldlM t.step here = .ok l) :
    ns.foldlM t'.step here = .ok l := by
  induction ns generalizing here with
  | nil => exact hs
  | cons name ns ih =>
      rw [List.foldlM_cons] at hs ⊢
      rcases hstep : t.step here name with e | next
      · rw [hstep] at hs
        exact absurd hs (by simp [bind, Except.bind])
      · rw [hstep] at hs
        rw [step_mono h hstep]
        exact ih hs

/-- What a path leads to in a tree it leads to in every tree that keeps the directories. -/
theorem locate_mono {t t' : FileTree} (h : t.KeepsDirectories t') {here : Option Location}
    {path : String} {l : Location} (hl : t.locate here path = .ok l) :
    t'.locate here path = .ok l := by
  rw [locate_eq_ok_iff] at hl ⊢
  obtain ⟨h1, h2, h3, start, hstart, hfold⟩ := hl
  exact ⟨h1, h2, h3, start, hstart, foldlM_step_mono h hfold⟩

/-- A path stands for a directory if it leads to one. -/
theorem isDirectory_iff {t : FileTree} {here : Option Location} {path : String} :
    t.isDirectory here path = true ↔
      ∃ l, t.locate here path = .ok l ∧ t.get? l = some .directory := by
  rw [isDirectory, find]
  rcases t.locate here path with e | l
  · simp
  · rcases hl : t.get? l with - | - | id
    · simp [hl]
    · simp [hl]
    · by_cases hwants : wantsDirectory path = true <;> simp [hl, hwants]

/-- A directory is something. -/
theorem pathExists_of_isDirectory {t : FileTree} {here : Option Location} {path : String}
    (h : t.isDirectory here path = true) :
    t.pathExists here path = true := by
  obtain ⟨l, hl, hdirectory⟩ := isDirectory_iff.mp h
  rw [pathExists, find, hl]
  simp only [hdirectory]
  rfl

/-! ### Bytes -/

/-- Putting an entry at a location changes no content. -/
@[simp] theorem content_place (t : FileTree) {l : Location} {e : FileEntry} (h : t.Admits l e)
    (id : FileId) : (t.place l e h).content id = t.content id := rfl

/-- Making room for the content of a new file changes no entry. -/
@[simp] theorem get?_grow (t : FileTree) (l : Location) : t.grow.get? l = t.get? l := rfl

/-- Giving a file other bytes changes its bytes and those of no other file. -/
theorem content_setContent (t : FileTree) {id : FileId} (hid : id < t.contents.length)
    (bytes : ByteArray) (k : FileId) :
    (t.setContent id bytes).content k = if k = id then bytes else t.content k := by
  by_cases hk : k = id
  · subst hk
    simp [content, setContent, hid]
  · simp [content, setContent, hk, Ne.symm hk]

/-- A file has the bytes it is given, if there is such a file, and the others have theirs. -/
theorem content_setContent_cases (t : FileTree) (id : FileId) (bytes : ByteArray) (k : FileId) :
    (t.setContent id bytes).content k = t.content k ∨
      (t.setContent id bytes).content k = bytes := by
  by_cases hid : id < t.contents.length
  · rw [content_setContent t hid]
    split
    · exact .inr rfl
    · exact .inl rfl
  · have hset : (t.setContent id bytes).contents = t.contents :=
      List.set_eq_of_length_le (Nat.le_of_not_lt hid)
    rw [content, content, hset]
    exact .inl rfl

/-- A new file is empty, and the others have the bytes they had. -/
theorem content_grow (t : FileTree) (k : FileId) : t.grow.content k = t.content k := by
  rw [content, grow, List.getElem?_append]
  split
  · rfl
  · rename_i hk
    have hnone : t.contents[k]? = none := List.getElem?_eq_none (Nat.le_of_not_lt hk)
    rw [content, hnone]
    rcases k - t.contents.length with - | n <;> rfl

/-- Two trees with the same contents give the same content for every file. -/
theorem content_eq {t t' : FileTree} (h : t'.contents = t.contents) (id : FileId) :
    t'.content id = t.content id := by
  rw [content, content, h]

/-! ### Opening, moving and removing files -/

/-- A tree in which a file **has been opened for writing**: the file that stood at a location, or a
new one, stands there and is empty; nothing else has changed. -/
structure Opened (t t' : FileTree) (l : Location) (id : FileId) : Prop where
  free : t.get? l ≠ some .directory
  get? (k : Location) : t'.get? k = if k = l then some (.file id) else t.get? k
  content (i : FileId) : t'.content i = if i = id then .empty else t.content i
  known : t.get? l = some (.file id) ∨ t.get? l = none ∧ t.contents.length ≤ id
  longer : t.contents.length ≤ t'.contents.length

/-- A tree in which a file **has been moved** from one location to another. If it stood at both,
it still does. -/
structure Moved (t t' : FileTree) (l l' : Location) (id : FileId) : Prop where
  source : t.get? l = some (.file id)
  free : t.get? l' ≠ some .directory
  get? (k : Location) :
    t'.get? k = if k = l' then some (.file id)
      else if k = l ∧ t.get? l' ≠ some (.file id) then none else t.get? k
  contents : t'.contents = t.contents

/-- A tree in which the file at a location **has been removed**. -/
structure Removed (t t' : FileTree) (l : Location) (id : FileId) : Prop where
  source : t.get? l = some (.file id)
  get? (k : Location) : t'.get? k = if k = l then none else t.get? k
  contents : t'.contents = t.contents

/-- Nothing stands below a file. -/
theorem get?_below_file (t : FileTree) {l k : Location} {id : FileId}
    (hl : t.get? l = some (.file id)) (hpre : l <+: k) (hne : k ≠ l) : t.get? k = none := by
  rcases hk : t.get? k with - | e
  · rfl
  · have hparent := t.rooted k e hk
    have hpre' : l <+: k.dropLast := by
      rcases List.eq_nil_or_concat k with rfl | ⟨p, name, hkp⟩
      · exact absurd (List.prefix_nil.mp hpre).symm hne
      · rw [List.concat_eq_append] at hkp
        subst hkp
        rw [List.dropLast_concat]
        exact (List.prefix_concat_iff.mp hpre).resolve_left fun he => hne he.symm
    have hdirectory := t.get?_of_prefix_directory hpre' hparent
    rw [hl] at hdirectory
    exact absurd hdirectory (by simp)

/-- Removing a file removes nothing else. -/
theorem get?_removeBelow_file (t : FileTree) {l : Location} {id : FileId}
    (hl : t.get? l = some (.file id)) (k : Location) :
    (t.removeBelow l).get? k = if k = l then none else t.get? k := by
  have hne : l ≠ [] := by
    rintro rfl
    simp [FileTree.get?, entryAt] at hl
  rw [t.get?_removeBelow hne]
  by_cases hk : k = l
  · simp [hk]
  · rw [if_neg hk]
    split
    · rename_i hpre
      exact (t.get?_below_file hl (List.isPrefixOf_iff_prefix.mp hpre) hk).symm
    · rfl

/-- **Opening a file for writing**: the path leads to a place in a directory, in which no directory
stands, and the file there is opened. -/
theorem create_eq_ok {t t' : FileTree} {here : Option Location} {path : String} {id : FileId}
    (h : t.create here path = .ok (id, t')) :
    ∃ l, t.locate here path = .ok l ∧ endsInName path = true ∧ wantsDirectory path = false ∧
      t.Opened t' l id := by
  rw [create] at h
  split at h
  · simp at h
  · rename_i l hl
    split at h
    · rename_i hn
      refine ⟨l, hl, hn.1, hn.2, ?_⟩
      split at h
      · simp at h
      · rename_i id' hg
        obtain ⟨rfl, rfl⟩ := Prod.mk.inj (Except.ok.inj h)
        refine ⟨by simp [hg], fun k => ?_, content_setContent t (t.held l id' hg) .empty,
          .inl hg, by simp [setContent]⟩
        rw [get?_setContent]
        split
        · rename_i hk
          rw [hk, hg]
        · rfl
      · rename_i hg
        obtain ⟨rfl, rfl⟩ := Prod.mk.inj (Except.ok.inj h)
        refine ⟨by simp [hg], fun k => ?_, fun i => ?_, .inr ⟨hg, Nat.le_refl _⟩,
          by simp [place, grow]⟩
        · rw [get?_place, get?_grow]
        · rw [content_place, content_grow]
          split
          · rename_i hi
            simp [hi, content]
          · rfl
    · simp at h

/-- A file can be opened under any name that leads into a directory and is not that of a
directory. -/
theorem exists_create_eq_ok {t : FileTree} {here : Option Location} {path : String} {l : Location}
    (hl : t.locate here path = .ok l) (hn : endsInName path = true)
    (hwants : wantsDirectory path = false) (hg : t.get? l ≠ some .directory) :
    ∃ r, t.create here path = .ok r := by
  rw [create]
  split
  · rename_i he
    exact absurd (hl.symm.trans he) (by simp)
  · rename_i m hm
    obtain rfl : l = m := Except.ok.inj (hl.symm.trans hm)
    rw [dif_pos ⟨hn, hwants⟩]
    split
    · rename_i he
      exact absurd he hg
    · exact ⟨_, rfl⟩
    · exact ⟨_, rfl⟩

/-- **Giving a file another name**: both paths lead into directories, a file stands at the first and
no directory at the second, and the file is moved. -/
theorem replace_eq_ok {t t' : FileTree} {here : Option Location} {source target : String}
    (h : t.replace here source target = .ok t') :
    ∃ l l' id, t.locate here source = .ok l ∧ t.locate here target = .ok l' ∧
      endsInName target = true ∧ wantsDirectory target = false ∧ t.Moved t' l l' id := by
  rw [replace] at h
  split at h
  · simp at h
  · simp at h
  · rename_i l l' hl hl'
    split at h
    · rename_i hn
      split at h
      · simp at h
      · simp at h
      · rename_i id hg
        split at h
        · simp at h
        · rename_i hwants
          split at h
          · simp at h
          · rename_i hg'
            have hwants' : wantsDirectory target = false :=
              Bool.eq_false_iff.mpr fun hw => hwants (by simp [hw])
            split at h
            · -- both are names of the file
              rename_i hsame
              obtain rfl := Except.ok.inj h
              refine ⟨l, l', id, hl, hl', hn.2, hwants', hg, hg', fun k => ?_, rfl⟩
              split
              · rename_i hk
                rw [hk, hsame]
              · rw [if_neg fun hk => hk.2 hsame]
            · rename_i hother
              obtain rfl := Except.ok.inj h
              refine ⟨l, l', id, hl, hl', hn.2, hwants', hg, hg', fun k => ?_, rfl⟩
              rw [get?_place, get?_removeBelow_file t hg]
              simp only [ne_eq, hother, not_false_eq_true, and_true]
    · simp at h

/-- A file can be given any name that leads into a directory and is not that of a directory. -/
theorem exists_replace_eq_ok {t : FileTree} {here : Option Location} {source target : String}
    {l l' : Location} {id : FileId} (hl : t.locate here source = .ok l)
    (hl' : t.locate here target = .ok l') (hn : endsInName source = true)
    (hn' : endsInName target = true) (hwants : wantsDirectory source = false)
    (hwants' : wantsDirectory target = false) (hg : t.get? l = some (.file id))
    (hg' : t.get? l' ≠ some .directory) : ∃ t', t.replace here source target = .ok t' := by
  rw [replace]
  split
  · rename_i he
    exact absurd (hl.symm.trans he) (by simp)
  · rename_i he _
    exact absurd (hl'.symm.trans he) (by simp)
  · rename_i m m' hm hm'
    obtain rfl : l = m := Except.ok.inj (hl.symm.trans hm)
    obtain rfl : l' = m' := Except.ok.inj (hl'.symm.trans hm')
    rw [dif_pos ⟨hn, hn'⟩]
    split
    · rename_i he
      exact absurd (hg.symm.trans he) (by simp)
    · rename_i he
      exact absurd (hg.symm.trans he) (by simp)
    · rw [if_neg (by simp [hwants, hwants']), dif_neg hg']
      split
      · exact ⟨_, rfl⟩
      · exact ⟨_, rfl⟩

/-- **Removing a file**: the path leads to a file, which is removed. -/
theorem remove_eq_ok {t t' : FileTree} {here : Option Location} {path : String}
    (h : t.remove here path = .ok t') :
    ∃ l id, t.locate here path = .ok l ∧ t.Removed t' l id := by
  rw [remove] at h
  split at h
  · simp at h
  · rename_i l hl
    split at h
    · simp at h
    · simp at h
    · rename_i id hg
      split at h
      · simp at h
      · obtain rfl := Except.ok.inj h
        exact ⟨l, id, hl, hg, t.get?_removeBelow_file hg, rfl⟩

/-- A file that a path leads to can be removed. -/
theorem exists_remove_eq_ok {t : FileTree} {here : Option Location} {path : String}
    {l : Location} {id : FileId} (hl : t.locate here path = .ok l)
    (hwants : wantsDirectory path = false) (hg : t.get? l = some (.file id)) :
    ∃ t', t.remove here path = .ok t' := by
  refine ⟨t.removeBelow l, ?_⟩
  rw [remove, hl]
  simp [hg, hwants]

/-! ### Directories that stay -/

/-- Two trees with the **same directories**, so that paths are followed alike in both. -/
def SameDirectories (t t' : FileTree) : Prop :=
  ∀ k, t'.get? k = some .directory ↔ t.get? k = some .directory

namespace SameDirectories

/-- A tree has the same directories as itself. -/
theorem refl (t : FileTree) : t.SameDirectories t := fun _ => Iff.rfl

/-- If one tree has the same directories as a second and this as a third, the first has those of
the third. -/
theorem trans {t u v : FileTree} (h : t.SameDirectories u) (h' : u.SameDirectories v) :
    t.SameDirectories v := fun k => (h' k).trans (h k)

/-- A tree with the same directories keeps all of them. -/
theorem keepsDirectories {t t' : FileTree} (h : t.SameDirectories t') : t.KeepsDirectories t' :=
  fun k hk => (h k).mpr hk

/-- Trees with the same directories find the same. -/
theorem locate_eq_ok_iff {t t' : FileTree} (h : t.SameDirectories t') {here : Option Location}
    {path : String} {l : Location} :
    t'.locate here path = .ok l ↔ t.locate here path = .ok l :=
  ⟨locate_mono fun k hk => (h k).mp hk, locate_mono h.keepsDirectories⟩

/-- Trees with the same directories find the same to be directories. -/
theorem isDirectory_eq {t t' : FileTree} (h : t.SameDirectories t') {here : Option Location}
    {path : String} :
    t'.isDirectory here path = t.isDirectory here path := by
  rw [Bool.eq_iff_iff, isDirectory_iff, isDirectory_iff]
  simp only [h.locate_eq_ok_iff, h _]

/-- Writing the content of a file leaves the directories as they are. -/
theorem setContent (t : FileTree) (id : FileId) (bytes : ByteArray) :
    t.SameDirectories (t.setContent id bytes) := fun _ => Iff.rfl

end SameDirectories

/-- Opening a file keeps the directories. -/
theorem Opened.sameDirectories {t t' : FileTree} {l : Location} {id : FileId}
    (h : t.Opened t' l id) : t.SameDirectories t' := by
  intro k
  rw [h.get?]
  split
  · rename_i hk
    subst hk
    simp [h.free]
  · rfl

/-- Moving a file keeps the directories. -/
theorem Moved.sameDirectories {t t' : FileTree} {l l' : Location} {id : FileId}
    (h : t.Moved t' l l' id) : t.SameDirectories t' := by
  intro k
  rw [h.get?]
  split
  · rename_i hk
    subst hk
    simp [h.free]
  · split
    · rename_i hk
      obtain ⟨rfl, -⟩ := hk
      simp [h.source]
    · rfl

/-- Moving a file moves no other. -/
theorem Moved.get?_of_ne {t t' : FileTree} {l l' k : Location} {id : FileId}
    (h : t.Moved t' l l' id) (hne : k ≠ l) (hne' : k ≠ l') : t'.get? k = t.get? k := by
  rw [h.get?, if_neg hne', if_neg fun hk => hne hk.1]

/-- A file that has been moved stands no longer where it stood, unless that and where it stands now
were two names of it. -/
theorem Moved.get?_source {t t' : FileTree} {l l' : Location} {id : FileId}
    (h : t.Moved t' l l' id) (hne : l ≠ l') :
    t'.get? l = none ∨ t'.get? l = some (.file id) ∧ t.get? l' = some (.file id) := by
  rw [h.get?, if_neg hne]
  by_cases hboth : t.get? l' = some (.file id)
  · rw [if_neg fun hl => hl.2 hboth]
    exact .inr ⟨h.source, hboth⟩
  · rw [if_pos ⟨rfl, hboth⟩]
    exact .inl rfl

/-- Removing a file keeps the directories. -/
theorem Removed.sameDirectories {t t' : FileTree} {l : Location} {id : FileId}
    (h : t.Removed t' l id) : t.SameDirectories t' := by
  intro k
  rw [h.get?]
  split
  · rename_i hk
    subst hk
    simp [h.source]
  · rfl

/-! ### Directories that are made -/

/-- A tree that **has grown** from another by directories to which some paths lead. -/
structure Grown (t t' : FileTree) (here : Option Location) (paths : List String) : Prop where
  get? (k : Location) : t'.get? k = t.get? k ∨
    t.get? k = none ∧ t'.get? k = some .directory ∧ ∃ p ∈ paths, t'.locate here p = .ok k
  contents : t'.contents = t.contents

namespace Grown

variable {t u v : FileTree} {here : Option Location} {paths : List String}

/-- A tree has grown by no directory from itself. -/
theorem refl (t : FileTree) (here : Option Location) (paths : List String) :
    t.Grown t here paths :=
  ⟨fun _ => .inl rfl, rfl⟩

/-- Growing keeps all directories. -/
theorem keepsDirectories (h : t.Grown u here paths) : t.KeepsDirectories u := by
  intro k hk
  rcases h.get? k with he | ⟨hnone, -⟩
  · rwa [he]
  · rw [hk] at hnone
    exact absurd hnone (by simp)

/-- A tree that has grown by directories for some paths, and then again, has grown by directories
for them. -/
theorem trans (h : t.Grown u here paths) (h' : u.Grown v here paths) : t.Grown v here paths where
  get? k := by
    rcases h.get? k with he | ⟨hnone, hdirectory, p, hp, hk⟩
    · rcases h'.get? k with he' | ⟨hnone', hmade⟩
      · exact .inl (he'.trans he)
      · exact .inr ⟨he ▸ hnone', hmade⟩
    · exact .inr ⟨hnone, h'.keepsDirectories k hdirectory, p, hp,
        locate_mono h'.keepsDirectories hk⟩
  contents := h'.contents.trans h.contents

/-- Growth by directories for some paths is growth by directories for any more paths. -/
theorem mono {paths' : List String} (h : t.Grown u here paths) (hsub : paths ⊆ paths') :
    t.Grown u here paths' where
  get? k := (h.get? k).imp_right fun ⟨hnone, hmade, p, hp, hk⟩ => ⟨hnone, hmade, p, hsub hp, hk⟩
  contents := h.contents

end Grown

/-- Making a directory makes the one that the path leads to. -/
theorem grown_makeDirectory {t t' : FileTree} {here : Option Location} {path : String}
    (h : t.makeDirectory here path = .ok t') : t.Grown t' here [path] := by
  rw [makeDirectory] at h
  split at h
  · simp at h
  · rename_i l hl
    split at h
    · rename_i hn
      obtain rfl := Except.ok.inj h
      have hin := locate_endsInName hl hn.1
      have hget := t.get?_place (admits_directory hin.1 hin.2.1 hin.2.2)
      have hkeeps : t.KeepsDirectories (t.place l .directory (admits_directory hin.1 hin.2.1 hin.2.2)) := by
        intro k hk
        rw [hget]
        split
        · rfl
        · exact hk
      refine ⟨fun k => ?_, rfl⟩
      by_cases hk : k = l
      · subst hk
        refine .inr ⟨hn.2, by rw [hget, if_pos rfl], path, List.mem_cons_self, ?_⟩
        exact locate_mono hkeeps hl
      · exact .inl (by rw [hget, if_neg hk])
    · simp at h

/-- Making a directory with the parents that it lacks makes only those, even if it fails. -/
theorem grown_makeDirectoriesFrom (t : FileTree) (here : Option Location) (paths : List String) :
    t.Grown (t.makeDirectoriesFrom here paths).2 here paths := by
  induction paths generalizing t with
  | nil => exact .refl t here []
  | cons path parents ih =>
      have hfirst : ∀ {u u' : FileTree}, u.makeDirectory here path = .ok u' →
          u.Grown u' here (path :: parents) := fun h =>
        (grown_makeDirectory h).mono (by simp)
      have hparents : t.Grown (t.makeDirectoriesFrom here parents).2 here (path :: parents) :=
        (ih t).mono (List.subset_cons_self path parents)
      rw [makeDirectoriesFrom]
      split
      · exact .refl t here _
      · simp only
        split
        · rename_i t' h
          exact hfirst h
        · split
          · rename_i e t' h
            rw [h] at hparents
            exact hparents
          · rename_i t' h
            rw [h] at hparents
            split
            · rename_i u h'
              exact hparents.trans (hfirst h')
            · exact hparents
        · exact .refl t here _

/-- **Making directories** makes only those that the path leads through. -/
theorem grown_makeDirectories (t : FileTree) (here : Option Location) (path : String) :
    t.Grown (t.makeDirectories here path).2 here (Path.ancestors path) :=
  grown_makeDirectoriesFrom t here (Path.ancestors path)

end Outreach.FileTree
