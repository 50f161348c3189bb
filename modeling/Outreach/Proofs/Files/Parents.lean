import Outreach.Proofs.Files.Course

/-!
# Directories on the Way

When the directories of a path have been made, the path leads to one. What has been made are
directories that the path leads through. A path can lead up again by `..`, so these need not lie
above the place that it leads to; they do if the path leads up through directories only that are
there.

A write that has ended has moved no file but the temporary one.

## Main results

* `FileTree.isDirectory_makeDirectories`: a directory that has been made is there.
* `Path.prefix_of_mem_ancestors`: the names of a parent are the first ones of the path.
* `FileTree.Grown.get?_join`: making directories makes no name beyond a path that is steady.
* `WriteStage.Reached.get?_file_iff`: which files a write that has ended has moved.
-/

namespace Outreach

/-! ### Parents -/

namespace Path

/-- A path that ends in a dot alone has no parent to speak of. -/
theorem eq_nil_of_split? {path parent : List Char} (h : split? path = some (parent, ['.'])) :
    parent = [] := by
  simp only [split?] at h
  split at h
  · rename_i last before hdrop
    obtain ⟨-, rfl⟩ : _ = parent ∧ last = ['.'] := by simpa using h
    have hhead := List.head_dropWhile_not isSkipped
      (l := (segments (splitLead path).2).reverse) (by rw [hdrop]; simp)
    simp only [hdrop, List.head_cons] at hhead
    simp [isSkipped] at hhead
  · split at h
    · exact (congrArg Prod.fst (Option.some.inj h)).symm
    · simp at h

/-- A path comes first among itself and its parents. -/
theorem withParents_eq_cons (path : List Char) : ∃ parents, withParents path = path :: parents := by
  rw [withParents]
  split <;> exact ⟨_, rfl⟩

/-- A path comes first among its ancestors, so the search upwards begins with it. -/
theorem ancestors_eq_cons (path : String) : ∃ parents, ancestors path = path :: parents := by
  obtain ⟨parents, h⟩ := withParents_eq_cons path.toList
  exact ⟨parents.map String.ofList, by rw [ancestors, h, List.map_cons, String.ofList_toList]⟩

/-- The names of a parent are the first ones of the path, and it starts where the path does. -/
theorem prefix_of_mem_withParents {path parent : List Char} (h : parent ∈ withParents path) :
    FileTree.names (String.ofList parent) <+: FileTree.names (String.ofList path) ∧
      (parent ≠ [] → (parent.head? = some '/' ↔ path.head? = some '/')) := by
  induction path using withParents.induct with
  | case1 path hnone =>
      rw [withParents] at h
      split at h
      · rw [List.mem_singleton.mp h]
        exact ⟨List.prefix_refl _, fun _ => Iff.rfl⟩
      · rename_i hsome
        exact absurd (hnone.symm.trans hsome) (by simp)
  | case2 path front last hsome ih =>
      rw [withParents] at h
      split at h
      · rename_i hnone
        exact absurd (hsome.symm.trans hnone) (by simp)
      · rename_i front' last' hsome'
        obtain ⟨rfl, rfl⟩ := Prod.mk.inj (Option.some.inj (hsome.symm.trans hsome'))
        rcases List.mem_cons.mp h with rfl | h
        · exact ⟨List.prefix_refl _, fun _ => Iff.rfl⟩
        · obtain ⟨hnames, hhead⟩ := ih h
          by_cases hlast : last = ['.']
          · subst hlast
            obtain rfl := eq_nil_of_split? hsome
            have hnone : split? [] = none := rfl
            rw [withParents] at h
            split at h
            · rw [List.mem_singleton.mp h]
              exact ⟨List.nil_prefix, fun hne => absurd rfl hne⟩
            · rename_i hnil
              exact absurd (hnone.symm.trans hnil) (by simp)
          · obtain ⟨between, after, -, -, hsplit⟩ := names_of_split? hsome hlast
            obtain ⟨-, hstart, -⟩ := prefix_of_split? hsome hlast
            exact ⟨hnames.trans (hsplit ▸ List.prefix_append _ _),
              fun hne => (hhead hne).trans hstart⟩

/-- **The names of a parent are the first ones of the path**, and it starts where the path does. -/
theorem prefix_of_mem_ancestors {path parent : String} (h : parent ∈ ancestors path) :
    FileTree.names parent <+: FileTree.names path ∧
      (parent ≠ "" → FileTree.isAbsolute parent = FileTree.isAbsolute path) := by
  obtain ⟨p, hp, rfl⟩ := List.mem_map.mp h
  obtain ⟨hnames, hhead⟩ := prefix_of_mem_withParents hp
  rw [String.ofList_toList] at hnames
  refine ⟨hnames, fun hne => ?_⟩
  have hne' : p ≠ [] := by
    rintro rfl
    exact hne rfl
  rw [FileTree.isAbsolute, FileTree.isAbsolute, String.toList_ofList, Bool.eq_iff_iff, beq_iff_eq,
    beq_iff_eq]
  exact hhead hne'

end Path

/-- The same of the directories that a write behind a path makes. -/
theorem Path.prefix_of_mem_writtenParents {path next parent : String} (hslash : '/' ∉ next.toList)
    (hne : next ≠ "") (hdot : next ≠ ".") (hup : next ≠ "..")
    (h : parent ∈ writtenParents (Path.join path next)) :
    FileTree.names parent <+: FileTree.names path ∧
      (parent ≠ "" → FileTree.isAbsolute parent = FileTree.isAbsolute path) := by
  obtain ⟨front, name, between, hsplit, hname, -, -, hnames⟩ :=
    Path.names_of_endsInName (FileTree.endsInName_join hslash hne hdot hup)
  rw [writtenParents, Path.parent?_of_split? hsplit] at h
  obtain ⟨hinitial, habsolute⟩ := Path.prefix_of_mem_ancestors h
  rw [Path.names_join hslash hne, ← List.append_assoc] at hnames
  have hfront : FileTree.names front <+: FileTree.names path :=
    ⟨between, (List.append_inj' hnames rfl).1.symm⟩
  obtain ⟨-, hhead, -⟩ := Path.prefix_of_split? hsplit fun he => hname (String.toList_inj.mp he)
  have hstart : FileTree.isAbsolute front = FileTree.isAbsolute (Path.join path next) := by
    rw [FileTree.isAbsolute, FileTree.isAbsolute, Bool.eq_iff_iff, beq_iff_eq, beq_iff_eq]
    exact hhead
  rw [Path.isAbsolute_join hslash] at hstart
  exact ⟨hinitial.trans hfront, fun hempty => (habsolute hempty).trans hstart⟩

/-! ### Directories that have been made -/

namespace FileTree

variable {t t' : FileTree} {here : Option Location} {path : String} {start d l : Location}

/-- A directory that has been made is one. -/
theorem isDirectory_makeDirectory (h : t.makeDirectory here path = .ok t') :
    t'.isDirectory here path = true := by
  have hkeeps := (grown_makeDirectory h).keepsDirectories
  rw [makeDirectory] at h
  split at h
  · simp at h
  · rename_i l hl
    split at h
    · obtain rfl := Except.ok.inj h
      exact isDirectory_iff.mpr ⟨l, locate_mono hkeeps hl, by rw [get?_place, if_pos rfl]⟩
    · simp at h

/-- **A directory that has been made is there.** -/
theorem isDirectory_makeDirectories (hne : path ≠ "")
    (h : t.makeDirectories here path = (.ok (), t')) : t'.isDirectory here path = true := by
  obtain ⟨parents, hparents⟩ := Path.ancestors_eq_cons path
  have hfilled : path.isEmpty = false := by simpa using hne
  have hsettle : ∀ {u : FileTree} {e : FileError},
      ((if u.isDirectory here path = true then .ok () else .error e, u) :
        Except FileError Unit × FileTree) = (.ok (), t') → t'.isDirectory here path = true := by
    intro u e hu
    obtain ⟨hok, rfl⟩ := Prod.mk.inj hu
    split at hok
    · assumption
    · simp at hok
  rw [makeDirectories, hparents, makeDirectoriesFrom, hfilled] at h
  simp only [Bool.false_eq_true, if_false] at h
  split at h
  · rename_i u hmade
    exact (Prod.mk.inj h).2 ▸ isDirectory_makeDirectory hmade
  · split at h
    · simp at h
    · split at h
      · rename_i u hmade
        exact (Prod.mk.inj h).2 ▸ isDirectory_makeDirectory hmade
      · exact hsettle h
  · exact hsettle h

/-- Nothing is made for the empty path. -/
theorem makeDirectories_empty (t : FileTree) (here : Option Location) :
    t.makeDirectories here "" = (.ok (), t) := by
  obtain ⟨parents, hparents⟩ := Path.ancestors_eq_cons ""
  rw [makeDirectories, hparents, makeDirectoriesFrom]
  rfl

/-! ### Paths that do not lead up -/

/-- A name other than the one for the parent leads to the same place or further down. -/
theorem prefix_of_step {name : String} (hup : name ≠ "..") (h : t.step start name = .ok l) :
    start <+: l := by
  by_cases hdot : name = "."
  · subst hdot
    rw [step] at h
    split at h <;> simp at h
    exact h ▸ List.prefix_refl _
  · rw [(step_eq_append h hdot hup).1]
    exact List.prefix_append _ _

/-- What names without `..` lead to lies below where they start. -/
theorem prefix_of_foldlM {names : List String} (hup : ".." ∉ names)
    (h : names.foldlM t.step start = .ok l) : start <+: l := by
  induction names generalizing start with
  | nil => exact Except.ok.inj h ▸ List.prefix_refl _
  | cons name names ih =>
      rw [List.mem_cons, not_or] at hup
      rw [← List.singleton_append, foldlM_append_eq_ok] at h
      obtain ⟨m, hstep, hfold⟩ := h
      exact (prefix_of_step (Ne.symm hup.1) (foldlM_singleton_eq_ok.mp hstep)).trans
        (ih hup.2 hfold)

/-- Names without `..` lead to a directory in every tree in which it is one. -/
theorem foldlM_of_directory {names : List String} (hup : ".." ∉ names)
    (h : names.foldlM t'.step start = .ok l) (hl : t.get? l = some .directory) :
    names.foldlM t.step start = .ok l := by
  induction names generalizing start with
  | nil => exact h
  | cons name names ih =>
      have hbelow := prefix_of_foldlM hup h
      rw [List.mem_cons, not_or] at hup
      rw [← List.singleton_append, foldlM_append_eq_ok] at h ⊢
      obtain ⟨m, hstep, hfold⟩ := h
      have hthere := t.get?_of_prefix_directory hbelow hl
      refine ⟨m, foldlM_singleton_eq_ok.mpr ?_, ih hup.2 hfold⟩
      replace hstep := foldlM_singleton_eq_ok.mp hstep
      have hthere' : t'.get? start = some .directory := by
        rw [step] at hstep
        split at hstep
        · simp at hstep
        · simp at hstep
        · assumption
      simpa [step, hthere, hthere'] using hstep

/-- A path is **steady** if it leads up, by `..`, through directories only that are there. Making
directories then does not lead it elsewhere. -/
def IsSteady (t : FileTree) (here : Option Location) (path : String) : Prop :=
  ∃ up down, names path = up ++ down ∧ ".." ∉ down ∧
    ∀ start, (if isAbsolute path then some [] else here) = some start →
      ∃ m, up.foldlM t.step start = .ok m

namespace IsSteady

variable {next p : String}

/-- A path that does not lead up is steady. -/
theorem of_notMem (hup : ".." ∉ names path) : t.IsSteady here path :=
  ⟨[], names path, rfl, hup, fun start _ => ⟨start, rfl⟩⟩

/-- The path of a directory is steady. -/
theorem of_isDirectory (h : t.isDirectory here path = true) : t.IsSteady here path := by
  obtain ⟨l, hl, -⟩ := isDirectory_iff.mp h
  obtain ⟨-, -, -, start, hstart, hfold⟩ := locate_eq_ok_iff.mp hl
  refine ⟨names path, [], (List.append_nil _).symm, List.not_mem_nil, fun start' hstart' => ?_⟩
  obtain rfl := Option.some.inj (hstart.symm.trans hstart')
  exact ⟨l, hfold⟩

/-- **What is there stays where it is**: a name behind a steady path that leads to it in a tree with
more directories leads to it before. -/
theorem locate_join (h : t.IsSteady here path) (hkeeps : t.KeepsDirectories t')
    (hslash : '/' ∉ next.toList) (hne : next ≠ "") (hup : next ≠ "..") (hdot : next ≠ ".")
    (hl : t'.locate here (Path.join path next) = .ok l) (hget : t.get? l ≠ none) :
    t.locate here (Path.join path next) = .ok l := by
  obtain ⟨hnull, hempty, hlimit, start, hstart, hfold⟩ := locate_eq_ok_iff.mp hl
  rw [Path.names_join hslash hne, foldlM_append_eq_ok] at hfold
  obtain ⟨d, hpath, hlast⟩ := hfold
  have hstep := foldlM_singleton_eq_ok.mp hlast
  obtain ⟨rfl, hd', -⟩ := step_eq_append hstep hdot hup
  obtain ⟨e, he⟩ := Option.ne_none_iff_exists'.mp hget
  have hd := t.rooted _ e he
  rw [List.dropLast_concat] at hd
  change t.get? d = some .directory at hd
  refine locate_eq_ok_iff.mpr ⟨hnull, hempty, hlimit, start, hstart, ?_⟩
  rw [Path.names_join hslash hne, foldlM_append_eq_ok]
  refine ⟨d, ?_, foldlM_singleton_eq_ok.mpr (by simpa [step, hd, hd'] using hstep)⟩
  obtain ⟨up, down, hnames, hdown, hthere⟩ := h
  obtain ⟨m, hm⟩ := hthere start (Path.isAbsolute_join hslash ▸ hstart)
  rw [hnames, foldlM_append_eq_ok] at hpath ⊢
  obtain ⟨m', hm', hfold⟩ := hpath
  obtain rfl := Except.ok.inj ((foldlM_step_mono hkeeps hm).symm.trans hm')
  exact ⟨m, hm, foldlM_of_directory hdown hfold hd⟩

/-- **What has been made on the way lies above the place that a steady path leads to.** -/
theorem locate_ne (h : t.IsSteady here path) (hkeeps : t.KeepsDirectories t')
    (hslash : '/' ∉ next.toList) (hne : next ≠ "") (hup : next ≠ "..") (hdot : next ≠ ".")
    (hl : t'.locate here (Path.join path next) = .ok l) (hget : t.get? l = none)
    (hnames : names p <+: names path) (habsolute : p ≠ "" → isAbsolute p = isAbsolute path) :
    t'.locate here p ≠ .ok l := by
  intro hlocated
  obtain ⟨-, -, -, start, hstart, hfold⟩ := locate_eq_ok_iff.mp hl
  rw [Path.names_join hslash hne, foldlM_append_eq_ok] at hfold
  obtain ⟨d, hpath, hlast⟩ := hfold
  obtain ⟨rfl, -⟩ := step_eq_append (foldlM_singleton_eq_ok.mp hlast) hdot hup
  obtain ⟨-, hfilled, -, start', hstart', hfold'⟩ := locate_eq_ok_iff.mp hlocated
  have hne' : p ≠ "" := by
    rintro rfl
    simp at hfilled
  rw [Path.isAbsolute_join hslash] at hstart
  rw [habsolute hne'] at hstart'
  obtain rfl := Option.some.inj (hstart.symm.trans hstart')
  obtain ⟨rest, hrest⟩ := hnames
  rw [← hrest, foldlM_append_eq_ok] at hpath
  obtain ⟨m, hm, hrest'⟩ := hpath
  obtain rfl := Except.ok.inj (hfold'.symm.trans hm)
  obtain ⟨up, down, hsplit, hdown, hthere⟩ := h
  rcases List.append_eq_append_iff.mp (hrest.trans hsplit) with
    ⟨between, rfl, rfl⟩ | ⟨between, hp, rfl⟩
  · cases between with
    | nil =>
        -- nothing of the rest leads up, so it leads further down
        have hlength := (prefix_of_foldlM hdown hrest').length_le
        simp only [List.length_append, List.length_singleton] at hlength
        omega
    | cons name between =>
        -- the path goes on from there in the old tree, which has nothing there
        obtain ⟨m, hm⟩ := hthere start hstart
        rw [← List.singleton_append, foldlM_append_eq_ok] at hm
        obtain ⟨k, hk, hon⟩ := hm
        obtain rfl := Except.ok.inj ((foldlM_step_mono hkeeps hk).symm.trans hfold')
        rw [foldlM_append_eq_ok] at hon
        obtain ⟨k', hk', -⟩ := hon
        have hstep := foldlM_singleton_eq_ok.mp hk'
        simp [step, hget] at hstep
  · have hrestUp : ".." ∉ rest := fun hmem => hdown (List.mem_append_right _ hmem)
    have hlength := (prefix_of_foldlM hrestUp hrest').length_le
    simp only [List.length_append, List.length_singleton] at hlength
    omega

end IsSteady

/-- **Making the directories of a path makes no name beyond it**, if the path is steady. -/
theorem Grown.get?_join {next : String} (h : t.Grown t' here (Path.ancestors path))
    (hsteady : t.IsSteady here path) (hslash : '/' ∉ next.toList) (hne : next ≠ "")
    (hup : next ≠ "..") (hdot : next ≠ ".")
    (hl : t'.locate here (Path.join path next) = .ok l) (hget : t'.get? l ≠ none) :
    t.locate here (Path.join path next) = .ok l ∧ t.get? l ≠ none := by
  rcases h.get? l with hsame | ⟨hnone, -, p, hp, hlocated⟩
  · rw [hsame] at hget
    exact ⟨hsteady.locate_join h.keepsDirectories hslash hne hup hdot hl hget, hget⟩
  · obtain ⟨hnames, habsolute⟩ := Path.prefix_of_mem_ancestors hp
    exact absurd hlocated
      (hsteady.locate_ne h.keepsDirectories hslash hne hup hdot hl hnone hnames habsolute)

/-- From a directory a path leads on to a short name if some tree finds the longer path
acceptable. -/
theorem locate_join_of_directory {next : String} (hslash : '/' ∉ next.toList) (hne : next ≠ "")
    (hdot : next ≠ ".") (hup : next ≠ "..") (hshort : next.utf8ByteSize ≤ nameLimit)
    (hd : t.locate here path = .ok d) (hdirectory : t.get? d = some .directory)
    (hl : t'.locate here (Path.join path next) = .ok l) :
    t.locate here (Path.join path next) = .ok (d ++ [next]) := by
  obtain ⟨hnull, hempty, hlimit, -⟩ := locate_eq_ok_iff.mp hl
  obtain ⟨-, -, -, start, hstart, hfold⟩ := locate_eq_ok_iff.mp hd
  refine locate_eq_ok_iff.mpr ⟨hnull, hempty, hlimit, start, ?_, ?_⟩
  · rwa [Path.isAbsolute_join hslash]
  · rw [Path.names_join hslash hne, foldlM_append_eq_ok]
    refine ⟨d, hfold, foldlM_singleton_eq_ok.mpr ?_⟩
    simp [step, hdirectory, hdot, hup, Nat.not_lt.mpr hshort]

end FileTree

/-! ### Which files a write moves -/

namespace WriteStage.Reached

variable {w v : World} {path : String} {bytes : ByteArray} {k l m : Location} {id : FileId}

/-- A location that is not that of the temporary name is another one. -/
theorem ne_of_temporaryAt (hl : TemporaryAt v path l) (hk : ¬ TemporaryAt v path k) : k ≠ l := by
  rintro rfl
  exact hk hl

/-- A location that a path does not lead to is another one than that it leads to. -/
theorem ne_of_locate (hl : v.files.locate v.workingDirectory path = .ok l)
    (hk : v.files.locate v.workingDirectory path ≠ .ok k) : k ≠ l := by
  rintro rfl
  exact hk hl

/-- **A write that has ended has moved no file** but the temporary one. -/
theorem get?_file_iff {result : Except Failure Unit} (h : Reached w path bytes (ended result) v)
    (hk : v.files.locate v.workingDirectory path ≠ .ok k) (htemporary : ¬ TemporaryAt v path k) :
    v.files.get? k = some (.file id) ↔ w.files.get? k = some (.file id) := by
  cases h with
  | unopened _ hgrown => exact hgrown.get?_file_iff
  | replaced hopened hhere htarget _ hmoved =>
      have hsame := (FileTree.SameDirectories.setContent _ _ _).trans hmoved.sameDirectories
      have hl := ne_of_temporaryAt (hopened.temporaryAt hhere hsame) htemporary
      have hl' := ne_of_locate (hhere ▸ hsame.locate_eq_ok_iff.mpr htarget) hk
      rw [hmoved.get?_of_ne hl hl', FileTree.get?_setContent, hopened.opened.get?, if_neg hl]
      exact hopened.grown.get?_file_iff
  | removed hopened hhere _ hremoved =>
      have hsame := (FileTree.SameDirectories.setContent _ _ _).trans hremoved.sameDirectories
      have hl := ne_of_temporaryAt (hopened.temporaryAt hhere hsame) htemporary
      rw [hremoved.get?, if_neg hl, FileTree.get?_setContent, hopened.opened.get?, if_neg hl]
      exact hopened.grown.get?_file_iff

/-- **A write that has failed has made directories at most**, at all but the temporary name. -/
theorem get?_of_failed {failure : Failure} (h : Reached w path bytes (ended (.error failure)) v)
    (hk : ¬ TemporaryAt v path k) :
    v.files.get? k = w.files.get? k ∨ w.files.get? k = none ∧
      ∃ p ∈ writtenParents path, v.files.locate v.workingDirectory p = .ok k := by
  cases h with
  | unopened hhere hgrown =>
      rw [hhere]
      exact (hgrown.get? k).imp_right fun ⟨hnone, _, hmade⟩ => ⟨hnone, hmade⟩
  | removed hopened hhere _ hremoved =>
      have hsame := (FileTree.SameDirectories.setContent _ _ _).trans hremoved.sameDirectories
      have hl := ne_of_temporaryAt (hopened.temporaryAt hhere hsame) hk
      rw [hremoved.get?, if_neg hl, FileTree.get?_setContent, hopened.opened.get?, if_neg hl]
      refine (hopened.grown.get? k).imp_right fun ⟨hnone, _, p, hp, hlocated⟩ => ⟨hnone, p, hp, ?_⟩
      rw [hhere]
      exact (hopened.opened.sameDirectories.trans hsame).locate_eq_ok_iff.mpr hlocated

/-- What shares its file with the target of a write that is done shared it with the temporary
name. -/
theorem formerTemporary_of_sharesFile (h : Reached w path bytes (ended (.ok ())) v)
    (hk : v.files.locate v.workingDirectory path = .ok k) (hne : m ≠ k)
    (htemporary : ¬ TemporaryAt v path m) (hshares : v.files.SharesFile k m) :
    FormerTemporary w v path m := by
  cases h with
  | @replaced _ _ t u l l' id id' hopened hhere htarget _ hmoved =>
      have hsame := (FileTree.SameDirectories.setContent u id bytes).trans hmoved.sameDirectories
      have hl := hopened.temporaryAt hhere hsame
      have hml := ne_of_temporaryAt hl htemporary
      rw [hhere, hsame.locate_eq_ok_iff.mpr htarget] at hk
      obtain rfl := Except.ok.inj hk
      obtain ⟨i, hi, hm⟩ := hshares
      rw [hmoved.get?, if_pos rfl] at hi
      obtain rfl := FileEntry.file.inj (Option.some.inj hi)
      have hid := hmoved.source
      rw [FileTree.get?_setContent, hopened.opened.get?, if_pos rfl] at hid
      obtain rfl := FileEntry.file.inj (Option.some.inj hid)
      rw [hmoved.get?_of_ne hml hne, FileTree.get?_setContent, hopened.opened.get?, if_neg hml]
        at hm
      refine ⟨l, hl, id, hopened.grown.get?_file_iff.mp hm, ?_⟩
      rcases hopened.opened.known with hknown | ⟨-, hnew⟩
      · exact hopened.grown.get?_file_iff.mp hknown
      · exact absurd (t.held m id hm) (Nat.not_lt.mpr hnew)

end WriteStage.Reached

end Outreach
