import Mathlib.Data.List.DropRight
import Outreach.Proofs.Files.Parents

/-!
# Parents of Straight Paths

A straight path starts at the root and holds no dots. Whatever it leads to has the names of the
path, however many slashes it is written with; only its length can keep it from being looked up. Its
parents are cut out of its text, so they keep the slashes that it was written with, except those
behind the last name.

## Main results

* `Path.split?_join_join`: the parent of a path that leads on by two names.
* `Path.IsStraight.names_of_split?`: the names of a straight path and those of its parent.
* `FileTree.isDirectory_iff_of_isStraight`: when a straight path stands for a directory.
-/

namespace Outreach

namespace Path

variable {path next name : String} {body cs last : List Char} {ss : List (List Char)}
  {l : Location}

/-! ### Proper names -/

/-- A proper name is not skipped when a path is taken apart. -/
theorem IsProper.isSkipped (h : IsProper name) : isSkipped name.toList = false := by
  have hempty : name.toList ≠ [] := mt String.toList_eq_nil_iff.mp h.filled
  have hdot : name.toList ≠ ['.'] := fun he => h.dot (String.toList_inj.mp he)
  simp [Path.isSkipped, hempty, hdot]

/-- A **straight** path: it starts at the root and has no dots for names. -/
structure IsStraight (path : String) : Prop where
  absolute : FileTree.isAbsolute path = true
  dot : "." ∉ FileTree.names path
  up : ".." ∉ FileTree.names path

/-- A character of a path is a slash or stands in one of its names. -/
theorem exists_mem_names {c : Char} (hc : c ≠ '/') (h : c ∈ path.toList) :
    ∃ n ∈ FileTree.names path, c ∈ n.toList := by
  have hsegments : ∀ cs : List Char, c ∈ cs → ∃ s ∈ segments cs, c ∈ s := by
    intro cs hmem
    induction cs with
    | nil => exact absurd hmem List.not_mem_nil
    | cons d cs ih =>
        rw [segments]
        split
        · rename_i hd
          obtain ⟨s, hs, hmem⟩ := ih ((List.mem_cons.mp hmem).resolve_left (hd ▸ hc))
          exact ⟨s, List.mem_cons_of_mem _ hs, hmem⟩
        · rcases hs : segments cs with - | ⟨s, ss⟩
          · exact absurd hs (segments_ne_nil cs)
          · rw [hs] at ih
            rcases List.mem_cons.mp hmem with rfl | hmem
            · exact ⟨_, List.mem_cons_self, List.mem_cons_self⟩
            · obtain ⟨u, hu, hmem⟩ := ih hmem
              rcases List.mem_cons.mp hu with rfl | hu
              · exact ⟨_, List.mem_cons_self, List.mem_cons_of_mem d hmem⟩
              · exact ⟨u, List.mem_cons_of_mem _ hu, hmem⟩
  obtain ⟨s, hs, hmem⟩ := hsegments _ h
  have hne : (s != []) = true := bne_iff_ne.mpr (List.ne_nil_of_mem hmem)
  exact ⟨String.ofList s, List.mem_map_of_mem (List.mem_filter.mpr ⟨hs, hne⟩), by simpa⟩

/-! ### Parents of absolute paths -/

/-- A path is absolute if its first character is a slash. -/
theorem isAbsolute_iff : FileTree.isAbsolute path = true ↔ ∃ body, path.toList = '/' :: body := by
  rw [FileTree.isAbsolute, beq_iff_eq, List.head?_eq_some_iff]

/-- An absolute path is split at the last of its pieces that counts. -/
theorem split?_of_segments {after : List (List Char)}
    (h : segments body = ss ++ last :: after) (hlast : isSkipped last = false)
    (hafter : ∀ s ∈ after, isSkipped s = true) :
    split? ('/' :: body) = some ('/' :: joinSegments (ss.rdropWhile isSkipped), last) := by
  have hdrop : (segments body).reverse.dropWhile isSkipped = last :: ss.reverse := by
    rw [h, List.reverse_append, List.reverse_cons, List.append_assoc,
      List.dropWhile_append_of_pos fun s hs => hafter s (List.mem_reverse.mp hs),
      List.singleton_append, List.dropWhile_cons_of_neg (by simp [hlast])]
  simp only [split?, splitLead, hdrop]
  rfl

/-- Where an absolute path is split does not depend on the last pieces that count for nothing. -/
theorem split?_congr {body' : List Char}
    (h : (segments body).reverse.dropWhile isSkipped =
      (segments body').reverse.dropWhile isSkipped) :
    split? ('/' :: body) = split? ('/' :: body') := by
  simp only [split?, splitLead, h]

/-- A path that leads on by a name has, in front of the name, the pieces of the path; if the path
ends in a slash, the empty piece behind it is not among them. -/
theorem exists_segments_join (hpath : path.toList = '/' :: body) (hnext : IsProper next) :
    ∃ rest ss, (join path next).toList = '/' :: rest ∧ segments rest = ss ++ [next.toList] ∧
      joinSegments ss <+: body ∧
      (ss = segments body ∨
        FileTree.wantsDirectory path = true ∧ segments body = ss ++ [[]]) := by
  have hhead : next.toList.head? ≠ some '/' := fun h => hnext.slash (List.mem_of_head? h)
  have hempty : path.isEmpty = false := by
    rw [← Bool.not_eq_true, String.isEmpty_iff]
    rintro rfl
    simp at hpath
  rw [join, if_neg (by simp [hhead, hempty])]
  split
  · rename_i hslashed
    have hwants : FileTree.wantsDirectory path = true := by simp [FileTree.wantsDirectory, hslashed]
    have hrest : (path ++ next).toList = '/' :: (body ++ next.toList) := by
      rw [String.toList_append, hpath, List.cons_append]
    rcases List.eq_nil_or_concat body with rfl | ⟨front, c, rfl⟩
    · refine ⟨_, [], hrest, ?_, List.nil_prefix, .inr ⟨hwants, rfl⟩⟩
      exact segments_of_slash_notMem hnext.slash
    · obtain rfl : c = '/' := by simpa [hpath, List.getLast?_cons] using hslashed
      rw [List.concat_eq_append] at hrest ⊢
      refine ⟨_, segments front, hrest, ?_, ?_, .inr ⟨hwants, segments_append_slash front []⟩⟩
      · rw [List.append_assoc, List.singleton_append, segments_append_slash,
          segments_of_slash_notMem hnext.slash]
      · rw [joinSegments_segments]
        exact List.prefix_append _ _
  · refine ⟨body ++ '/' :: next.toList, segments body, ?_, ?_, ?_, .inl rfl⟩
    · simp [String.toList_append, hpath]
    · rw [segments_append_slash, segments_of_slash_notMem hnext.slash]
    · exact (joinSegments_segments body).symm ▸ List.prefix_rfl

/-- The pieces of a text from which the last ones that count for nothing have been cut off. -/
theorem dropWhile_segments_joinSegments (h : ∀ s ∈ ss, '/' ∉ s) :
    (segments (joinSegments (ss.rdropWhile isSkipped))).reverse.dropWhile isSkipped =
      ss.reverse.dropWhile isSkipped := by
  have hreverse : (ss.rdropWhile isSkipped).reverse = ss.reverse.dropWhile isSkipped := by
    rw [List.rdropWhile, List.reverse_reverse]
  by_cases hkept : ss.rdropWhile isSkipped = []
  · rw [← hreverse, hkept]
    rfl
  · rw [segments_joinSegments hkept fun s hs => h s ((List.rdropWhile_prefix _ ss).subset hs),
      hreverse, List.dropWhile_idempotent]

/-- The parent of a path that leads on by a name is the path, without the slashes at its end. -/
theorem exists_split?_join (hpath : FileTree.isAbsolute path = true) (hnext : IsProper next) :
    ∃ parent : String, split? (join path next).toList = some (parent.toList, next.toList) ∧
      parent.toList <+: path.toList ∧ split? parent.toList = split? path.toList := by
  obtain ⟨body, hbody⟩ := isAbsolute_iff.mp hpath
  obtain ⟨rest, ss, hjoin, hsegments, hfront, hpieces⟩ := exists_segments_join hbody hnext
  refine ⟨String.ofList ('/' :: joinSegments (ss.rdropWhile isSkipped)), ?_, ?_, ?_⟩
  · rw [hjoin, split?_of_segments hsegments hnext.isSkipped nofun, String.toList_ofList]
  · obtain ⟨after, hafter⟩ := List.rdropWhile_prefix isSkipped ss
    have hbegins := joinSegments_prefix_append (ss.rdropWhile isSkipped) after
    rw [hafter] at hbegins
    rw [String.toList_ofList, hbody]
    exact List.cons_prefix_cons.mpr ⟨rfl, hbegins.trans hfront⟩
  · have hslash : ∀ s ∈ ss, '/' ∉ s := fun s hs => by
      have hmem : s ∈ segments rest := hsegments ▸ List.mem_append_left _ hs
      exact slash_notMem_of_mem_segments hmem
    rw [String.toList_ofList, hbody]
    refine split?_congr ((dropWhile_segments_joinSegments hslash).trans ?_)
    rcases hpieces with rfl | ⟨-, hpieces⟩
    · rfl
    · rw [hpieces, List.reverse_append]
      rfl

/-- **The parent of a path that leads on** by two names is the path that leads on by the first. -/
theorem split?_join_join (hpath : FileTree.isAbsolute path = true) (hname : IsProper name)
    (hnext : IsProper next) :
    split? (join (join path name) next).toList =
      some ((join path name).toList, next.toList) := by
  obtain ⟨body, hbody⟩ := isAbsolute_iff.mp hpath
  obtain ⟨rest, ss, hjoin, hsegments, -⟩ := exists_segments_join hbody hname
  obtain ⟨rest', ss', hjoin', hsegments', -, hwhole⟩ := exists_segments_join hjoin hnext
  have hpieces : ss' = segments rest := hwhole.resolve_right fun h =>
    absurd h.1 (by simp [FileTree.wantsDirectory_join hname.slash hname.filled])
  have hkept : ss'.rdropWhile isSkipped = segments rest := by
    rw [hpieces, hsegments, List.rdropWhile_concat_neg]
    simp [hname.isSkipped]
  rw [hjoin', split?_of_segments hsegments' hnext.isSkipped nofun, hkept, joinSegments_segments,
    hjoin]

/-- A path that leads on by a proper name from a straight one is straight. -/
theorem IsStraight.join (hpath : IsStraight path) (hnext : IsProper next) :
    IsStraight (Path.join path next) := by
  have hnames : FileTree.names (Path.join path next) = FileTree.names path ++ [next] :=
    names_join hnext.slash hnext.filled
  refine ⟨?_, ?_, ?_⟩
  · rw [isAbsolute_join hnext.slash]
    exact hpath.absolute
  · simp [hnames, hpath.dot, Ne.symm hnext.dot]
  · simp [hnames, hpath.up, Ne.symm hnext.up]

/-- **The names of a straight path** are those of its parent, which is straight and the beginning
of it, and its own. -/
theorem IsStraight.names_of_split? {parent : String} (hpath : IsStraight path)
    (h : split? path.toList = some (parent.toList, name.toList)) :
    FileTree.names path = FileTree.names parent ++ [name] ∧ IsStraight parent ∧
      parent.toList <+: path.toList := by
  obtain ⟨body, hbody⟩ := isAbsolute_iff.mp hpath.absolute
  have hname : name.toList ≠ ['.'] := by
    intro hdot
    rw [hdot] at h
    have hparent := eq_nil_of_split? h
    rw [hbody, split?] at h
    simp only [splitLead] at h
    split at h
    · simp [hparent] at h
    · simp at h
  obtain ⟨between, after, hbetween, hafter, hnames⟩ := Path.names_of_split? h hname
  obtain ⟨hinitial, hstart, -⟩ := prefix_of_split? h hname
  rw [String.ofList_toList, String.ofList_toList, String.ofList_toList] at hnames
  obtain rfl : between = [] := List.eq_nil_iff_forall_not_mem.mpr fun n hn => by
    obtain rfl := hbetween n hn
    exact hpath.dot (by simp [hnames, hn])
  obtain rfl : after = [] := List.eq_nil_iff_forall_not_mem.mpr fun n hn => by
    obtain rfl := hafter n hn
    exact hpath.dot (by simp [hnames, hn])
  have hmem : ∀ n ∈ FileTree.names parent, n ∈ FileTree.names path := fun n hn =>
    hnames ▸ List.mem_append_left _ hn
  refine ⟨hnames, ⟨?_, mt (hmem _) hpath.dot, mt (hmem _) hpath.up⟩, hinitial⟩
  rw [FileTree.isAbsolute, beq_iff_eq]
  exact hstart.mpr (by rw [hbody]; rfl)

/-- A straight path that is not split has no names. -/
theorem IsStraight.names_of_split?_eq_none (hpath : IsStraight path)
    (h : split? path.toList = none) : FileTree.names path = [] := by
  refine List.eq_nil_iff_forall_not_mem.mpr fun n hn => ?_
  have htext : String.ofList path.toList = path := String.ofList_toList
  have hdot : n = "." := eq_dot_of_split?
    (fun parent last hsome => absurd (h.symm.trans hsome) (by simp)) (by rwa [htext])
  exact hpath.dot (hdot ▸ hn)

/-- The ancestors of a path that splits are itself and those of its parent. -/
theorem ancestors_of_split? {parent : String}
    (h : split? path.toList = some (parent.toList, last)) :
    ancestors path = path :: ancestors parent := by
  rw [ancestors, withParents]
  split
  · rename_i hnone
    exact absurd (hnone.symm.trans h) (by simp)
  · rename_i front last' hsome
    obtain ⟨rfl, -⟩ := Prod.mk.inj (Option.some.inj (hsome.symm.trans h))
    rw [List.map_cons, String.ofList_toList]
    rfl

/-- A path that does not split has no ancestor but itself. -/
theorem ancestors_of_split?_eq_none (h : split? path.toList = none) : ancestors path = [path] := by
  rw [ancestors, withParents]
  split
  · rw [List.map_singleton, String.ofList_toList]
  · rename_i hsome
    exact absurd (h.symm.trans hsome) (by simp)

/-- Two paths that are split alike have the same parents, themselves apart. -/
theorem mem_ancestors_of_split?_eq {parent : String} (h : split? next.toList = split? path.toList)
    (hmem : parent ∈ ancestors next) : parent = next ∨ parent ∈ ancestors path := by
  rcases hsplit : split? path.toList with - | ⟨front, last⟩
  · rw [ancestors_of_split?_eq_none (h.trans hsplit), List.mem_singleton] at hmem
    exact .inl hmem
  · rw [← String.toList_ofList (l := front)] at hsplit
    rw [ancestors_of_split? (h.trans hsplit), List.mem_cons] at hmem
    rw [ancestors_of_split? hsplit]
    exact hmem.imp_right (List.mem_cons_of_mem path)

/-- What holds of paths without a parent, and of a path if it holds of its parent, holds of all. -/
theorem parentInduction {motive : String → Prop}
    (root : ∀ path, split? path.toList = none → motive path)
    (step : ∀ path parent name : String,
      split? path.toList = some (parent.toList, name.toList) → motive parent → motive path)
    (path : String) : motive path := by
  rcases h : split? path.toList with - | ⟨parent, name⟩
  · exact root path h
  · have hshorter := length_of_split? h
    refine step path (String.ofList parent) (String.ofList name) ?_
      (parentInduction root step (String.ofList parent))
    rw [h, String.toList_ofList, String.toList_ofList]
termination_by path.toList.length
decreasing_by simpa using hshorter

/-- The parents of a straight path are straight. -/
theorem IsStraight.of_mem_ancestors {parent : String} (hpath : IsStraight path)
    (h : parent ∈ ancestors path) : IsStraight parent := by
  induction path using parentInduction with
  | root path hnone =>
      rw [ancestors_of_split?_eq_none hnone, List.mem_singleton] at h
      exact h ▸ hpath
  | step path front name hsplit ih =>
      rw [ancestors_of_split? hsplit, List.mem_cons] at h
      rcases h with rfl | h
      · exact hpath
      · exact ih (hpath.names_of_split? hsplit).2.1 h

/-- A path that leads on by proper names has them behind its own. -/
theorem names_foldl_join {ns : List String} (hns : ∀ n ∈ ns, IsProper n) :
    FileTree.names (ns.foldl join path) = FileTree.names path ++ ns := by
  induction ns generalizing path with
  | nil => simp
  | cons n ns ih =>
      obtain ⟨hn, hns⟩ := List.forall_mem_cons.mp hns
      rw [List.foldl_cons, ih hns, names_join hn.slash hn.filled, List.append_assoc]
      rfl

/-- Proper names put behind a straight path, one after the other, give a straight path. -/
theorem IsStraight.foldl_join {ns : List String} (hpath : IsStraight path)
    (hns : ∀ n ∈ ns, IsProper n) : IsStraight (ns.foldl Path.join path) := by
  induction ns generalizing path with
  | nil => exact hpath
  | cons n ns ih =>
      obtain ⟨hn, hns⟩ := List.forall_mem_cons.mp hns
      exact ih (hpath.join hn) hns

end Path

/-! ### What a straight path stands for -/

namespace FileTree

variable {t : FileTree} {here : Option Location} {path : String} {d l : Location}

/-- Names without dots that lead somewhere lead to themselves. -/
theorem eq_append_of_foldlM {ns : List String} (hdot : "." ∉ ns) (hup : ".." ∉ ns)
    (h : ns.foldlM t.step d = .ok l) : l = d ++ ns := by
  induction ns generalizing d with
  | nil =>
      rw [List.append_nil]
      exact (Except.ok.inj h).symm
  | cons n ns ih =>
      rw [List.mem_cons, not_or] at hdot hup
      rw [← List.singleton_append, foldlM_append_eq_ok] at h
      obtain ⟨m, hm, hfold⟩ := h
      obtain ⟨rfl, -⟩ := step_eq_append (foldlM_singleton_eq_ok.mp hm) (Ne.symm hdot.1)
        (Ne.symm hup.1)
      rw [ih hdot.2 hup.2 hfold, List.append_assoc, List.singleton_append]

/-- **The names of a directory lead to it.** -/
theorem foldlM_step_of_directory {ns : List String} (h : t.get? (d ++ ns) = some .directory) :
    ns.foldlM t.step d = .ok (d ++ ns) := by
  induction ns generalizing d with
  | nil => rw [List.append_nil]; rfl
  | cons n ns ih =>
      have hd := t.get?_of_prefix_directory (List.prefix_append d (n :: ns)) h
      have hn := t.named _ _ h n (by simp)
      have hstep : t.step d n = .ok (d ++ [n]) := by
        simp [step, hd, hn.dot, hn.up, Nat.not_lt.mpr hn.short]
      rw [← List.singleton_append, ← List.append_assoc] at h ⊢
      exact foldlM_append_eq_ok.mpr ⟨_, foldlM_singleton_eq_ok.mpr hstep, ih h⟩

/-- **What a straight path stands for**: a directory if its names lead to one, and it is not too
long to be looked up. -/
theorem isDirectory_iff_of_isStraight (hpath : Path.IsStraight path) :
    t.isDirectory here path = true ↔
      path.utf8ByteSize < pathLimit ∧ t.get? (names path) = some .directory := by
  have habsolute := hpath.absolute
  rw [isDirectory_iff]
  constructor
  · rintro ⟨l, hl, hget⟩
    obtain ⟨-, -, hshort, start, hstart, hfold⟩ := locate_eq_ok_iff.mp hl
    rw [habsolute, if_pos rfl] at hstart
    obtain rfl := Option.some.inj hstart
    obtain rfl := eq_append_of_foldlM hpath.dot hpath.up hfold
    exact ⟨Nat.not_le.mp hshort, hget⟩
  · rintro ⟨hshort, hget⟩
    refine ⟨names path, locate_eq_ok_iff.mpr
      ⟨?_, ?_, Nat.not_le.mpr hshort, [], by rw [habsolute, if_pos rfl], ?_⟩, hget⟩
    · rw [← Bool.not_eq_true, List.contains_iff_mem]
      intro hmem
      obtain ⟨n, hn, hnull⟩ := Path.exists_mem_names (by decide) hmem
      exact (t.named _ _ hget n hn).null hnull
    · obtain ⟨body, hbody⟩ := Path.isAbsolute_iff.mp habsolute
      rw [← Bool.not_eq_true, String.isEmpty_iff]
      rintro rfl
      simp at hbody
    · exact foldlM_step_of_directory hget

end FileTree

end Outreach
