import Outreach.Proofs.Commands.Observation
import Outreach.Proofs.Commands.Scaffold
import Outreach.Proofs.Files.Ancestors

/-!
# Finding the Data Directory

The data directory of a working directory is that of the nearest location on the way up that holds
one. Once it has been made it is found again, and also from further in, as long as no data directory
lies between.

A location holds a data directory by what stands in the tree; what is found depends on paths, and a
path may be too long to be looked up. Then what it holds is not seen. If it is so long only because
of the slashes at its end, it is seen from further in, where these are not needed any more.

## Main results

* `DataDirectory.firstHolder?_cases`: the parent that is found is the nearest that holds a data
  directory.
* `DataDirectory.finds_nearest`: **the data directory that is found** is the nearest one, or that of
  the working directory, and stays it.
-/

namespace Outreach.DataDirectory

open FileTree (names)

variable {w v : World} {here path : String} {l k m : Location} {ns : List String}

/-! ### Locations that hold a data directory -/

/-- The name of a data directory can be the name of an entry: it has no slash and no meaning of
its own. -/
theorem isProper_name : Path.IsProper name :=
  ⟨by decide, by decide, by decide, by decide⟩

/-- The name of a data directory, put behind a path, comes last among the names of the whole path.
-/
theorem names_join_name (path : String) : names (Path.join path name) = names path ++ [name] :=
  Path.names_join isProper_name.slash isProper_name.filled

/-- A location **holds** a data directory if a directory of the name `.kolmsg` stands in it. -/
def Holds (w : World) (l : Location) : Prop :=
  w.files.get? (l ++ [name]) = some .directory

/-- The **nearest** location on the way to another that holds a data directory. -/
structure IsNearest (w : World) (l k : Location) : Prop where
  onWay : k <+: l
  holds : Holds w k
  deepest : ∀ m, m <+: l → Holds w m → m <+: k

/-- At most one location is the nearest that holds a data directory: two would each be on the way
to the other. -/
theorem IsNearest.unique (h : IsNearest w l k) (h' : IsNearest w l m) : k = m :=
  (h'.deepest k h.onWay h.holds).eq_of_length_le
    (h.deepest m h'.onWay h'.holds).length_le

/-- A path that is **within reach**: where one of its parents holds a data directory, the path of
this is short enough to be looked up. -/
def IsWithinReach (w : World) (path : String) : Prop :=
  ∀ a ∈ Path.ancestors path, Holds w (names a) →
    (Path.join a name).utf8ByteSize < FileTree.pathLimit

/-- **What is seen at a path** is what its names hold, if it is short enough. -/
theorem isDirectory_join_iff (hpath : Path.IsStraight path) :
    w.files.isDirectory w.workingDirectory (Path.join path name) = true ↔
      (Path.join path name).utf8ByteSize < FileTree.pathLimit ∧ Holds w (names path) := by
  rw [FileTree.isDirectory_iff_of_isStraight (hpath.join isProper_name), names_join_name, Holds]

/-- What can be looked up below a path can be looked up below its beginnings. -/
theorem utf8ByteSize_join_lt_of_parent {parent : String}
    (hreach : (Path.join path name).utf8ByteSize < FileTree.pathLimit)
    (hinitial : parent.toList <+: path.toList) :
    (Path.join parent name).utf8ByteSize < FileTree.pathLimit := by
  have hslash : "/".utf8ByteSize = 1 := rfl
  obtain ⟨rest, hrest⟩ := hinitial
  have hpath : path = parent ++ String.ofList rest := by
    rw [← String.toList_inj, String.toList_append, String.toList_ofList, hrest]
  by_cases hne : rest = []
  · subst hne
    have hsame : path = parent := by rw [hpath]; simp
    exact hsame ▸ hreach
  · have hpos : 0 < (String.ofList rest).utf8ByteSize := by
      rw [Nat.pos_iff_ne_zero, Ne, String.utf8ByteSize_eq_zero_iff]
      simpa using hne
    have hsize : path.utf8ByteSize = parent.utf8ByteSize + (String.ofList rest).utf8ByteSize := by
      rw [hpath, String.utf8ByteSize_append]
    obtain ⟨after, hafter, hname⟩ := Path.exists_join_eq_append path isProper_name.slash
    obtain ⟨after', hafter', hname'⟩ := Path.exists_join_eq_append parent isProper_name.slash
    rw [hafter, String.utf8ByteSize_append] at hreach
    rw [hafter', String.utf8ByteSize_append]
    have hshort : name.utf8ByteSize ≤ after.utf8ByteSize := by
      rcases hname with rfl | rfl <;> simp [String.utf8ByteSize_append]
    have hlong : after'.utf8ByteSize ≤ name.utf8ByteSize + 1 := by
      rcases hname' with rfl | rfl <;> simp [String.utf8ByteSize_append, hslash, Nat.add_comm]
    omega

/-- The parents of a path are no longer than the path. -/
theorem prefix_of_mem_ancestors {parent : String} (hpath : Path.IsStraight path)
    (h : parent ∈ Path.ancestors path) : parent.toList <+: path.toList := by
  induction path using Path.parentInduction with
  | root path hnone =>
      rw [Path.ancestors_of_split?_eq_none hnone, List.mem_singleton] at h
      exact h ▸ List.prefix_rfl
  | step path front name hsplit ih =>
      obtain ⟨-, hfront, hinitial⟩ := hpath.names_of_split? hsplit
      rw [Path.ancestors_of_split? hsplit, List.mem_cons] at h
      rcases h with rfl | h
      · exact List.prefix_rfl
      · exact (ih hfront h).trans hinitial

/-- A path whose own data directory could be looked up is within reach. -/
theorem isWithinReach_of_short (hpath : Path.IsStraight path)
    (hshort : (Path.join path name).utf8ByteSize < FileTree.pathLimit) : IsWithinReach w path :=
  fun _ ha _ => utf8ByteSize_join_lt_of_parent hshort (prefix_of_mem_ancestors hpath ha)

/-! ### The search -/

/-- The first directory among paths is found by asking for each in turn, which leaves the world as
it is. -/
theorem run_firstDirectory? (w : World) (paths : List String) :
    w.run (firstDirectory? paths) =
      (paths.find? (w.files.isDirectory w.workingDirectory ·), w) := by
  induction paths with
  | nil => rfl
  | cons path paths ih =>
      have hstep : w.run (firstDirectory? (path :: paths)) =
          w.run (if w.files.isDirectory w.workingDirectory path = true
            then pure (some path) else firstDirectory? paths) := rfl
      rw [hstep, List.find?_cons]
      split
      · simp [*]
        rfl
      · simp [*]

/-- The first parent of a path whose data directory is there. -/
def firstHolder? (w : World) (path : String) : Option String :=
  (Path.ancestors path).find? fun parent =>
    w.files.isDirectory w.workingDirectory (Path.join parent name)

/-- What is found is there. -/
theorem isDirectory_of_firstHolder? {a : String} (h : firstHolder? w path = some a) :
    w.files.isDirectory w.workingDirectory (Path.join a name) = true := by
  simpa using List.find?_some h

/-- The data directory for a working directory stands in the first holder upwards, or else in the
working directory itself. -/
theorem run_ofWorkingDirectory (w : World) (here : String) :
    w.run (ofWorkingDirectory here) =
      (⟨Path.join ((firstHolder? w here).getD here) name⟩, w) := by
  have hbind : w.run (ofWorkingDirectory here) =
      (let r := w.run (firstDirectory? ((Path.ancestors here).map (Path.join · name)))
       (⟨r.1.getD (Path.join here name)⟩, r.2)) := w.run_bind _ _
  have hfind : ((Path.ancestors here).map (Path.join · name)).find?
      (w.files.isDirectory w.workingDirectory ·) =
      (firstHolder? w here).map (Path.join · name) := List.find?_map ..
  rw [hbind, run_firstDirectory?, hfind]
  cases firstHolder? w here <;> rfl

/-- The search looks at a path itself first and goes on with its parent if no data directory is
there. -/
theorem firstHolder?_of_split? {parent : String} {last : List Char}
    (h : Path.split? path.toList = some (parent.toList, last)) :
    firstHolder? w path =
      if w.files.isDirectory w.workingDirectory (Path.join path name) = true then some path
      else firstHolder? w parent := by
  rw [firstHolder?, Path.ancestors_of_split? h, List.find?_cons]
  split <;> simp [*, firstHolder?]

/-- A path with a data directory of its own is itself the nearest location that has one. -/
theorem isNearest_self (hpath : Path.IsStraight path)
    (h : w.files.isDirectory w.workingDirectory (Path.join path name) = true) :
    IsNearest w (names path) (names path) :=
  ⟨List.prefix_rfl, ((isDirectory_join_iff hpath).mp h).2, fun _ hm _ => hm⟩

/-- **The parent that is found** is the nearest that holds a data directory, if what is there is
seen. -/
theorem firstHolder?_cases (hpath : Path.IsStraight path)
    (hseen : ∀ a ∈ Path.ancestors path, Holds w (names a) →
      w.files.isDirectory w.workingDirectory (Path.join a name) = true) :
    (∃ a ∈ Path.ancestors path, firstHolder? w path = some a ∧
      IsNearest w (names path) (names a)) ∨
      firstHolder? w path = none ∧ ∀ l, l <+: names path → ¬ Holds w l := by
  induction path using Path.parentInduction with
  | root path hnone =>
      have hancestors := Path.ancestors_of_split?_eq_none hnone
      by_cases hthere : w.files.isDirectory w.workingDirectory (Path.join path name) = true
      · refine .inl ⟨path, by simp [hancestors], ?_, isNearest_self hpath hthere⟩
        simp [firstHolder?, hancestors, hthere]
      · refine .inr ⟨by simp [firstHolder?, hancestors, hthere], fun l hl hholds => hthere ?_⟩
        refine hseen path (by simp [hancestors]) ?_
        rw [hpath.names_of_split?_eq_none hnone, List.prefix_nil] at hl
        rwa [hpath.names_of_split?_eq_none hnone, ← hl]
  | step path parent next hsplit ih =>
      obtain ⟨hnames, hparent, -⟩ := hpath.names_of_split? hsplit
      have hancestors := Path.ancestors_of_split? hsplit
      by_cases hthere : w.files.isDirectory w.workingDirectory (Path.join path name) = true
      · refine .inl ⟨path, by simp [hancestors], ?_, isNearest_self hpath hthere⟩
        rw [firstHolder?_of_split? hsplit, if_pos hthere]
      · have hself : ¬ Holds w (names path) := fun hholds =>
          hthere (hseen path (by simp [hancestors]) hholds)
        have hparents := ih hparent fun a ha => hseen a (by simp [hancestors, ha])
        rw [firstHolder?_of_split? hsplit, if_neg hthere, hancestors]
        refine hparents.imp ?_ ?_
        · rintro ⟨a, ha, hfound, honWay, hholds, hdeepest⟩
          refine ⟨a, List.mem_cons_of_mem path ha, hfound, ?_, hholds, fun m hm hholds' => ?_⟩
          · exact hnames ▸ honWay.trans (List.prefix_append _ _)
          · rw [hnames, List.prefix_concat_iff, ← hnames] at hm
            exact hdeepest m (hm.resolve_left fun he => hself (he ▸ hholds')) hholds'
        · rintro ⟨hnone, hno⟩
          refine ⟨hnone, fun l hl hholds => ?_⟩
          rw [hnames, List.prefix_concat_iff, ← hnames] at hl
          exact hno l (hl.resolve_left fun he => hself (he ▸ hholds)) hholds

/-- **The parents of a path further in** are parents of the path, or the path itself without the
slashes at its end, or lie further in themselves. -/
theorem mem_ancestors_foldl_join (hhere : Path.IsStraight here)
    (hns : ∀ n ∈ ns, Path.IsProper n) :
    ∀ a ∈ Path.ancestors (ns.foldl Path.join here),
      a ∈ Path.ancestors here ∨ (a.toList <+: here.toList ∧ names a = names here) ∨
        names here <+: names a ∧ names a ≠ names here := by
  induction ns using List.reverseRecOn with
  | nil => exact fun a ha => .inl ha
  | append_singleton ns n ih =>
      obtain ⟨hns', hn⟩ := List.forall_mem_append.mp hns
      have hn := hn n (by simp)
      have hfurther : names here <+: names ((ns ++ [n]).foldl Path.join here) ∧
          names ((ns ++ [n]).foldl Path.join here) ≠ names here := by
        rw [Path.names_foldl_join hns]
        simp
      rw [List.foldl_append, List.foldl_cons, List.foldl_nil] at hfurther ⊢
      rcases List.eq_nil_or_concat ns with rfl | ⟨ns', m, rfl⟩
      · obtain ⟨parent, hsplit, hinitial, hsame⟩ := Path.exists_split?_join hhere.absolute hn
        have hnames := ((hhere.join hn).names_of_split? hsplit).1
        rw [Path.names_join hn.slash hn.filled] at hnames
        intro a ha
        rw [List.foldl_nil, Path.ancestors_of_split? hsplit, List.mem_cons] at ha
        rcases ha with rfl | ha
        · exact .inr (.inr hfurther)
        · rcases Path.mem_ancestors_of_split?_eq hsame ha with rfl | ha
          · exact .inr (.inl ⟨hinitial, (List.append_inj_left' hnames rfl).symm⟩)
          · exact .inl ha
      · rw [List.concat_eq_append] at hns' hfurther ih ⊢
        obtain ⟨hns'', hm⟩ := List.forall_mem_append.mp hns'
        have hsplit := Path.split?_join_join (hhere.foldl_join hns'').absolute (hm m (by simp)) hn
        have hlast : (ns' ++ [m]).foldl Path.join here = Path.join (ns'.foldl Path.join here) m :=
          List.foldl_concat ..
        rw [← hlast] at hsplit
        intro a ha
        rw [Path.ancestors_of_split? hsplit, List.mem_cons] at ha
        rcases ha with rfl | ha
        · exact .inr (.inr hfurther)
        · exact ih hns' a ha

/-- **What is held on the way** to a path within reach is seen. -/
theorem IsWithinReach.isDirectory (hreach : IsWithinReach w here) (hhere : Path.IsStraight here) :
    ∀ a ∈ Path.ancestors here, Holds w (names a) →
      w.files.isDirectory w.workingDirectory (Path.join a name) = true := fun a ha hholds =>
  (isDirectory_join_iff (hhere.of_mem_ancestors ha)).mpr ⟨hreach a ha hholds, hholds⟩

/-- What is held on the way to a path within reach is seen from further in too, where nothing is
held in between. -/
theorem IsWithinReach.isDirectory_of_further (hreach : IsWithinReach w here)
    (hhere : Path.IsStraight here) (hns : ∀ n ∈ ns, Path.IsProper n)
    (hno : ∀ l, names here <+: l → l ≠ names here → l <+: names here ++ ns → ¬ Holds w l) :
    ∀ a ∈ Path.ancestors (ns.foldl Path.join here), Holds w (names a) →
      w.files.isDirectory w.workingDirectory (Path.join a name) = true := by
  intro a ha hholds
  have hinner := (hhere.foldl_join hns).of_mem_ancestors ha
  refine (isDirectory_join_iff hinner).mpr ⟨?_, hholds⟩
  rcases mem_ancestors_foldl_join hhere hns a ha with hmem | ⟨hinitial, hnames⟩ | ⟨hbeyond, hne⟩
  · exact hreach a hmem hholds
  · obtain ⟨parents, hparents⟩ := Path.ancestors_eq_cons here
    exact utf8ByteSize_join_lt_of_parent
      (hreach here (hparents ▸ List.mem_cons_self) (hnames ▸ hholds)) hinitial
  · have hbelow := (Path.prefix_of_mem_ancestors ha).1
    rw [Path.names_foldl_join hns] at hbelow
    exact absurd hholds (hno _ hbeyond hne hbelow)

/-! ### What stays found -/

/-- **What has been made is found again**, and need not be made again. -/
theorem firstHolder?_of_ensure {made : Bool}
    (h : w.runTask (ensure ⟨Path.join ((firstHolder? w here).getD here) name⟩) = (.ok made, v)) :
    firstHolder? v here = some ((firstHolder? w here).getD here) ∧
      v.runTask (ensure ⟨Path.join ((firstHolder? w here).getD here) name⟩) = (.ok false, v) := by
  cases hfound : firstHolder? w here with
  | some a =>
      rw [hfound, Option.getD_some] at h
      have hthere := isDirectory_of_firstHolder? hfound
      have hensure := runTask_ensure_of_directory (d := ⟨Path.join a name⟩) hthere
      obtain rfl : w = v := (Prod.mk.inj (hensure.symm.trans h)).2
      exact ⟨hfound, hensure⟩
  | none =>
      rw [hfound, Option.getD_none] at h
      obtain ⟨parents, hancestors⟩ := Path.ancestors_eq_cons here
      have hmissing : w.files.isDirectory w.workingDirectory (Path.join here name) = false := by
        rw [firstHolder?, hancestors] at hfound
        simpa using List.find?_eq_none.mp hfound here List.mem_cons_self
      have hensure := runTask_ensure_of_missing (d := ⟨Path.join here name⟩) hmissing
      rcases hmade : w.files.makeDirectories w.workingDirectory (Path.join here name) with
        ⟨e | ⟨⟨⟩⟩, t⟩
      · rw [hmade] at hensure
        exact absurd (Prod.mk.inj (hensure.symm.trans h)).1 (by simp [Except.mapError, Except.map])
      · rw [hmade] at hensure
        obtain rfl : { w with files := t } = v := (Prod.mk.inj (hensure.symm.trans h)).2
        have hne : Path.join here name ≠ "" := by
          intro hempty
          have hnames := names_join_name here
          rw [hempty] at hnames
          exact absurd hnames.symm (List.concat_ne_nil _ _)
        have hthere := FileTree.isDirectory_makeDirectories hne hmade
        refine ⟨?_, runTask_ensure_of_directory hthere⟩
        rw [firstHolder?, hancestors]
        exact List.find?_cons_of_pos hthere

/-- What has been made leaves a path within reach: its own data directory can be looked up then. -/
theorem IsWithinReach.of_ensure {made : Bool} (hreach : IsWithinReach w here)
    (hhere : Path.IsStraight here)
    (h : w.runTask (ensure ⟨Path.join ((firstHolder? w here).getD here) name⟩) = (.ok made, v)) :
    IsWithinReach v here := by
  have hfound := (firstHolder?_of_ensure h).1
  rcases hbefore : firstHolder? w here with - | a
  · rw [hbefore, Option.getD_none] at hfound
    have hthere := (isDirectory_join_iff hhere).mp (isDirectory_of_firstHolder? hfound)
    exact isWithinReach_of_short hhere hthere.1
  · rw [hbefore, Option.getD_some] at h
    have hensure := runTask_ensure_of_directory (d := ⟨Path.join a name⟩)
      (isDirectory_of_firstHolder? hbefore)
    obtain rfl : w = v := (Prod.mk.inj (hensure.symm.trans h)).2
    exact hreach

/-- What is nearest to a location is nearest to those further in between which nothing is held. -/
theorem IsNearest.further (h : IsNearest w l k)
    (hno : ∀ m, l <+: m → m ≠ l → m <+: l ++ ns → ¬ Holds w m) : IsNearest w (l ++ ns) k where
  onWay := h.onWay.trans (List.prefix_append _ _)
  holds := h.holds
  deepest m hm hholds := by
    rcases List.prefix_or_prefix_of_prefix hm (List.prefix_append l ns) with hbelow | hbeyond
    · exact h.deepest m hbelow hholds
    · by_cases he : m = l
      · exact h.deepest m (he ▸ List.prefix_rfl) hholds
      · exact absurd hholds (hno m hbeyond he hm)

/-- **The data directory that is found** is that of the nearest parent that holds one, or that of
the working directory if none does. Once it is there it is found again, also from further in as long
as none lies between, and need not be made again. -/
theorem finds_nearest (hhere : Path.IsStraight here) (hreach : IsWithinReach w here) :
    ∃ d : DataDirectory, w.run (ofWorkingDirectory here) = (d, w) ∧
      ((∃ a ∈ Path.ancestors here, d.path = Path.join a name ∧
          IsNearest w (names here) (names a)) ∨
        d.path = Path.join here name ∧ ∀ l, l <+: names here → ¬ Holds w l) ∧
      ∀ made v, w.runTask d.ensure = (.ok made, v) →
        v.run (ofWorkingDirectory here) = (d, v) ∧
        (∀ ns : List String, (∀ n ∈ ns, Path.IsProper n) →
          (∀ l, names here <+: l → l ≠ names here → l <+: names here ++ ns → ¬ Holds v l) →
          ∃ d', v.run (ofWorkingDirectory (ns.foldl Path.join here)) = (d', v) ∧
            Path.IsStraight d'.path ∧ names d'.path = names d.path) ∧
        v.runTask d.ensure = (.ok false, v) := by
  refine ⟨_, run_ofWorkingDirectory w here, ?_, fun made v hensure => ?_⟩
  · rcases firstHolder?_cases hhere (hreach.isDirectory hhere) with
      ⟨a, ha, hfound, hnearest⟩ | ⟨hnone, hno⟩
    · exact .inl ⟨a, ha, by rw [hfound]; rfl, hnearest⟩
    · exact .inr ⟨by rw [hnone]; rfl, hno⟩
  · obtain ⟨hfound, hagain⟩ := firstHolder?_of_ensure hensure
    have hreach' := hreach.of_ensure hhere hensure
    refine ⟨by rw [run_ofWorkingDirectory, hfound]; rfl, fun ns hns hno => ?_, hagain⟩
    have hnear : IsNearest v (names here) (names ((firstHolder? w here).getD here)) := by
      rcases firstHolder?_cases hhere (hreach'.isDirectory hhere) with
        ⟨a, -, hfound', hnearest⟩ | ⟨hnone, -⟩
      · rw [hfound] at hfound'
        rwa [Option.some.inj hfound']
      · exact absurd (hfound.symm.trans hnone) (by simp)
    have hfurther := hnear.further hno
    have hinner := hhere.foldl_join hns
    have hnames : names (ns.foldl Path.join here) = names here ++ ns := Path.names_foldl_join hns
    rcases firstHolder?_cases hinner (hreach'.isDirectory_of_further hhere hns hno) with
      ⟨a, ha, hfound', hnearest⟩ | ⟨-, hno'⟩
    · refine ⟨_, run_ofWorkingDirectory v _, ?_⟩
      rw [hnames] at hnearest
      rw [hfound', Option.getD_some]
      refine ⟨(hinner.of_mem_ancestors ha).join isProper_name, ?_⟩
      rw [names_join_name, names_join_name, hnearest.unique hfurther]
    · exact absurd hfurther.holds (hno' _ (hnames ▸ hfurther.onWay))

/-- A world in which the root and `/a` hold data directories. -/
def heldTwice : World :=
  { (default : World) with
    files := ((FileTree.empty.place [".kolmsg"] .directory).place ["a"] .directory).place
      ["a", ".kolmsg"] .directory }

/-- Slashes do not matter: with them or without, `/a/.kolmsg` is found from below. -/
theorem finds_nearest_slashes :
    Path.IsStraight "/a//b/" ∧ IsWithinReach heldTwice "/a//b/" ∧
      ∃ d : DataDirectory, heldTwice.run (ofWorkingDirectory "/a//b/") = (d, heldTwice) ∧
        d.path = "/a/.kolmsg" ∧ heldTwice.runTask d.ensure = (.ok false, heldTwice) := by
  have hstraight : Path.IsStraight "/a//b/" := ⟨by decide, by decide, by decide⟩
  have hreach : IsWithinReach heldTwice "/a//b/" := isWithinReach_of_short hstraight (by decide)
  obtain ⟨d, hrun, -, hstays⟩ := finds_nearest hstraight hreach
  have hpath : (heldTwice.run (ofWorkingDirectory "/a//b/")).1.path = "/a/.kolmsg" ∧
      (heldTwice.files.isDirectory heldTwice.workingDirectory "/a/.kolmsg") = true := by
    decide +kernel
  rw [hrun] at hpath
  obtain ⟨hpath, hthere⟩ := hpath
  rw [← hpath] at hthere
  exact ⟨hstraight, hreach, d, hrun, hpath,
    (hstays false heldTwice (runTask_ensure_of_directory hthere)).2.2⟩

/-! ### Paths out of reach -/

/-- A path of `/a` with many slashes behind it: one name, in as many bytes as one likes. -/
def spaced (n : Nat) : String :=
  String.ofList ('/' :: 'a' :: '/' :: List.replicate n '/')

/-- A row of slashes after the first name gives as many empty segments. -/
theorem segments_spaced (n : Nat) (cs : List Char) :
    Path.segments ('a' :: '/' :: (List.replicate n '/' ++ cs)) =
      ['a'] :: (List.replicate n [] ++ Path.segments cs) := by
  have hslashes : Path.segments (List.replicate n '/' ++ cs) =
      List.replicate n [] ++ Path.segments cs := by
    induction n with
    | zero => rfl
    | succ n ih =>
        rw [List.replicate_succ, List.cons_append, Path.segments, if_pos rfl, ih]
        rfl
  rw [← hslashes]
  exact Path.segments_append_slash ['a'] _

/-- The empty segments between the slashes of `spaced` are no names, so a single name is left. -/
theorem names_spaced (n : Nat) : names (spaced n) = ["a"] := by
  have hsegments := segments_spaced n []
  rw [List.append_nil] at hsegments
  rw [spaced, Path.names_ofList, Path.segments, if_pos rfl, hsegments]
  simp [Path.namesOf, Path.segments]

/-- However many slashes it has, `spaced` is a straight path. -/
theorem isStraight_spaced (n : Nat) : Path.IsStraight (spaced n) := by
  refine ⟨?_, ?_, ?_⟩
  · rw [spaced, FileTree.isAbsolute, String.toList_ofList]
    rfl
  · simp [names_spaced]
  · simp [names_spaced]

/-- The parent of `spaced` is the root, since its trailing slashes belong to no name. -/
theorem split?_spaced (n : Nat) :
    Path.split? (spaced n).toList = some ("/".toList, ['a']) := by
  have hsegments : Path.segments ('a' :: '/' :: List.replicate n '/') =
      [] ++ ['a'] :: List.replicate (n + 1) [] := by
    have h := segments_spaced n []
    rw [List.append_nil] at h
    rw [h, List.replicate_succ']
    rfl
  rw [spaced, String.toList_ofList, Path.split?_of_segments hsegments rfl fun s hs => by
    rw [List.eq_of_mem_replicate hs]
    rfl]
  rfl

/-- One name further in, the slashes are gone from the parent. -/
theorem split?_spaced_join (n : Nat) :
    Path.split? (Path.join (spaced n) "x").toList = some ("/a".toList, ['x']) := by
  have hlast : (spaced n).toList.getLast? = some '/' := by
    rw [spaced, String.toList_ofList, ← List.replicate_succ, List.replicate_succ']
    simp [List.getLast?_cons]
  have hjoin : (Path.join (spaced n) "x").toList =
      '/' :: 'a' :: '/' :: (List.replicate n '/' ++ ['x']) := by
    rw [Path.join, if_neg (by simp [spaced]), if_pos hlast, String.toList_append, spaced,
      String.toList_ofList]
    rfl
  have hkept : (['a'] :: List.replicate n []).rdropWhile Path.isSkipped = [['a']] := by
    rw [List.rdropWhile, List.reverse_cons, List.reverse_replicate,
      List.dropWhile_append_of_pos fun s hs => by
        rw [List.eq_of_mem_replicate hs]
        rfl]
    rfl
  have hsegments : Path.segments ('a' :: '/' :: (List.replicate n '/' ++ ['x'])) =
      (['a'] :: List.replicate n []) ++ ['x'] :: [] := segments_spaced n ['x']
  rw [hjoin, Path.split?_of_segments hsegments rfl (fun _ hs => absurd hs List.not_mem_nil), hkept]
  rfl

/-- A path as long as the limit is never a directory: the file system does not look it up. -/
theorem isDirectory_of_le (h : FileTree.pathLimit ≤ path.utf8ByteSize) :
    w.files.isDirectory w.workingDirectory path = false := by
  rw [← Bool.not_eq_true, FileTree.isDirectory_iff]
  rintro ⟨l, hl, -⟩
  exact (FileTree.locate_eq_ok_iff.mp hl).2.2.1 h

/-- The bytes of `spaced` are at least as many as its slashes, so it grows past every limit. -/
theorem le_utf8ByteSize_spaced (n : Nat) : n ≤ (spaced n).utf8ByteSize := by
  induction n with
  | zero => exact Nat.zero_le _
  | succ n ih =>
      have hlonger : spaced (n + 1) = spaced n ++ "/" := by
        rw [← String.toList_inj]
        simp [spaced, String.toList_append, List.replicate_succ']
      rw [hlonger, String.utf8ByteSize_append]
      exact Nat.add_le_add ih (Nat.le_refl 1)

/-- **A path that is too long hides a data directory** that is found from further in: it is neither
the nearest that is found, nor the same from there. -/
theorem finds_another :
    (¬ ∀ (w : World) (here : String), Path.IsStraight here →
      ∃ d : DataDirectory, w.run (ofWorkingDirectory here) = (d, w) ∧
        ((∃ a ∈ Path.ancestors here, d.path = Path.join a name ∧
            IsNearest w (names here) (names a)) ∨
          d.path = Path.join here name ∧ ∀ l, l <+: names here → ¬ Holds w l)) ∧
      ¬ ∀ (w v : World) (here : String) (d : DataDirectory) (made : Bool),
        Path.IsStraight here → w.run (ofWorkingDirectory here) = (d, w) →
        w.runTask d.ensure = (.ok made, v) → ∀ ns : List String, (∀ n ∈ ns, Path.IsProper n) →
        (∀ l, names here <+: l → l ≠ names here → l <+: names here ++ ns → ¬ Holds v l) →
        ∃ d', v.run (ofWorkingDirectory (ns.foldl Path.join here)) = (d', v) ∧
          names d'.path = names d.path := by
  have hlong : ∀ rest, FileTree.pathLimit ≤ (spaced 4096 ++ rest).utf8ByteSize := fun rest => by
    have hle := le_utf8ByteSize_spaced 4096
    rw [String.utf8ByteSize_append, FileTree.pathLimit]
    omega
  have hroot : firstHolder? heldTwice "/" = some "/" := by decide +kernel
  have hinner : firstHolder? heldTwice "/a" = some "/a" := by decide +kernel
  have hjoined : Path.join "/a" name = "/a/.kolmsg" := by decide
  have hx : Path.IsProper "x" := ⟨by decide, by decide, by decide, by decide⟩
  have hfound : heldTwice.run (ofWorkingDirectory (spaced 4096)) = (⟨"/.kolmsg"⟩, heldTwice) := by
    obtain ⟨rest, hrest, -⟩ := Path.exists_join_eq_append (spaced 4096) isProper_name.slash
    rw [run_ofWorkingDirectory, firstHolder?_of_split? (split?_spaced 4096), hrest,
      isDirectory_of_le (hlong rest), if_neg (by simp), hroot]
    rfl
  have hfurther : heldTwice.run (ofWorkingDirectory (Path.join (spaced 4096) "x")) =
      (⟨"/a/.kolmsg"⟩, heldTwice) := by
    obtain ⟨rest, hrest, -⟩ := Path.exists_join_eq_append (spaced 4096) hx.slash
    obtain ⟨rest', hrest', -⟩ :=
      Path.exists_join_eq_append (Path.join (spaced 4096) "x") isProper_name.slash
    rw [run_ofWorkingDirectory, firstHolder?_of_split? (split?_spaced_join 4096), hrest', hrest,
      String.append_assoc, isDirectory_of_le (hlong _), if_neg (by simp), hinner,
      Option.getD_some, hjoined]
  have hholds : Holds heldTwice ["a"] := by
    rw [Holds]
    decide +kernel
  have hfree : ¬ Holds heldTwice ["a", "x"] := by
    rw [Holds]
    decide +kernel
  constructor
  · intro h
    obtain ⟨d, hrun, hd⟩ := h heldTwice (spaced 4096) (isStraight_spaced 4096)
    obtain rfl : ⟨"/.kolmsg"⟩ = d := (Prod.mk.inj (hfound.symm.trans hrun)).1
    rw [names_spaced] at hd
    rcases hd with ⟨a, -, hpath, hnearest⟩ | ⟨-, hno⟩
    · have hnames := congrArg names hpath
      rw [names_join_name] at hnames
      have hempty : names a = [] := by
        have hroot : names "/.kolmsg" = [] ++ [name] := by decide
        exact (List.append_inj_left' (hnames.symm.trans hroot) rfl)
      have hdeep := hnearest.deepest ["a"] List.prefix_rfl hholds
      rw [hempty] at hdeep
      exact absurd (List.prefix_nil.mp hdeep) (List.cons_ne_nil _ _)
    · exact hno ["a"] List.prefix_rfl hholds
  · intro h
    have hthere : heldTwice.files.isDirectory heldTwice.workingDirectory "/.kolmsg" = true := by
      decide +kernel
    have hensure := runTask_ensure_of_directory (d := ⟨"/.kolmsg"⟩) hthere
    have hno : ∀ l, names (spaced 4096) <+: l → l ≠ names (spaced 4096) →
        l <+: names (spaced 4096) ++ ["x"] → ¬ Holds heldTwice l := by
      rw [names_spaced]
      intro l hbeyond hne hl
      rw [List.prefix_concat_iff] at hl
      rcases hl with rfl | hl
      · exact hfree
      · exact absurd (hl.eq_of_length_le hbeyond.length_le) hne
    obtain ⟨d', hrun, hsame⟩ := h _ _ (spaced 4096) _ _ (isStraight_spaced 4096) hfound hensure
      ["x"] (by simpa using hx) hno
    rw [List.foldl_cons, List.foldl_nil] at hrun
    obtain rfl : ⟨"/a/.kolmsg"⟩ = d' := (Prod.mk.inj (hfurther.symm.trans hrun)).1
    exact absurd hsame (by decide)

end Outreach.DataDirectory
