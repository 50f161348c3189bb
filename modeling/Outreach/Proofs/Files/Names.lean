import Outreach.Files.AtomicWrite
import Outreach.Files.Tree

/-!
# Names of Paths

The parent of a path is cut out of its text, but what it leads to is said by its names. Apart from
dots, which lead nowhere else, a path has the names of its parent and then its own last name. So a
path that leads to a place in a directory has a parent that leads to that directory, and the
temporary path beside it leads into the same one.

## Main results

* `Path.names_of_split?`: the names of a path and those of its parent.
* `FileTree.locate_join`: a path that leads on by a name leads to that name.
* `FileTree.isDirectory_parent`: the parent of a path that leads somewhere is a directory.
* `FileTree.locate_temporaryPath`: the temporary name stands beside the name of the path.
-/

namespace Outreach

namespace Path

/-! ### Pieces between slashes -/

/-- A slash separates the segments before it from those behind it. -/
theorem segments_append_slash (a b : List Char) :
    segments (a ++ '/' :: b) = segments a ++ segments b := by
  induction a with
  | nil => simp [segments]
  | cons c a ih =>
      rw [List.cons_append, segments, segments, ih]
      split
      · rfl
      · rcases ha : segments a with - | ⟨s, ss⟩
        · exact absurd ha (segments_ne_nil a)
        · rfl

/-- A text without slashes is one piece. -/
theorem segments_of_slash_notMem {cs : List Char} (h : '/' ∉ cs) : segments cs = [cs] := by
  induction cs with
  | nil => rfl
  | cons c cs ih =>
      rw [List.mem_cons, not_or] at h
      rw [segments, if_neg (Ne.symm h.1), ih h.2]

/-- Pieces with slashes between them are the pieces of that text. -/
theorem segments_joinSegments {ss : List (List Char)} (hne : ss ≠ [])
    (h : ∀ s ∈ ss, '/' ∉ s) : segments (joinSegments ss) = ss := by
  match ss with
  | [] => exact absurd rfl hne
  | [s] => exact segments_of_slash_notMem (h s List.mem_cons_self)
  | s :: s' :: ss =>
    have ih := segments_joinSegments (List.cons_ne_nil s' ss) fun u hu =>
      h u (List.mem_cons_of_mem s hu)
    change segments (s ++ '/' :: joinSegments (s' :: ss)) = _
    rw [segments_append_slash, segments_of_slash_notMem (h s List.mem_cons_self), ih,
      List.singleton_append]

/-- The text of the first pieces is the beginning of the text of all. -/
theorem joinSegments_prefix_append (xs ys : List (List Char)) :
    joinSegments xs <+: joinSegments (xs ++ ys) := by
  match xs, ys with
  | [], _ => exact List.nil_prefix
  | xs, [] => exact ⟨[], by rw [List.append_nil, List.append_nil]⟩
  | [x], y :: ys => exact ⟨'/' :: joinSegments (y :: ys), rfl⟩
  | x :: x' :: xs, ys =>
    obtain ⟨rest, hrest⟩ := joinSegments_prefix_append (x' :: xs) ys
    refine ⟨rest, ?_⟩
    change (x ++ '/' :: joinSegments (x' :: xs)) ++ rest = x ++ '/' :: joinSegments (x' :: xs ++ ys)
    rw [List.append_assoc, List.cons_append, hrest]

/-! ### Names -/

/-- The names that some pieces stand for. -/
def namesOf (ss : List (List Char)) : List String :=
  (ss.filter (· != [])).map String.ofList

@[simp] theorem namesOf_nil : namesOf [] = [] := rfl

/-- The names among two rows of segments are those of the first, then those of the second. -/
theorem namesOf_append (xs ys : List (List Char)) :
    namesOf (xs ++ ys) = namesOf xs ++ namesOf ys := by
  rw [namesOf, List.filter_append, List.map_append]
  rfl

/-- A segment that is not empty is one name. -/
theorem namesOf_singleton {s : List Char} (h : s ≠ []) : namesOf [s] = [String.ofList s] := by
  rw [namesOf, List.filter_cons_of_pos (by simpa using h)]
  rfl

/-- The names of a path are those among the segments of its characters. -/
theorem names_ofList (cs : List Char) :
    FileTree.names (String.ofList cs) = namesOf (segments cs) := by
  rw [FileTree.names, String.toList_ofList]
  rfl

/-- Pieces that count for nothing stand for dots at most. -/
theorem eq_dot_of_mem_namesOf {ss : List (List Char)} (h : ∀ s ∈ ss, isSkipped s = true)
    {name : String} (hname : name ∈ namesOf ss) : name = "." := by
  obtain ⟨s, hs, rfl⟩ := List.mem_map.mp hname
  obtain ⟨hmem, hne⟩ := List.mem_filter.mp hs
  have hskipped := h s hmem
  simp only [isSkipped, Bool.or_eq_true, beq_iff_eq] at hskipped
  rcases hskipped with rfl | rfl
  · simp at hne
  · rfl

/-- Segments without slashes have the same names once they are joined by slashes and split again. -/
theorem namesOf_segments_joinSegments {ss : List (List Char)} (h : ∀ s ∈ ss, '/' ∉ s) :
    namesOf (segments (joinSegments ss)) = namesOf ss := by
  match ss with
  | [] => rfl
  | s :: ss => rw [segments_joinSegments (List.cons_ne_nil s ss) h]

/-- What says where a path starts is a name only if it is a dot. -/
theorem namesOf_lead {path lead body : List Char} (hlead : splitLead path = (lead, body))
    {ss : List (List Char)} (hss : ss <+: segments body) :
    namesOf (segments (lead ++ joinSegments ss)) =
      (if lead = ['.'] then ["."] else []) ++ namesOf ss := by
  have hslash : ∀ s ∈ ss, '/' ∉ s := fun s hs =>
    slash_notMem_of_mem_segments (hss.subset hs)
  unfold splitLead at hlead
  split at hlead
  · obtain ⟨rfl, rfl⟩ := Prod.mk.inj hlead
    change namesOf (segments ([] ++ '/' :: joinSegments ss)) = _
    rw [segments_append_slash, namesOf_append, namesOf_segments_joinSegments hslash]
    rfl
  · obtain ⟨rfl, rfl⟩ := Prod.mk.inj hlead
    rcases ss with - | ⟨s, - | ⟨s', ss⟩⟩
    · rfl
    · obtain ⟨rfl, -⟩ := List.cons_prefix_cons.mp hss
      rfl
    · exact absurd (List.cons_prefix_cons.mp hss).2 (by simp)
  · obtain ⟨rfl, rfl⟩ := Prod.mk.inj hlead
    rw [segments, if_pos rfl] at hss
    rcases ss with - | ⟨s, - | ⟨s', ss⟩⟩
    · rfl
    · obtain ⟨rfl, -⟩ := List.cons_prefix_cons.mp hss
      rfl
    · obtain ⟨rfl, -⟩ := List.cons_prefix_cons.mp hss
      change namesOf (segments (['.'] ++ '/' :: joinSegments (s' :: ss))) = _
      rw [segments_append_slash, namesOf_append,
        namesOf_segments_joinSegments fun u hu => hslash u (List.mem_cons_of_mem [] hu)]
      rfl
  · obtain ⟨rfl, rfl⟩ := Prod.mk.inj hlead
    exact namesOf_segments_joinSegments hslash

/-- A path that starts at the root says so in front. -/
theorem splitLead_of_head? {path : List Char} (h : path.head? = some '/') :
    (splitLead path).1 = ['/'] := by
  match path with
  | [] => simp at h
  | c :: cs =>
    obtain rfl : c = '/' := Option.some.inj h
    rfl

/-- Where a path is split: the pieces of its body are those of the parent, some that count for
nothing, the last name, and again some that count for nothing. -/
theorem exists_segments_of_split? {path parent last : List Char}
    (h : split? path = some (parent, last)) (hlast : last ≠ ['.']) :
    ∃ lead body front between after, splitLead path = (lead, body) ∧
      segments body = front ++ (between ++ last :: after) ∧
      (∀ s ∈ between, isSkipped s = true) ∧ (∀ s ∈ after, isSkipped s = true) ∧
      parent = lead ++ joinSegments front ∧ last ≠ [] := by
  rcases hlead : splitLead path with ⟨lead, body⟩
  simp only [split?, hlead] at h
  split at h
  · rename_i l before hdrop
    obtain ⟨rfl, rfl⟩ : _ = parent ∧ l = last := by simpa using h
    have hall := List.takeWhile_append_dropWhile (p := isSkipped) (l := (segments body).reverse)
    rw [hdrop, ← List.takeWhile_append_dropWhile (p := isSkipped) (l := before)] at hall
    have hskipped : ∀ ss : List (List Char), ∀ s ∈ (ss.takeWhile isSkipped).reverse,
        isSkipped s = true := fun ss s hs =>
      List.all_eq_true.mp List.all_takeWhile s (List.mem_reverse.mp hs)
    refine ⟨lead, body, (before.dropWhile isSkipped).reverse,
      (before.takeWhile isSkipped).reverse, ((segments body).reverse.takeWhile isSkipped).reverse,
      rfl, ?_, hskipped _, hskipped _, rfl, ?_⟩
    · have hreverse := (congrArg List.reverse hall).symm
      rwa [List.reverse_reverse, List.reverse_append, List.reverse_cons, List.reverse_append,
        List.append_assoc, List.append_assoc, List.singleton_append] at hreverse
    · have hhead := List.head_dropWhile_not isSkipped (l := (segments body).reverse)
        (by rw [hdrop]; simp)
      simp only [hdrop, List.head_cons] at hhead
      rintro rfl
      simp [isSkipped] at hhead
  · split at h
    · rename_i hdot
      simp only [Option.some.injEq, Prod.mk.injEq] at h
      exact absurd (h.2.symm.trans hdot) hlast
    · simp at h

/-- **The names of a path** are those of its parent and its own last name, with dots between and
after them at most. -/
theorem names_of_split? {path parent last : List Char} (h : split? path = some (parent, last))
    (hlast : last ≠ ['.']) :
    ∃ between after : List String,
      (∀ name ∈ between, name = ".") ∧ (∀ name ∈ after, name = ".") ∧
      FileTree.names (String.ofList path) =
        FileTree.names (String.ofList parent) ++ (between ++ String.ofList last :: after) := by
  obtain ⟨lead, body, front, between, after, hlead, hbody, hbetween, hafter, rfl, hne⟩ :=
    exists_segments_of_split? h hlast
  refine ⟨namesOf between, namesOf after, fun name => eq_dot_of_mem_namesOf hbetween,
    fun name => eq_dot_of_mem_namesOf hafter, ?_⟩
  have hpath := lead_append_body path
  have hwhole := namesOf_lead hlead (List.prefix_refl (segments body))
  rw [joinSegments_segments] at hwhole
  rw [hlead] at hpath
  rw [hpath] at hwhole
  have hnames : namesOf (segments body) =
      namesOf front ++ (namesOf between ++ String.ofList last :: namesOf after) := by
    rw [hbody, namesOf_append, namesOf_append, ← List.singleton_append, namesOf_append,
      namesOf_singleton hne, List.singleton_append]
  rw [names_ofList, names_ofList, hwhole, hnames,
    namesOf_lead hlead ⟨between ++ last :: after, hbody.symm⟩, List.append_assoc]

/-- The parent of a path is the beginning of it, and starts where it does. The last name holds no
slash. -/
theorem prefix_of_split? {path parent last : List Char} (h : split? path = some (parent, last))
    (hlast : last ≠ ['.']) :
    parent <+: path ∧ (parent.head? = some '/' ↔ path.head? = some '/') ∧ '/' ∉ last := by
  obtain ⟨lead, body, front, between, after, hlead, hbody, -, -, rfl, -⟩ :=
    exists_segments_of_split? h hlast
  have hpath := lead_append_body path
  rw [hlead] at hpath
  have hbegins : lead ++ joinSegments front <+: path := by
    obtain ⟨rest, hrest⟩ := joinSegments_prefix_append front (between ++ last :: after)
    rw [← hbody, joinSegments_segments] at hrest
    exact ⟨rest, by rw [List.append_assoc, hrest, hpath]⟩
  refine ⟨hbegins, ⟨fun hhead => ?_, fun hhead => ?_⟩, ?_⟩
  · obtain ⟨rest, rfl⟩ := hbegins
    rw [List.head?_append, hhead]
    rfl
  · have hroot := splitLead_of_head? hhead
    rw [hlead] at hroot
    obtain rfl : lead = ['/'] := hroot
    rfl
  · have hmem : last ∈ segments body := by simp [hbody]
    exact slash_notMem_of_mem_segments hmem

/-- A path that is not split at a proper piece has dots for names. -/
theorem eq_dot_of_split? {path : List Char}
    (h : ∀ parent last, split? path = some (parent, last) → last = ['.']) {name : String}
    (hname : name ∈ FileTree.names (String.ofList path)) : name = "." := by
  rcases hlead : splitLead path with ⟨lead, body⟩
  have hskipped : ∀ s ∈ segments body, isSkipped s = true := by
    cases hdrop : (segments body).reverse.dropWhile isSkipped with
    | nil =>
        have hall := List.takeWhile_append_dropWhile (p := isSkipped) (l := (segments body).reverse)
        rw [hdrop, List.append_nil] at hall
        intro s hs
        rw [← List.mem_reverse, ← hall] at hs
        exact List.all_eq_true.mp List.all_takeWhile s hs
    | cons l before =>
        have hl : l = ['.'] := by
          refine h (lead ++ joinSegments (before.dropWhile isSkipped).reverse) l ?_
          simp only [split?, hlead, hdrop]
        have hhead := List.head_dropWhile_not isSkipped (l := (segments body).reverse)
          (by rw [hdrop]; simp)
        simp only [hdrop, List.head_cons, hl] at hhead
        simp [isSkipped] at hhead
  have hpath := lead_append_body path
  have hwhole := namesOf_lead hlead (List.prefix_refl (segments body))
  rw [hlead] at hpath
  rw [joinSegments_segments, hpath, ← names_ofList] at hwhole
  rw [hwhole, List.mem_append] at hname
  rcases hname with hname | hname
  · split at hname
    · exact List.mem_singleton.mp hname
    · simp at hname
  · exact eq_dot_of_mem_namesOf hskipped hname

/-- A path that ends in a proper name has a parent and that name, with dots between them at most. -/
theorem names_of_endsInName {path : String} (h : FileTree.endsInName path = true) :
    ∃ (parent name : String) (between : List String),
      split? path.toList = some (parent.toList, name.toList) ∧ name ≠ "." ∧ name ≠ ".." ∧
      (∀ n ∈ between, n = ".") ∧
      FileTree.names path = FileTree.names parent ++ (between ++ [name]) := by
  simp only [FileTree.endsInName] at h
  split at h
  · simp at h
  · rename_i name hname
    simp only [Bool.and_eq_true, bne_iff_ne] at h
    have hmem := List.mem_of_getLast? hname
    have hofList : String.ofList path.toList = path := String.ofList_toList
    by_cases hdots : ∀ parent last, split? path.toList = some (parent, last) → last = ['.']
    · exact absurd (eq_dot_of_split? hdots (by rwa [hofList])) h.1
    · simp only [Classical.not_forall] at hdots
      obtain ⟨parent, last, hsplit, hlast⟩ := hdots
      obtain ⟨between, after, hbetween, hafter, hnames⟩ := names_of_split? hsplit hlast
      rw [hofList] at hnames
      -- the last name is proper, so nothing comes after it
      obtain rfl : after = [] := by
        rcases List.eq_nil_or_concat after with rfl | ⟨before, a, rfl⟩
        · rfl
        · rw [hnames, List.concat_eq_append, ← List.cons_append, ← List.append_assoc,
            ← List.append_assoc, List.getLast?_concat] at hname
          obtain rfl : a = name := Option.some.inj hname
          exact absurd (hafter a (by simp)) h.1
      obtain rfl : String.ofList last = name := by
        rw [hnames, ← List.append_assoc, List.getLast?_concat] at hname
        exact Option.some.inj hname
      refine ⟨String.ofList parent, String.ofList last, between, ?_, h.1, h.2, hbetween, hnames⟩
      rw [String.toList_ofList, String.toList_ofList, hsplit]

/-- A path that splits off a last name has what is in front of it as its parent. -/
theorem parent?_of_split? {path parent name : String}
    (h : split? path.toList = some (parent.toList, name.toList)) :
    parent? path = some parent := by
  rw [parent?, h, Option.map_some]
  exact congrArg some String.ofList_toList

/-- The last name that a path splits off is its file name, unless it is one of the two dots. -/
theorem fileName?_of_split? {path parent name : String}
    (h : split? path.toList = some (parent.toList, name.toList)) (hdot : name ≠ ".")
    (hup : name ≠ "..") : fileName? path = some name := by
  have hdot' : name.toList ≠ ['.'] := fun he => hdot (String.toList_inj.mp he)
  have hup' : name.toList ≠ ['.', '.'] := fun he => hup (String.toList_inj.mp he)
  rw [fileName?, h, Option.bind_some]
  simp only [hdot', hup', or_self, if_false, String.ofList_toList]

/-! ### Longer paths -/

/-- The names of a path are those among its segments. -/
theorem names_eq_namesOf (path : String) : FileTree.names path = namesOf (segments path.toList) :=
  rfl

/-- A name that is joined to a path comes after its names. -/
theorem names_join {path next : String} (hslash : '/' ∉ next.toList) (hne : next ≠ "") :
    FileTree.names (join path next) = FileTree.names path ++ [next] := by
  have hnext : FileTree.names next = [next] := by
    rw [names_eq_namesOf, segments_of_slash_notMem hslash,
      namesOf_singleton (by simpa using hne), String.ofList_toList]
  have hhead : next.toList.head? ≠ some '/' := fun h => hslash (List.mem_of_head? h)
  rw [join]
  split
  · rename_i h
    have hempty : path = "" := by simpa [hhead] using h
    rw [hempty, hnext]
    rfl
  · split
    · rename_i hslashed
      obtain ⟨before, hbefore⟩ := List.getLast?_eq_some_iff.mp hslashed
      rw [← hnext, names_eq_namesOf, names_eq_namesOf, names_eq_namesOf, ← namesOf_append,
        String.toList_append, hbefore, List.append_assoc, List.singleton_append,
        segments_append_slash, segments_append_slash, namesOf_append, namesOf_append,
        namesOf_append, List.append_assoc]
      rfl
    · rw [← hnext, names_eq_namesOf, names_eq_namesOf, names_eq_namesOf, ← namesOf_append,
        String.toList_append, String.toList_append, List.append_assoc]
      exact congrArg namesOf (segments_append_slash path.toList next.toList)

/-- A path that leads on is the path with more text. -/
theorem exists_join_eq_append (path : String) {next : String} (hslash : '/' ∉ next.toList) :
    ∃ rest, join path next = path ++ rest ∧ (rest = next ∨ rest = "/" ++ next) := by
  have hhead : next.toList.head? ≠ some '/' := fun h => hslash (List.mem_of_head? h)
  rw [join]
  split
  · rename_i h
    obtain rfl : path = "" := by simpa [hhead] using h
    exact ⟨next, by simp, .inl rfl⟩
  · split
    · exact ⟨next, rfl, .inl rfl⟩
    · exact ⟨"/" ++ next, String.append_assoc, .inr rfl⟩

/-- A path that leads on starts where the path does. -/
theorem isAbsolute_join {path next : String} (hslash : '/' ∉ next.toList) :
    FileTree.isAbsolute (join path next) = FileTree.isAbsolute path := by
  have hhead : next.toList.head? ≠ some '/' := fun h => hslash (List.mem_of_head? h)
  rw [join]
  split
  · rename_i h
    obtain rfl : path = "" := by simpa [hhead] using h
    simpa [FileTree.isAbsolute] using hhead
  · rename_i h
    have hpath : path.toList ≠ [] := by
      intro hnil
      simp [String.toList_eq_nil_iff.mp hnil] at h
    obtain ⟨c, cs, hcs⟩ := List.exists_cons_of_ne_nil hpath
    split <;> simp [FileTree.isAbsolute, String.toList_append, hcs]

end Path

/-! ### Temporary names -/

/-- The temporary name of a file starts with a dot and ends in `.tmp`. -/
theorem temporaryName_toList (name : String) :
    (temporaryName name).toList = '.' :: (name.toList ++ ['.', 't', 'm', 'p']) := by
  rw [temporaryName, String.toList_append, String.toList_append]
  rfl

/-- A temporary name is another name. -/
theorem temporaryName_ne (name : String) : temporaryName name ≠ name := by
  intro h
  have hlength := congrArg (fun s => s.toList.length) h
  simp only [temporaryName_toList, List.length_cons, List.length_append, List.length_nil] at hlength
  omega

/-- A temporary name is proper. -/
theorem temporaryName_proper (name : String) :
    temporaryName name ≠ "" ∧ temporaryName name ≠ "." ∧ temporaryName name ≠ ".." := by
  have hlength : 5 ≤ (temporaryName name).toList.length := by
    simp only [temporaryName_toList, List.length_cons, List.length_append, List.length_nil]
    omega
  refine ⟨?_, ?_, ?_⟩ <;>
  · intro h
    rw [h] at hlength
    exact absurd hlength (by decide)

namespace FileTree

/-! ### Where parents and temporary paths lead -/

variable {t : FileTree} {here : Option Location} {path : String} {d l : Location}

/-- Dots lead nowhere else. -/
theorem eq_of_foldlM_dots {names : List String} (h : ∀ n ∈ names, n = ".")
    (hl : names.foldlM t.step d = .ok l) : l = d := by
  induction names with
  | nil => exact (Except.ok.inj hl).symm
  | cons n names ih =>
      obtain rfl := h n List.mem_cons_self
      rw [List.foldlM_cons] at hl
      rcases hd : t.get? d with - | - | id
      · simp [step, hd, bind, Except.bind] at hl
      · have hstep : t.step d "." = .ok d := by simp [step, hd]
        rw [hstep] at hl
        exact ih (fun m hm => h m (List.mem_cons_of_mem "." hm)) hl
      · simp [step, hd, bind, Except.bind] at hl

/-- A path without names starts at the root. -/
theorem isAbsolute_of_names_eq_nil (h : names path = []) (hne : path.isEmpty = false) :
    isAbsolute path = true := by
  rw [Path.names_eq_namesOf] at h
  rcases hpath : path.toList with - | ⟨c, cs⟩
  · rw [String.toList_eq_nil_iff] at hpath
    subst hpath
    exact absurd hne (by simp)
  · by_cases hc : c = '/'
    · simp [isAbsolute, hpath, hc]
    · rw [hpath, Path.segments, if_neg hc] at h
      split at h <;> simp [Path.namesOf] at h

/-- A path that does not end in a proper name leads to a directory, or nowhere. -/
theorem get?_of_not_endsInName (hl : t.locate here path = .ok l)
    (hn : endsInName path = false) : t.get? l = some .directory := by
  obtain ⟨-, hempty, -, start, hstart, hfold⟩ := locate_eq_ok_iff.mp hl
  rcases List.eq_nil_or_concat (names path) with hnil | ⟨before, name, hnames⟩
  · rw [isAbsolute_of_names_eq_nil hnil hempty, if_pos rfl] at hstart
    obtain rfl := Option.some.inj hstart
    rw [hnil] at hfold
    obtain rfl := Except.ok.inj hfold
    rfl
  · rw [List.concat_eq_append] at hnames
    rw [hnames, foldlM_append_eq_ok] at hfold
    obtain ⟨m, -, hlast⟩ := hfold
    have hstep := foldlM_singleton_eq_ok.mp hlast
    have hdots : name = "." ∨ name = ".." := by
      have hlast? : (names path).getLast? = some name := by rw [hnames, List.getLast?_concat]
      simp only [endsInName, hlast?] at hn
      by_cases hdot : name = "."
      · exact .inl hdot
      · exact .inr (by simpa [hdot] using hn)
    rcases hm : t.get? m with - | - | id
    · simp [step, hm] at hstep
    · rcases hdots with rfl | rfl
      · obtain rfl : m = l := by simpa [step, hm] using hstep
        exact hm
      · obtain rfl : m.dropLast = l := by simpa [step, hm] using hstep
        exact t.get?_of_prefix_directory (List.dropLast_prefix m) hm
    · simp [step, hm] at hstep

/-- A path that ends in a proper name and leads somewhere leads from its parent to that name. -/
theorem exists_parent_of_locate (hl : t.locate here path = .ok l) (hn : endsInName path = true) :
    ∃ parent name start d, Path.split? path.toList = some (parent.toList, name.toList) ∧
      name ≠ "." ∧ name ≠ ".." ∧ (if isAbsolute path then some [] else here) = some start ∧
      (names parent).foldlM t.step start = .ok d ∧ t.get? d = some .directory ∧
      l = d ++ [name] := by
  obtain ⟨parent, name, between, hsplit, hdot, hup, hbetween, hnames⟩ :=
    Path.names_of_endsInName hn
  obtain ⟨-, -, -, start, hstart, hfold⟩ := locate_eq_ok_iff.mp hl
  rw [hnames, foldlM_append_eq_ok] at hfold
  obtain ⟨d, hparent, hfold⟩ := hfold
  obtain ⟨d', hdots, hlast⟩ := foldlM_append_eq_ok.mp hfold
  obtain rfl := eq_of_foldlM_dots hbetween hdots
  obtain ⟨rfl, hd, -⟩ := step_eq_append (foldlM_singleton_eq_ok.mp hlast) hdot hup
  exact ⟨parent, name, start, d', hsplit, hdot, hup, hstart, hparent, hd, rfl⟩

/-- **The temporary name stands beside the name of the path**, in the same directory. -/
theorem locate_temporaryPath {temporary : String} {l' : Location}
    (hl : t.locate here path = .ok l) (hn : endsInName path = true)
    (htemporary : temporaryPath? path = some temporary)
    (hl' : t.locate here temporary = .ok l') :
    ∃ d name, Path.fileName? path = some name ∧ t.get? d = some .directory ∧ l = d ++ [name] ∧
      l' = d ++ [temporaryName name] := by
  obtain ⟨parent, name, start, d, hsplit, hdot, hup, hstart, hparent, hd, rfl⟩ :=
    exists_parent_of_locate hl hn
  have hname := Path.fileName?_of_split? hsplit hdot hup
  refine ⟨d, name, hname, hd, rfl, ?_⟩
  obtain ⟨-, hhead, hslash⟩ := Path.prefix_of_split? hsplit fun he =>
    hdot (String.toList_inj.mp he)
  have hslash' : '/' ∉ (temporaryName name).toList := by
    rw [temporaryName_toList]
    simp [hslash]
  obtain ⟨hne, hdot', hup'⟩ := temporaryName_proper name
  obtain rfl : Path.join parent (temporaryName name) = temporary := by
    rw [temporaryPath?, hname, Path.parent?_of_split? hsplit] at htemporary
    exact Option.some.inj htemporary
  have habsolute : isAbsolute parent = isAbsolute path := by
    rw [isAbsolute, isAbsolute, Bool.eq_iff_iff, beq_iff_eq, beq_iff_eq]
    exact hhead
  obtain ⟨-, -, -, start', hstart', hfold⟩ := locate_eq_ok_iff.mp hl'
  rw [Path.isAbsolute_join hslash', habsolute, hstart] at hstart'
  obtain rfl := Option.some.inj hstart'
  rw [Path.names_join hslash' hne, foldlM_append_eq_ok] at hfold
  obtain ⟨d', hd', hlast⟩ := hfold
  obtain rfl : d = d' := Except.ok.inj (hparent.symm.trans hd')
  exact (step_eq_append (foldlM_singleton_eq_ok.mp hlast) hdot' hup').1

/-- What stands at the front of a path that is acceptable as a text is acceptable too. -/
theorem locate_front {front rest : String} {start : Location}
    (hl : t.locate here (front ++ rest) = .ok l) (hne : front ≠ "")
    (hstart : (if isAbsolute front then some [] else here) = some start)
    (hfold : (names front).foldlM t.step start = .ok d) : t.locate here front = .ok d := by
  obtain ⟨hnull, -, hlimit, -⟩ := locate_eq_ok_iff.mp hl
  refine locate_eq_ok_iff.mpr ⟨?_, by simpa using hne, ?_, start, hstart, hfold⟩
  · rw [String.toList_append] at hnull
    rw [Bool.eq_false_iff] at hnull ⊢
    exact fun h => hnull (by simpa using .inl (by simpa using h))
  · rw [String.utf8ByteSize_append] at hlimit
    omega

/-- A path that leads on by a proper name ends in it. -/
theorem endsInName_join {next : String} (hslash : '/' ∉ next.toList) (hne : next ≠ "")
    (hdot : next ≠ ".") (hup : next ≠ "..") : endsInName (Path.join path next) = true := by
  simp [endsInName, Path.names_join hslash hne, hdot, hup]

/-- A path that leads on by a name need not be that of a directory. -/
theorem wantsDirectory_join {next : String} (hslash : '/' ∉ next.toList) (hne : next ≠ "") :
    wantsDirectory (Path.join path next) = false := by
  obtain ⟨rest, hrest, hnext⟩ := Path.exists_join_eq_append path hslash
  obtain ⟨before, c, hc⟩ := (List.eq_nil_or_concat next.toList).resolve_left
    (mt String.toList_eq_nil_iff.mp hne)
  have hne' : c ≠ '/' := by
    rintro rfl
    exact hslash (by simp [hc])
  have hlast : ∃ front, (Path.join path next).toList = front ++ [c] := by
    rw [hrest]
    rcases hnext with rfl | rfl
    · exact ⟨path.toList ++ before, by simp [hc]⟩
    · exact ⟨path.toList ++ '/' :: before, by simp [hc]⟩
  obtain ⟨front, hfront⟩ := hlast
  simp [wantsDirectory, hfront, hne']

/-- The temporary path ends in a proper name and has no slash behind it. -/
theorem endsInName_temporaryPath {temporary : String} (hl : t.locate here path = .ok l)
    (hn : endsInName path = true) (htemporary : temporaryPath? path = some temporary) :
    endsInName temporary = true ∧ wantsDirectory temporary = false := by
  obtain ⟨parent, name, -, -, hsplit, hdot, hup, -⟩ := exists_parent_of_locate hl hn
  obtain ⟨-, -, hslash⟩ := Path.prefix_of_split? hsplit fun he => hdot (String.toList_inj.mp he)
  have hslash' : '/' ∉ (temporaryName name).toList := by
    rw [temporaryName_toList]
    simp [hslash]
  obtain ⟨hne, hdot', hup'⟩ := temporaryName_proper name
  rw [temporaryPath?, Path.fileName?_of_split? hsplit hdot hup, Path.parent?_of_split? hsplit]
    at htemporary
  obtain rfl := Option.some.inj htemporary
  exact ⟨endsInName_join hslash' hne hdot' hup', wantsDirectory_join hslash' hne⟩

/-- **A path that leads on by a proper name** leads to that name in the directory that the path
leads to. -/
theorem locate_join {next : String} (hslash : '/' ∉ next.toList) (hne : next ≠ "")
    (hdot : next ≠ ".") (hup : next ≠ "..") (hl : t.locate here (Path.join path next) = .ok l) :
    ∃ d, l = d ++ [next] ∧ t.get? d = some .directory ∧
      (path ≠ "" → t.locate here path = .ok d) := by
  obtain ⟨-, -, -, start, hstart, hfold⟩ := locate_eq_ok_iff.mp hl
  rw [Path.names_join hslash hne, foldlM_append_eq_ok] at hfold
  obtain ⟨d, hpath, hlast⟩ := hfold
  obtain ⟨rfl, hd, -⟩ := step_eq_append (foldlM_singleton_eq_ok.mp hlast) hdot hup
  refine ⟨d, rfl, hd, fun hempty => ?_⟩
  obtain ⟨rest, hrest, -⟩ := Path.exists_join_eq_append path hslash
  rw [Path.isAbsolute_join hslash] at hstart
  rw [hrest] at hl
  exact locate_front hl hempty hstart hpath

/-- From a directory a path leads on to any short name, unless it is too long as a text. -/
theorem exists_locate_join {next : String} (hslash : '/' ∉ next.toList) (hne : next ≠ "")
    (hdot : next ≠ ".") (hup : next ≠ "..") (hnull : '\x00' ∉ next.toList)
    (hshort : next.utf8ByteSize ≤ nameLimit) (hl : t.locate here path = .ok d)
    (hd : t.get? d = some .directory) :
    t.locate here (Path.join path next) = .ok (d ++ [next]) ∨
      t.locate here (Path.join path next) = .error .nameTooLong := by
  obtain ⟨hnull', hempty, -, start, hstart, hfold⟩ := locate_eq_ok_iff.mp hl
  obtain ⟨rest, hrest, hnext⟩ := Path.exists_join_eq_append path hslash
  have hclean : (Path.join path next).toList.contains '\x00' = false := by
    have hpath : '\x00' ∉ path.toList := by simpa using hnull'
    rw [hrest]
    rcases hnext with rfl | rfl <;> simp [String.toList_append, hpath, hnull]
  have hfilled : (Path.join path next).isEmpty = false := by
    rw [hrest]
    simp_all
  by_cases hlimit : pathLimit ≤ (Path.join path next).utf8ByteSize
  · right
    simp only [locate, hclean, hfilled, Bool.false_eq_true, if_false, if_pos hlimit]
  · left
    refine locate_eq_ok_iff.mpr ⟨hclean, hfilled, hlimit, start, ?_, ?_⟩
    · rwa [Path.isAbsolute_join hslash]
    · rw [Path.names_join hslash hne, foldlM_append_eq_ok]
      refine ⟨d, hfold, foldlM_singleton_eq_ok.mpr ?_⟩
      simp [step, hd, hdot, hup, Nat.not_lt.mpr hshort]

/-- **The parent of a path that leads somewhere is there**, unless it is the working directory,
which has no text. -/
theorem isDirectory_parent (hl : t.locate here path = .ok l) (hn : endsInName path = true) :
    ∃ parent, Path.parent? path = some parent ∧
      (parent = "" ∨ t.isDirectory here parent = true) := by
  obtain ⟨parent, name, start, d, hsplit, hdot, hup, hstart, hparent, hd, rfl⟩ :=
    exists_parent_of_locate hl hn
  refine ⟨parent, Path.parent?_of_split? hsplit, ?_⟩
  obtain ⟨⟨rest, hrest⟩, hhead, -⟩ := Path.prefix_of_split? hsplit fun he =>
    hdot (String.toList_inj.mp he)
  by_cases hempty : parent = ""
  · exact .inl hempty
  refine .inr ?_
  have habsolute : isAbsolute parent = isAbsolute path := by
    rw [isAbsolute, isAbsolute, Bool.eq_iff_iff, beq_iff_eq, beq_iff_eq]
    exact hhead
  have hpath : path = parent ++ String.ofList rest := by
    rw [← String.toList_inj, String.toList_append, String.toList_ofList, hrest]
  rw [hpath] at hl
  rw [← habsolute] at hstart
  have hfound := locate_front hl hempty hstart hparent
  simp only [isDirectory, find, hfound, hd]

end FileTree

end Outreach
