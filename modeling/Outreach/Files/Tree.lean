import Outreach.Files.FileError
import Outreach.Files.Path

/-!
# File Trees

A file tree says which names stand for directories and which for files. A file is a number, and
its bytes are kept under that number, so that a file that has been opened stays the same file when
its name changes or goes.

Paths are looked up name by name. A name on the way must be a directory, a name has at most 255
bytes and a path fewer than 4096.

## Main results

* `FileTree.get?_place`: what stands where after one entry has been placed.
* `FileTree.get?_removeBelow`: what stands where after an entry and all below it have gone.
* `FileTree.get?_of_prefix_directory`: whatever lies above a directory is a directory.
* `FileTree.locate_endsInName`: a path that ends in a proper name leads into a directory, to where
  an entry can stand.
-/

namespace Outreach

/-- A **location**: the names that lead from the root to a place. -/
abbrev Location := List String

/-- The number of a file, under which its bytes are kept whatever names it has. Two locations that
hold the same number are two names of one file. -/
abbrev FileId := Nat

/-- What a location holds: a directory, or a file by its number. Other kinds of entries, such as
symbolic links, do not occur. -/
inductive FileEntry where
  | directory
  | file (id : FileId)
  deriving DecidableEq, Repr

/-- What a location holds by a list of entries. The root is always a directory. -/
def entryAt (es : List (Location × FileEntry)) (l : Location) : Option FileEntry :=
  if l = [] then some .directory else es.lookup l

/-- A look-up among the entries whose locations pass a test gives what it gave, or nothing. -/
theorem lookup_filter_fst {l : Location} (p : Location → Bool) (es : List (Location × FileEntry)) :
    (es.filter fun e => p e.1).lookup l = if p l then es.lookup l else none := by
  induction es with
  | nil => simp
  | cons e es ih =>
    obtain ⟨a, v⟩ := e
    rw [List.filter_cons]
    by_cases hl : l = a
    · subst hl
      by_cases hp : p l = true
      · simp [hp]
      · simpa [hp] using ih
    · have hb : (l == a) = false := beq_eq_false_iff_ne.2 hl
      by_cases hp : p a = true
      · simp [hp, List.lookup_cons, hb, ih]
      · simp [hp, List.lookup_cons, hb, ih]

/-- An entry that is put at a location stands there, and every other location holds what it held. -/
theorem entryAt_place (es : List (Location × FileEntry)) {l : Location} (hl : l ≠ [])
    (e : FileEntry) (k : Location) :
    entryAt ((l, e) :: es.filter (·.1 != l)) k = if k = l then some e else entryAt es k := by
  simp only [entryAt]
  by_cases hk : k = []
  · subst hk
    simp [Ne.symm hl]
  · simp only [hk, if_false, List.lookup_cons]
    by_cases h : k = l
    · simp [h]
    · simp only [beq_eq_false_iff_ne.2 h, h, if_false]
      rw [lookup_filter_fst (fun a => a != l)]
      simp [h]

/-- Removing a location removes all that stands below it, and no more. -/
theorem entryAt_removeBelow (es : List (Location × FileEntry)) (l k : Location) :
    entryAt (es.filter fun e => !l.isPrefixOf e.1) k =
      if k = [] then some .directory else if l.isPrefixOf k then none else entryAt es k := by
  simp only [entryAt]
  by_cases hk : k = []
  · simp [hk]
  · simp only [hk, if_false]
    rw [lookup_filter_fst (fun a => !l.isPrefixOf a)]
    cases l.isPrefixOf k <;> simp

/-- The most bytes that a name may have, counted in UTF-8. A longer name is refused wherever it
stands in a path. -/
def nameLimit : Nat := 255

/-- A name that an entry **can have**: a proper one that is short enough and holds no null
character. -/
structure IsEntryName (name : String) : Prop extends Path.IsProper name where
  null : '\x00' ∉ name.toList
  short : name.utf8ByteSize ≤ nameLimit

instance (name : String) : Decidable (IsEntryName name) :=
  decidable_of_iff (Path.IsProper name ∧ '\x00' ∉ name.toList ∧ name.utf8ByteSize ≤ nameLimit)
    ⟨fun h => ⟨h.1, h.2.1, h.2.2⟩, fun h => ⟨h.toIsProper, h.null, h.short⟩⟩

/-- A **file tree**. The root is always a directory and is not listed. Whatever else stands
somewhere stands in a directory under a name that an entry can have, and every file has its
bytes. -/
structure FileTree where
  entries : List (Location × FileEntry)
  /-- The bytes of the files by their numbers. -/
  contents : List ByteArray
  /-- What stands somewhere stands in a directory. -/
  rooted : ∀ l e, entryAt entries l = some e → entryAt entries l.dropLast = some .directory
  /-- What stands somewhere has names that entries can have. -/
  named : ∀ l e, entryAt entries l = some e → ∀ name ∈ l, IsEntryName name
  /-- Every file has its bytes. -/
  held : ∀ l id, entryAt entries l = some (.file id) → id < contents.length

namespace FileTree

/-- The tree of a root without entries, in which no file has been made yet. -/
def empty : FileTree where
  entries := []
  contents := []
  rooted l e h := by
    by_cases hl : l = []
    · simp [hl, entryAt]
    · simp [entryAt, hl] at h
  named l e h := by
    by_cases hl : l = []
    · simp [hl]
    · simp [entryAt, hl] at h
  held l id h := by
    by_cases hl : l = [] <;> simp [entryAt, hl] at h

instance : Inhabited FileTree := ⟨empty⟩

/-- What a location holds, or `none` if nothing stands there. The root always holds a directory. -/
def get? (t : FileTree) (l : Location) : Option FileEntry :=
  entryAt t.entries l

/-- The bytes of a file. A number that no file has been given yet stands for no bytes. -/
def content (t : FileTree) (id : FileId) : ByteArray :=
  t.contents[id]?.getD .empty

/-- An entry is **admitted** at a location that stands in a directory and has a name for it. A file
takes the place of no directory, and brings its bytes. -/
structure Admits (t : FileTree) (l : Location) (e : FileEntry) : Prop where
  proper : l ≠ []
  parent : t.get? l.dropLast = some .directory
  named : ∀ name ∈ l, IsEntryName name
  leaf : e = .directory ∨ t.get? l ≠ some .directory
  bytes : ∀ id, e = .file id → id < t.contents.length

/-- A directory is admitted wherever its parent is one. -/
theorem admits_directory {t : FileTree} {l : Location} (hl : l ≠ [])
    (hp : t.get? l.dropLast = some .directory) (hnames : ∀ name ∈ l, IsEntryName name) :
    t.Admits l .directory :=
  ⟨hl, hp, hnames, .inl rfl, nofun⟩

/-- Put an entry at a location, in place of what it held. -/
def place (t : FileTree) (l : Location) (e : FileEntry)
    (h : t.Admits l e := by exact FileTree.admits_directory (by decide) rfl (by decide)) : FileTree where
  entries := (l, e) :: t.entries.filter (·.1 != l)
  contents := t.contents
  rooted k e' hk := by
    have hne : l.dropLast ≠ l := fun he => by
      have := congrArg List.length he
      have := List.length_pos_iff.2 h.proper
      simp only [List.length_dropLast] at *
      omega
    rw [entryAt_place _ h.proper] at hk ⊢
    by_cases hkl : k = l
    · subst hkl
      rw [if_neg hne]
      exact h.parent
    · rw [if_neg hkl] at hk
      have hd := t.rooted k e' hk
      by_cases hdl : k.dropLast = l
      · rw [if_pos hdl]
        rw [hdl] at hd
        exact congrArg some (h.leaf.resolve_right (not_not_intro hd))
      · rw [if_neg hdl]
        exact hd
  named k e' hk := by
    rw [entryAt_place _ h.proper] at hk
    by_cases hkl : k = l
    · exact hkl ▸ h.named
    · rw [if_neg hkl] at hk
      exact t.named k e' hk
  held k id hk := by
    rw [entryAt_place _ h.proper] at hk
    by_cases hkl : k = l
    · rw [if_pos hkl] at hk
      exact h.bytes id (Option.some.inj hk)
    · rw [if_neg hkl] at hk
      exact t.held k id hk

/-- Take away a location and all that stands below it. The bytes of files stay, since other names
or open handles may still lead to them. -/
def removeBelow (t : FileTree) (l : Location) : FileTree where
  entries := t.entries.filter fun e => !l.isPrefixOf e.1
  contents := t.contents
  rooted k e hk := by
    rw [entryAt_removeBelow] at hk ⊢
    by_cases hd : k.dropLast = []
    · simp [hd]
    · have hne : k ≠ [] := fun he => hd (by simp [he])
      have hpre : l.isPrefixOf k.dropLast = true → l.isPrefixOf k = true := by
        simp only [List.isPrefixOf_iff_prefix]
        exact fun h => h.trans (List.dropLast_prefix k)
      rw [if_neg hne] at hk
      rw [if_neg hd]
      split at hk
      · simp at hk
      · rename_i hlk
        rw [if_neg (fun h => hlk (hpre h))]
        exact t.rooted k e hk
  named k e hk := by
    rw [entryAt_removeBelow] at hk
    split at hk
    · rename_i hroot
      simp [hroot]
    · split at hk
      · simp at hk
      · exact t.named k e hk
  held k id hk := by
    rw [entryAt_removeBelow] at hk
    split at hk
    · simp at hk
    · split at hk
      · simp at hk
      · exact t.held k id hk

/-- Give a file other bytes. They are seen under every name of the file, and no entry changes. -/
def setContent (t : FileTree) (id : FileId) (bytes : ByteArray) : FileTree where
  entries := t.entries
  contents := t.contents.set id bytes
  rooted := t.rooted
  named := t.named
  held l id h := by simpa using t.held l id h

/-- Keep the bytes of one more file, which has no name yet. -/
def grow (t : FileTree) : FileTree where
  entries := t.entries
  contents := t.contents ++ [.empty]
  rooted := t.rooted
  named := t.named
  held l id h := by simpa using Nat.lt_succ_of_lt (t.held l id h)

/-- A new file is admitted where nothing stands in a directory. -/
theorem admits_newFile {t : FileTree} {l : Location} (hl : l ≠ [])
    (hp : t.get? l.dropLast = some .directory) (hnames : ∀ name ∈ l, IsEntryName name)
    (hn : t.get? l = none) : t.grow.Admits l (.file t.contents.length) where
  proper := hl
  parent := hp
  named := hnames
  leaf := .inr (by
    change t.get? l ≠ _
    simp [hn])
  bytes id h := by
    obtain rfl : t.contents.length = id := FileEntry.file.inj h
    simp [grow]

/-- A new file at a location in which nothing stands, and its number. -/
def addFile (t : FileTree) (l : Location) (hl : l ≠ [])
    (hp : t.get? l.dropLast = some .directory) (hnames : ∀ name ∈ l, IsEntryName name)
    (hn : t.get? l = none) : FileId × FileTree :=
  (t.contents.length, t.grow.place l (.file t.contents.length) (admits_newFile hl hp hnames hn))

/-! ### What stands where after a change -/

/-- Placing an entry changes what its location holds and nothing else. -/
@[simp] theorem get?_place (t : FileTree) {l : Location} {e : FileEntry} (h : t.Admits l e)
    (k : Location) : (t.place l e h).get? k = if k = l then some e else t.get? k :=
  entryAt_place t.entries h.proper e k

/-- A removed location and all below it hold nothing; the others hold what they held. -/
theorem get?_removeBelow (t : FileTree) {l : Location} (hl : l ≠ []) (k : Location) :
    (t.removeBelow l).get? k = if l.isPrefixOf k then none else t.get? k := by
  simp only [get?, removeBelow, entryAt_removeBelow]
  by_cases hk : k = []
  · subst hk
    cases l with
    | nil => exact absurd rfl hl
    | cons a l => simp [List.isPrefixOf, entryAt]
  · simp [hk]

/-- Writing the content of a file changes no entry of the tree. -/
@[simp] theorem get?_setContent (t : FileTree) (id : FileId) (bytes : ByteArray) (k : Location) :
    (t.setContent id bytes).get? k = t.get? k := rfl

/-- Whatever lies above a directory is a directory. -/
theorem get?_of_prefix_directory (t : FileTree) {l k : Location} (hpre : l <+: k)
    (hk : t.get? k = some .directory) : t.get? l = some .directory := by
  rcases List.eq_nil_or_concat k with rfl | ⟨p, name, hkp⟩
  · rwa [List.prefix_nil.1 hpre]
  · rw [List.concat_eq_append] at hkp
    subst hkp
    rcases List.prefix_concat_iff.1 hpre with rfl | hpre
    · exact hk
    · have hp := t.rooted _ _ hk
      rw [List.dropLast_concat] at hp
      exact t.get?_of_prefix_directory hpre hp
termination_by k.length

/-! ### Looking up paths -/

/-- The number of bytes from which on a path is too long. -/
def pathLimit : Nat := 4096

/-- One name further from a location, which must be a directory. A dot stays there, two dots go
back by one name (at the root nowhere), and any other name goes on to it, whether something stands
there or not. -/
def step (t : FileTree) (here : Location) (name : String) : Except FileError Location :=
  match t.get? here with
  | none => .error .notFound
  | some (.file _) => .error .notDirectory
  | some .directory =>
    if name = "." then .ok here
    else if name = ".." then .ok here.dropLast
    else if nameLimit < name.utf8ByteSize then .error .nameTooLong
    else .ok (here ++ [name])

/-- Whether a path starts at the root. Any other path starts at the working directory. -/
def isAbsolute (path : String) : Bool :=
  path.toList.head? == some '/'

/-- Whether a path ends in a slash, and so has to be a directory. -/
def wantsDirectory (path : String) : Bool :=
  path.toList.getLast? == some '/'

/-- The names of a path: its pieces between slashes, without the empty ones. Dots are names too,
and are followed one by one. -/
def names (path : String) : List String :=
  ((Path.segments path.toList).filter (· != [])).map String.ofList

/-- Whether the last name of a path is a proper one, which can be given to an entry. -/
def endsInName (path : String) : Bool :=
  match (names path).getLast? with
  | none => false
  | some name => name != "." && name != ".."

/-- The location that a path leads to from a working directory, which need not exist any more. All
but the last name have been found to be directories. -/
def locate (t : FileTree) (here : Option Location) (path : String) : Except FileError Location :=
  if path.toList.contains '\x00' then .error .nullInPath
  else if path.isEmpty then .error .notFound
  else if pathLimit ≤ path.utf8ByteSize then .error .nameTooLong
  else
    match if isAbsolute path then some [] else here with
    | none => .error .notFound
    | some start => (names path).foldlM t.step start

/-- A plain name leads from a directory to the place of that name in it, if the name is not too
long. -/
theorem step_eq_append {t : FileTree} {here l : Location} {name : String}
    (h : t.step here name = .ok l) (hdot : name ≠ ".") (hup : name ≠ "..") :
    l = here ++ [name] ∧ t.get? here = some .directory ∧ name.utf8ByteSize ≤ nameLimit := by
  simp only [step, hdot, hup, if_false] at h
  split at h
  · simp at h
  · simp at h
  · rename_i hd
    split at h
    · simp at h
    · rename_i hshort
      exact ⟨(Except.ok.inj h).symm, hd, Nat.not_lt.1 hshort⟩

/-- The names of a path are not empty, hold no slash, and their characters are the path's. -/
theorem of_mem_names {path name : String} (h : name ∈ names path) :
    name ≠ "" ∧ '/' ∉ name.toList ∧ ∀ c ∈ name.toList, c ∈ path.toList := by
  obtain ⟨s, hs, rfl⟩ := List.mem_map.1 h
  obtain ⟨hmem, hne⟩ := List.mem_filter.1 hs
  rw [Ne, ← String.toList_eq_nil_iff, String.toList_ofList]
  exact ⟨bne_iff_ne.1 hne, Path.slash_notMem_of_mem_segments hmem,
    fun c => Path.mem_of_mem_segments hmem⟩

/-- A path leads somewhere if it is acceptable as a text and its names can be followed from where it
starts. -/
theorem locate_eq_ok_iff {t : FileTree} {here : Option Location} {path : String} {l : Location} :
    t.locate here path = .ok l ↔
      path.toList.contains '\x00' = false ∧ path.isEmpty = false ∧
        ¬ pathLimit ≤ path.utf8ByteSize ∧
        ∃ start, (if isAbsolute path then some [] else here) = some start ∧
          (names path).foldlM t.step start = .ok l := by
  rw [locate]
  by_cases h1 : path.toList.contains '\x00' = true
  · simp only [h1]
    simp
  by_cases h2 : path.isEmpty = true
  · simp only [h1, h2]
    simp
  by_cases h3 : pathLimit ≤ path.utf8ByteSize
  · simp only [h1, h2, h3]
    simp
  rw [if_neg h1, if_neg h2, if_neg h3]
  cases (if isAbsolute path then some [] else here) <;> simp_all

/-- Names lead where the later ones lead from where the earlier ones lead. -/
theorem foldlM_append_eq_ok {t : FileTree} {d l : Location} {xs ys : List String} :
    (xs ++ ys).foldlM t.step d = .ok l ↔
      ∃ m, xs.foldlM t.step d = .ok m ∧ ys.foldlM t.step m = .ok l := by
  rw [List.foldlM_append]
  cases xs.foldlM t.step d <;> simp [bind, Except.bind]

/-- A single name leads where its step does. -/
theorem foldlM_singleton_eq_ok {t : FileTree} {d l : Location} {name : String} :
    [name].foldlM t.step d = .ok l ↔ t.step d name = .ok l := by
  rw [List.foldlM_cons]
  cases t.step d name <;> simp [bind, Except.bind, pure, Except.pure]

/-- A path that ends in a proper name leads into a directory, and to a location whose names entries
can have. -/
theorem locate_endsInName {t : FileTree} {here : Option Location} {path : String} {l : Location}
    (h : t.locate here path = .ok l) (hn : endsInName path = true) :
    l ≠ [] ∧ t.get? l.dropLast = some .directory ∧ ∀ name ∈ l, IsEntryName name := by
  simp only [endsInName] at hn
  split at hn
  · simp at hn
  · rename_i name hlast
    simp only [Bool.and_eq_true, bne_iff_ne] at hn
    obtain ⟨before, hnames⟩ := List.getLast?_eq_some_iff.1 hlast
    obtain ⟨hnull, -, -, start, -, hfold⟩ := locate_eq_ok_iff.1 h
    rw [hnames, foldlM_append_eq_ok] at hfold
    obtain ⟨p, -, hlast'⟩ := hfold
    obtain ⟨rfl, hd, hshort⟩ := step_eq_append (foldlM_singleton_eq_ok.1 hlast') hn.1 hn.2
    obtain ⟨hfilled, hslash, hchars⟩ := of_mem_names (List.mem_of_getLast? hlast)
    have hnull' : '\x00' ∉ name.toList := fun hmem => by
      simp [hchars _ hmem] at hnull
    refine ⟨by simp, by simp [hd], fun n hmem => ?_⟩
    -- the names in front are those of a directory
    rcases List.mem_append.1 hmem with hmem | hmem
    · exact t.named p _ hd n hmem
    · obtain rfl := List.mem_singleton.1 hmem
      exact ⟨⟨hslash, hfilled, hn.1, hn.2⟩, hnull', hshort⟩

/-- What a path stands for. One that leads to nothing is not found, and one that ends in a slash
must not lead to a file. -/
def find (t : FileTree) (here : Option Location) (path : String) : Except FileError FileEntry :=
  match t.locate here path with
  | .error e => .error e
  | .ok l =>
    match t.get? l with
    | none => .error .notFound
    | some .directory => .ok .directory
    | some (.file id) => if wantsDirectory path then .error .notDirectory else .ok (.file id)

/-- Whether a path stands for anything. A path that cannot be followed counts as one that stands
for nothing. -/
def pathExists (t : FileTree) (here : Option Location) (path : String) : Bool :=
  (t.find here path).isOk

/-- Whether a path stands for a directory. A path that cannot be followed stands for none. -/
def isDirectory (t : FileTree) (here : Option Location) (path : String) : Bool :=
  match t.find here path with
  | .ok .directory => true
  | _ => false

/-- The bytes of the file that a path stands for. A directory is refused. -/
def read (t : FileTree) (here : Option Location) (path : String) : Except FileError ByteArray :=
  match t.find here path with
  | .error e => .error e
  | .ok .directory => .error .isDirectory
  | .ok (.file id) => .ok (t.content id)

/-- The text of the file that a path stands for. Bytes that are not UTF-8 are refused as no text. -/
def readText (t : FileTree) (here : Option Location) (path : String) : Except FileError String :=
  match t.read here path with
  | .error e => .error e
  | .ok bytes =>
    match String.fromUTF8? bytes with
    | none => .error .notText
    | some text => .ok text

/-! ### Changing the tree -/

/-- Make one directory, where nothing stands so far. Its parent must be there, and the path must
end in a proper name. -/
def makeDirectory (t : FileTree) (here : Option Location) (path : String) :
    Except FileError FileTree :=
  match hl : t.locate here path with
  | .error e => .error e
  | .ok l =>
    if hn : endsInName path = true ∧ t.get? l = none then
      have hin := locate_endsInName hl hn.1
      .ok (t.place l .directory (admits_directory hin.1 hin.2.1 hin.2.2))
    else .error .alreadyExists

/-- Make the first of some directories after all that follow it as far as they are needed, with the
tree that is left even if this fails half-way. The empty path needs nothing. -/
def makeDirectoriesFrom (t : FileTree) (here : Option Location) :
    List String → Except FileError Unit × FileTree
  | [] => (.error (.other "failed to create whole tree"), t)
  | path :: parents =>
    if path.isEmpty then (.ok (), t)
    else
      let settle (t : FileTree) (e : FileError) : Except FileError Unit × FileTree :=
        (if t.isDirectory here path then .ok () else .error e, t)
      match t.makeDirectory here path with
      | .ok t => (.ok (), t)
      | .error .notFound =>
        match t.makeDirectoriesFrom here parents with
        | (.error e, t) => (.error e, t)
        | (.ok (), t) =>
          match t.makeDirectory here path with
          | .ok t => (.ok (), t)
          | .error e => settle t e
      | .error e => settle t e

/-- Make a directory and the parents that it lacks, from the nearest one that is there downwards.
Directories that were made stay even if a later one fails. -/
def makeDirectories (t : FileTree) (here : Option Location) (path : String) :
    Except FileError Unit × FileTree :=
  t.makeDirectoriesFrom here (Path.ancestors path)

/-- Open a file for writing: an old one loses its bytes, a missing one is made. -/
def create (t : FileTree) (here : Option Location) (path : String) :
    Except FileError (FileId × FileTree) :=
  match hl : t.locate here path with
  | .error e => .error e
  | .ok l =>
    if hn : endsInName path = true ∧ wantsDirectory path = false then
      match hg : t.get? l with
      | some .directory => .error .isDirectory
      | some (.file id) => .ok (id, t.setContent id .empty)
      | none =>
        have hin := locate_endsInName hl hn.1
        .ok (t.addFile l hin.1 hin.2.1 hin.2.2 hg)
    else .error .isDirectory

/-- A file is admitted where a file or nothing stands, once its old name is gone. -/
theorem admits_moved {t : FileTree} {l l' : Location} {id : FileId} (hl : l ≠ [])
    (hin : l' ≠ [] ∧ t.get? l'.dropLast = some .directory ∧ ∀ name ∈ l', IsEntryName name)
    (hg : t.get? l = some (.file id)) (hg' : t.get? l' ≠ some .directory) :
    (t.removeBelow l).Admits l' (.file id) where
  proper := hin.1
  parent := by
    -- what stands below a file would make the file a directory
    rw [get?_removeBelow t hl]
    split
    · rename_i hpre
      have hd := t.get?_of_prefix_directory (List.isPrefixOf_iff_prefix.1 hpre) hin.2.1
      simp [hg] at hd
    · exact hin.2.1
  named := hin.2.2
  leaf := .inr (by
    rw [get?_removeBelow t hl]
    split
    · simp
    · exact hg')
  bytes := by
    rintro _ ⟨⟩
    exact t.held l id hg

/-- Give the file at `source` the name `target`, in place of a file of that name. If both are names
of one file, nothing changes. -/
def replace (t : FileTree) (here : Option Location) (source target : String) :
    Except FileError FileTree :=
  match hl : t.locate here source, hl' : t.locate here target with
  | .error e, _ => .error e
  | _, .error e => .error e
  | .ok l, .ok l' =>
    if hn : endsInName source = true ∧ endsInName target = true then
      match hg : t.get? l with
      | none => .error .notFound
      | some .directory => .error .isDirectory
      | some (.file id) =>
        if wantsDirectory source || wantsDirectory target then .error .notDirectory
        else if hg' : t.get? l' = some .directory then .error .isDirectory
        else if t.get? l' = some (.file id) then .ok t
        else
          have hin := locate_endsInName hl hn.1
          have hin' := locate_endsInName hl' hn.2
          .ok ((t.removeBelow l).place l' (.file id) (admits_moved hin.1 hin' hg hg'))
    else .error .busy

/-- Take the name of a file away. A directory is refused, and so is a path that ends in a slash. -/
def remove (t : FileTree) (here : Option Location) (path : String) :
    Except FileError FileTree :=
  match t.locate here path with
  | .error e => .error e
  | .ok l =>
    match t.get? l with
    | none => .error .notFound
    | some .directory => .error .isDirectory
    | some (.file _) =>
      if wantsDirectory path then .error .notDirectory else .ok (t.removeBelow l)

end FileTree

end Outreach
