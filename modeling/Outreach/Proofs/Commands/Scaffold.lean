import Outreach.Proofs.Commands.Frame
import Outreach.Proofs.Files.Parents
import Outreach.Proofs.Settings.RoundTrip

/-!
# Making a Data Directory Leaves Alone What Is There

The files of a data directory are made one after the other, each unless its path stands for
something. Making one is an atomic write, which leaves the others alone. So what is there when the
data directory has been made stays, what is missing then is made, and making it all again does
nothing.

Making the data directory itself can make a file's path stand for something: behind `..` may lie
what was out of reach, or a directory that was made on the way. A file that has a temporary name is
lost under all its names.

## Main results

* `Filled.trans`: what making some files and then others leaves alone.
* `DataDirectory.filled_fillIn`: what making the missing files leaves alone.
* `DataDirectory.fillIn_eq_ok`: what it has made if it succeeds.
* `DataDirectory.scaffold_fillsIn`: **making a data directory leaves alone what is there.**
-/

namespace Outreach

/-! ### The files of a data directory -/

/-- The **files** of a data directory: the settings and the two stores. -/
inductive DataFile where
  | settings
  | presets
  | templates
  deriving DecidableEq, Repr

namespace DataFile

/-- All files, in the order in which they are made. -/
def all : List DataFile := [settings, presets, templates]

/-- The list of the files of a data directory leaves none out. -/
theorem mem_all (f : DataFile) : f ∈ all := by
  cases f <;> simp [all]

/-- The list of the files of a data directory names each of them once. -/
theorem nodup_all : all.Nodup := by decide

def name : DataFile → String
  | settings => "config.yaml"
  | presets => "presets.json"
  | templates => "templates.json"

/-- The path of a file of the data directory. -/
def path (d : DataDirectory) (f : DataFile) : String :=
  Path.join d.path f.name

/-- Make a file with what it stands for while it is missing. The stores are loaded first, and so
give what is built in. -/
def make (d : DataDirectory) : DataFile → Task Unit
  | settings => writeTextAtomically d.settingsPath (Settings.toText {})
  | presets => makePresets d.presetsPath
  | templates => makeTemplates d.templatesPath

/-- The text of a file that is made on a day. -/
def text (day : Date) : DataFile → String
  | settings => Settings.toText {}
  | presets => StoreFile.text (Presets.builtIn day).toJson
  | templates => StoreFile.text Templates.builtIn.toJson

/-- Whether the path of a file stands for something, be it a file, a corrupt one or a directory. -/
def isThere (d : DataDirectory) (w : World) (f : DataFile) : Bool :=
  w.files.pathExists w.workingDirectory (f.path d)

/-- A file **stands for what is built in** on a day: whenever it is loaded, it gives that. -/
def LoadsBuiltIn (d : DataDirectory) (day : Date) (v : World) : DataFile → Prop
  | settings => v.runTask (Settings.load d.settingsPath) = (.ok {}, v)
  | presets => ∀ later, v.runTask (Presets.load d.presetsPath later) =
      (.ok (Presets.builtIn day), v)
  | templates => v.runTask (Templates.load d.templatesPath) = (.ok Templates.builtIn, v)

variable {d : DataDirectory} {w v : World} {f g : DataFile} {k l : Location} {day : Date}

/-- The name of each file can be the name of an entry: it has no slash and is no name with a
meaning of its own. -/
theorem name_proper (f : DataFile) :
    '/' ∉ f.name.toList ∧ f.name ≠ "" ∧ f.name ≠ "." ∧ f.name ≠ ".." := by
  cases f <;> decide

/-- The path of a file of the data directory does not end in a slash, so it does not ask for a
directory. -/
theorem wantsDirectory_path : FileTree.wantsDirectory (f.path d) = false :=
  FileTree.wantsDirectory_join f.name_proper.1 f.name_proper.2.1

/-- The path of a file of the data directory ends in the name of the file. -/
theorem endsInName_path : FileTree.endsInName (f.path d) = true := by
  obtain ⟨hslash, hne, hdot, hup⟩ := f.name_proper
  exact FileTree.endsInName_join hslash hne hdot hup

/-- A file is there if its path leads to something. -/
theorem isThere_iff : f.isThere d w = true ↔
    ∃ l, w.files.locate w.workingDirectory (f.path d) = .ok l ∧ w.files.get? l ≠ none := by
  rw [isThere, FileTree.pathExists, FileTree.find]
  rcases w.files.locate w.workingDirectory (f.path d) with e | l
  · simp [Except.isOk, Except.toBool]
  · rcases hl : w.files.get? l with - | - | id <;>
      simp [hl, wantsDirectory_path, Except.isOk, Except.toBool]

/-- The place of a file has its name. -/
theorem getLast?_of_locate (hl : w.files.locate w.workingDirectory (f.path d) = .ok l) :
    l.getLast? = some f.name := by
  obtain ⟨hslash, hne, hdot, hup⟩ := f.name_proper
  obtain ⟨dir, rfl, -⟩ := FileTree.locate_join hslash hne hdot hup hl
  exact List.getLast?_concat

/-- The place of the temporary file has the temporary name. -/
theorem getLast?_of_temporaryAt (hl : TemporaryAt w (f.path d) l) :
    l.getLast? = some (temporaryName f.name) := by
  obtain ⟨temporary, htemporary, hl⟩ := hl
  obtain ⟨hslash, hne, -⟩ := f.name_proper
  obtain ⟨parent, name, between, hsplit, hdot, hup, -, hnames⟩ :=
    Path.names_of_endsInName (endsInName_path (d := d) (f := f))
  rw [path, Path.names_join hslash hne, ← List.append_assoc] at hnames
  obtain rfl : f.name = name := (List.cons.inj (List.append_inj' hnames rfl).2).1
  rw [temporaryPath?, Path.fileName?_of_split? hsplit hdot hup] at htemporary
  obtain rfl := Option.some.inj htemporary
  obtain ⟨hne', hdot', hup'⟩ := temporaryName_proper f.name
  have hslash' : '/' ∉ (temporaryName f.name).toList := by
    rw [temporaryName_toList]
    simp [hslash]
  obtain ⟨dir, rfl, -⟩ := FileTree.locate_join hslash' hne' hdot' hup' hl
  exact List.getLast?_concat

/-! ### What making a file touches -/

/-- A location that making a file **touches**: the place of the file, or the temporary one beside
it. -/
def Touches (d : DataDirectory) (v : World) (f : DataFile) (k : Location) : Prop :=
  v.files.locate v.workingDirectory (f.path d) = .ok k ∨ TemporaryAt v (f.path d) k

/-- Making a file touches no place of another one. -/
theorem Touches.unique (hf : f.Touches d v k) (hg : g.Touches d w k) : f = g := by
  have names : ∀ {f : DataFile} {v : World}, f.Touches d v k →
      ∃ n ∈ [f.name, temporaryName f.name], k.getLast? = some n := by
    rintro f v (h | h)
    · exact ⟨f.name, by simp, getLast?_of_locate h⟩
    · exact ⟨temporaryName f.name, by simp, getLast?_of_temporaryAt h⟩
  obtain ⟨n, hn, hk⟩ := names hf
  obtain ⟨m, hm, hk'⟩ := names hg
  obtain rfl : n = m := Option.some.inj (hk.symm.trans hk')
  have hdisjoint : ∀ f g : DataFile, f ≠ g →
      ∀ n ∈ [f.name, temporaryName f.name], n ∉ [g.name, temporaryName g.name] := by
    intro f g
    cases f <;> cases g <;> decide
  exact Decidable.byContradiction fun hne => hdisjoint f g hne n hn hm

/-- What a file touches once the directories are there, it touches however many are added. -/
theorem Touches.mono (hhere : v.workingDirectory = w.workingDirectory)
    (hkept : w.files.KeepsDirectories v.files) (h : f.Touches d w k) : f.Touches d v k := by
  rw [Touches, TemporaryAt, hhere]
  rcases h with hl | ⟨temporary, htemporary, hl⟩
  · exact .inl (FileTree.locate_mono hkept hl)
  · exact .inr ⟨temporary, htemporary, FileTree.locate_mono hkept hl⟩

end DataFile

/-- A world in which the making of some files, whether it succeeded or not, **has left alone** the
others of an earlier world. -/
structure Filled (d : DataDirectory) (fs : List DataFile) (w v : World) : Prop where
  here : v.workingDirectory = w.workingDirectory
  date : v.date = w.date
  directories : w.files.KeepsDirectories v.files
  entries (k : Location) (hk : ∀ f ∈ fs, ¬ f.Touches d v k) (id : FileId) :
    v.files.get? k = some (.file id) ↔ w.files.get? k = some (.file id)
  bytes (k : Location)
    (hk : ∀ f ∈ fs, ¬ f.Touches d v k ∧ ¬ FormerTemporary w v (f.path d) k) :
    v.files.fileAt? k = w.files.fileAt? k

namespace Filled

variable {d : DataDirectory} {w u v : World} {f : DataFile} {fs gs : List DataFile} {k m : Location}

/-- With no file to fill in, the world is as it was. -/
theorem refl (d : DataDirectory) (w : World) : Filled d [] w w :=
  ⟨rfl, rfl, fun _ => id, fun _ _ _ => Iff.rfl, fun _ _ => rfl⟩

/-- What was done for some files was done for any larger list of them. -/
theorem mono (h : Filled d fs w v) (hsub : fs ⊆ gs) : Filled d gs w v where
  here := h.here
  date := h.date
  directories := h.directories
  entries k hk id := h.entries k (fun f hf => hk f (hsub hf)) id
  bytes k hk := h.bytes k fun f hf => hk f (hsub hf)

/-- A place that a file of the directory touches is still touched by it after others were filled
in. -/
theorem touches (h : Filled d fs w v) (hk : f.Touches d w k) : f.Touches d v k :=
  hk.mono h.here h.directories

/-- The place for the temporary file of a file of the directory stays what it was. -/
theorem temporaryAt (h : Filled d fs w v) (hk : TemporaryAt w (f.path d) k) :
    TemporaryAt v (f.path d) k := by
  obtain ⟨temporary, htemporary, hl⟩ := hk
  rw [TemporaryAt, h.here]
  exact ⟨temporary, htemporary, FileTree.locate_mono h.directories hl⟩

/-- The place of a file of the directory stays what it was, since no directory came or went. -/
theorem locate (h : Filled d fs w v) (hk : w.files.locate w.workingDirectory (f.path d) = .ok k) :
    v.files.locate v.workingDirectory (f.path d) = .ok k := by
  rw [h.here]
  exact FileTree.locate_mono h.directories hk

/-- Two places that were not touched have one file in common afterwards exactly if they had
before. -/
theorem sharesFile_iff (h : Filled d fs w v) (hk : ∀ f ∈ fs, ¬ f.Touches d v k)
    (hm : ∀ f ∈ fs, ¬ f.Touches d v m) : v.files.SharesFile k m ↔ w.files.SharesFile k m := by
  simp only [FileTree.SharesFile, h.entries k hk, h.entries m hm]

/-- A former temporary file that is left when some files have been made was one before. -/
theorem formerTemporary (h : Filled d fs w u) (h' : Filled d gs u v) (hf : f ∉ fs)
    (hk : ∀ g ∈ fs, ¬ g.Touches d u k) (hformer : FormerTemporary u v (f.path d) k) :
    FormerTemporary w v (f.path d) k := by
  obtain ⟨m, hm, hshares⟩ := hformer
  refine ⟨m, hm, (h.sharesFile_iff hk fun g hg htouches => hf ?_).mp hshares⟩
  exact (h'.touches htouches).unique (.inr hm) ▸ hg

/-- **Making some files and then others** leaves alone what both leave alone. -/
theorem trans (h : Filled d fs w u) (h' : Filled d gs u v) (hdisjoint : ∀ f ∈ fs, f ∉ gs) :
    Filled d (fs ++ gs) w v where
  here := h'.here.trans h.here
  date := h'.date.trans h.date
  directories k hk := h'.directories k (h.directories k hk)
  entries k hk id := by
    rw [h'.entries k fun g hg => hk g (List.mem_append_right _ hg)]
    refine h.entries k (fun f hf htouches => ?_) id
    exact hk f (List.mem_append_left _ hf) (h'.touches htouches)
  bytes k hk := by
    have hbefore : ∀ f ∈ fs, ¬ f.Touches d u k := fun f hf htouches =>
      (hk f (List.mem_append_left _ hf)).1 (h'.touches htouches)
    rw [h'.bytes k fun g hg => ?_]
    · refine h.bytes k fun f hf => ⟨hbefore f hf, ?_⟩
      rintro ⟨m, hm, hshares⟩
      exact (hk f (List.mem_append_left _ hf)).2 ⟨m, h'.temporaryAt hm, hshares⟩
    · obtain ⟨htouches, hformer⟩ := hk g (List.mem_append_right _ hg)
      exact ⟨htouches, mt (h.formerTemporary h' (fun hmem => hdisjoint g hmem hg) hbefore) hformer⟩

/-- Making the directories of the data directory leaves all files alone. -/
theorem of_grown {t : FileTree} {paths : List String}
    (h : w.files.Grown t w.workingDirectory paths) : Filled d [] w { w with files := t } where
  here := rfl
  date := rfl
  directories := h.keepsDirectories
  entries _ _ _ := h.get?_file_iff
  bytes k _ := h.fileAt?_eq k

/-- **Making a file leaves the others alone**, whether it succeeds or not. -/
theorem write (w : World) (d : DataDirectory) (f : DataFile) (text : String) :
    Filled d [f] w (w.runTask (writeTextAtomically (f.path d) text)).2 := by
  have hend := WriteStage.holds_at_end (WriteStage.Reached.first w (f.path d) text.toUTF8) .step
  have hkept := (parentsMade_writeAtomically w (f.path d) text.toUTF8).kept
  have hhere := w.workingDirectory_run (writeAtomically (f.path d) text.toUTF8).run
  have hdate := w.date_run (writeAtomically (f.path d) text.toUTF8).run
  rw [writeTextAtomically]
  rw [← World.runTask] at hhere hdate
  generalize w.runTask (writeAtomically (f.path d) text.toUTF8) = r at hend hkept hhere hdate ⊢
  refine ⟨hhere, hdate, hkept, fun k hk id => ?_, fun k hk => ?_⟩
  · have hf := hk f List.mem_cons_self
    exact hend.get?_file_iff (fun hl => hf (.inl hl)) fun hl => hf (.inr hl)
  · obtain ⟨htouches, hformer⟩ := hk f List.mem_cons_self
    refine (hend.fileAt?_eq_or (fun hl => htouches (.inr hl)) hformer).resolve_right fun h => ?_
    exact htouches (.inl h.1)

/-- What is there stays there when other files are made. -/
theorem isThere (h : Filled d fs w v) (hf : f ∉ fs) (hthere : f.isThere d w = true) :
    f.isThere d v = true := by
  rw [DataFile.isThere_iff] at hthere ⊢
  obtain ⟨l, hl, hget⟩ := hthere
  refine ⟨l, h.locate hl, ?_⟩
  rcases hentry : w.files.get? l with - | - | id
  · exact absurd hentry hget
  · simp [h.directories l hentry]
  · have huntouched : ∀ g ∈ fs, ¬ g.Touches d v l := fun g hg htouches =>
      hf (htouches.unique (.inl (h.locate hl)) ▸ hg)
    simp [(h.entries l huntouched id).mpr hentry]

/-- **What is there is read as before** when other files are made, unless its file had one of their
temporary names. -/
theorem read_eq (h : Filled d fs w v) (hf : f ∉ fs)
    (hl : w.files.locate w.workingDirectory (f.path d) = .ok k) (hget : w.files.get? k ≠ none)
    (hformer : ∀ g ∈ fs, ¬ FormerTemporary w v (g.path d) k) :
    v.files.read v.workingDirectory (f.path d) = w.files.read w.workingDirectory (f.path d) := by
  rw [h.here]
  refine FileTree.read_congr h.directories hl hget (h.bytes k fun g hg => ⟨?_, hformer g hg⟩)
  exact fun htouches => hf (htouches.unique (.inl (h.locate hl)) ▸ hg)

end Filled

/-! ### Making one file -/

namespace DataFile

variable {d : DataDirectory} {w v : World} {f g : DataFile}

/-- What a missing file holds cannot be read. -/
theorem exists_textAt (hmissing : f.isThere d w = false) : ∃ e, w.textAt (f.path d) = .error e := by
  rw [isThere, FileTree.pathExists] at hmissing
  rw [World.textAt, FileTree.readText, FileTree.read]
  rcases hfind : w.files.find w.workingDirectory (f.path d) with e | entry
  · exact ⟨e, rfl⟩
  · rw [hfind] at hmissing
    exact absurd hmissing (by simp [Except.isOk, Except.toBool])

/-- **A missing file is made by an atomic write**, unless it cannot be loaded. -/
theorem runTask_make (hmissing : f.isThere d w = false) :
    (∃ e, w.runTask (f.make d) = (.error e, w)) ∨
      w.runTask (f.make d) = w.runTask
        (writeTextAtomically (f.path d) (f.text w.date)) := by
  obtain ⟨e, he⟩ := exists_textAt hmissing
  have htoday : w.runTask today = (.ok w.date, w) := rfl
  cases f with
  | settings => exact .inr rfl
  | presets =>
      change w.textAt d.presetsPath = .error e at he
      rw [make, makePresets, World.runTask_bind, htoday]
      dsimp only
      rw [World.runTask_bind, Presets.load, World.runTask_bind]
      by_cases hnotFound : e = .notFound
      · subst hnotFound
        rw [StoreFile.load_of_missing _ he]
        exact .inr rfl
      · rw [StoreFile.load_of_unreadable _ he hnotFound]
        exact .inl ⟨_, rfl⟩
  | templates =>
      change w.textAt d.templatesPath = .error e at he
      rw [make, makeTemplates, World.runTask_bind, Templates.load, World.runTask_bind]
      by_cases hnotFound : e = .notFound
      · subst hnotFound
        rw [StoreFile.load_of_missing _ he]
        exact .inr rfl
      · rw [StoreFile.load_of_unreadable _ he hnotFound]
        exact .inl ⟨_, rfl⟩

/-- **The text of a file that is made stands for what is built in.** -/
theorem loadsBuiltIn_of_read {day : Date}
    (h : v.files.read v.workingDirectory (f.path d) = .ok (f.text day).toUTF8) :
    f.LoadsBuiltIn d day v := by
  have htext := FileTree.readText_of_read h
  cases f with
  | settings =>
      have hsettings : Settings.ofText (Settings.toText {}) = .ok {} :=
        Settings.ofText_of_document (Settings.isBlankText_toText {}) (Settings.ofDocument?_toText {})
      change v.files.readText v.workingDirectory d.settingsPath = .ok (Settings.toText {}) at htext
      rw [LoadsBuiltIn, Settings.load, World.runTask_bind, World.runTask_request]
      simp only [World.answer, htext, hsettings]
      rfl
  | presets =>
      change v.files.readText v.workingDirectory d.presetsPath =
        .ok (StoreFile.text (Presets.builtIn day).toJson) at htext
      intro later
      have hjson := StoreFile.ofText?_text (Presets.builtIn day).isTextual_toJson
      rw [Presets.load, World.runTask_bind,
        StoreFile.load_of_readText htext hjson (Presets.ofJson?_toJson _)]
      rfl
  | templates =>
      change v.files.readText v.workingDirectory d.templatesPath =
        .ok (StoreFile.text Templates.builtIn.toJson) at htext
      have hjson := StoreFile.ofText?_text Templates.builtIn.isTextual_toJson
      rw [LoadsBuiltIn, Templates.load, World.runTask_bind,
        StoreFile.load_of_readText htext hjson (Templates.ofJson?_toJson _)]
      rfl

end DataFile

/-! ### Making the missing files -/

namespace DataDirectory

/-- Make the files that are missing among some, one after the other. -/
def fillIn (d : DataDirectory) : List DataFile → Task (List String)
  | [] => pure []
  | f :: fs => do
    let made ← makeMissing (f.path d) f.name (f.make d)
    return made ++ (← d.fillIn fs)

/-- The files that are missing among some, in their order. -/
def missing (d : DataDirectory) (w : World) (fs : List DataFile) : List DataFile :=
  fs.filter fun f => !f.isThere d w

/-- A data directory that is **ready**: it is there, or it is the working directory, without a
name. -/
def IsReady (d : DataDirectory) (w : World) : Prop :=
  d.path = "" ∨ w.files.isDirectory w.workingDirectory d.path = true

/-- A file whose former temporary file, if there was one, was not that of any other of the files
that are made. -/
def IsApart (d : DataDirectory) (fs : List DataFile) (w v : World) (f : DataFile) : Prop :=
  ∀ g ∈ fs, g ≠ f → ∀ l, TemporaryAt v (f.path d) l → ¬ FormerTemporary w v (g.path d) l

variable {d : DataDirectory} {w u v : World} {f g : DataFile} {fs : List DataFile}
  {names : List String}

/-- Making a data directory is making its directory and then its missing files. -/
theorem scaffold_eq (d : DataDirectory) :
    d.scaffold = d.ensure >>= fun _ => d.fillIn DataFile.all := by
  simp only [scaffold, fillIn, DataFile.all, bind_pure_comp, map_pure, map_bind, Functor.map_map,
    List.append_nil, List.append_assoc, bind_pure]
  rfl

/-- A file that is there is passed over, and filling in goes on with the rest. -/
theorem runTask_fillIn_of_isThere (h : f.isThere d w = true) (fs : List DataFile) :
    w.runTask (d.fillIn (f :: fs)) = w.runTask (d.fillIn fs) := by
  have hskip : w.runTask (makeMissing (f.path d) f.name (f.make d)) = (.ok [], w) := by
    rw [DataFile.isThere] at h
    rw [makeMissing, World.runTask_bind, World.runTask_request]
    simp only [World.answer, h, if_true]
    rfl
  rw [fillIn, World.runTask_bind, hskip]
  dsimp only
  rw [World.runTask_bind]
  rcases w.runTask (d.fillIn fs) with ⟨e | made, v⟩ <;> rfl

/-- A file that is missing is made and its name put down; if it cannot be made, the rest is left
alone. -/
theorem runTask_fillIn_of_missing (h : f.isThere d w = false) (fs : List DataFile) :
    w.runTask (d.fillIn (f :: fs)) =
      match w.runTask (f.make d) with
      | (.ok (), u) =>
        ((u.runTask (d.fillIn fs)).1.map (f.name :: ·), (u.runTask (d.fillIn fs)).2)
      | (.error e, u) => (.error e, u) := by
  have hmake : w.runTask (makeMissing (f.path d) f.name (f.make d)) =
      w.runTask (do f.make d; return [f.name]) := by
    rw [DataFile.isThere] at h
    rw [makeMissing, World.runTask_bind, World.runTask_request]
    simp only [World.answer, h]
    rfl
  rw [fillIn, World.runTask_bind, hmake, World.runTask_bind]
  rcases w.runTask (f.make d) with ⟨e | ⟨⟨⟩⟩, u⟩
  · rfl
  · dsimp only [World.runTask_pure]
    rw [World.runTask_bind]
    rcases u.runTask (d.fillIn fs) with ⟨e | made, v⟩ <;> rfl

/-- A data directory that is ready stays so. -/
theorem IsReady.mono (hready : d.IsReady w) (h : Filled d fs w v) : d.IsReady v := by
  refine hready.imp_right fun hdirectory => ?_
  obtain ⟨l, hl, hget⟩ := FileTree.isDirectory_iff.mp hdirectory
  rw [h.here]
  exact FileTree.isDirectory_iff.mpr ⟨l, FileTree.locate_mono h.directories hl,
    h.directories l hget⟩

/-- Making a file in a data directory that is ready makes no directory. -/
theorem IsReady.sameDirectories {text : String} (hready : d.IsReady w)
    (h : w.runTask (writeTextAtomically (f.path d) text) = (.ok (), v)) : w.SameDirectories v := by
  obtain ⟨dir, name, -, hl, -⟩ := exists_target_of_writeAtomically h
  have hparent : w.hasParent (f.path d) = true := by
    rcases hready with hempty | hdirectory
    · have hparent : Path.parent? (f.path ⟨""⟩) = some "" := by cases f <;> decide +kernel
      rw [World.hasParent, DataFile.path, hempty, ← DataFile.path, hparent]
      rfl
    · obtain ⟨l, hdirectory, hget⟩ := FileTree.isDirectory_iff.mp hdirectory
      obtain ⟨hslash, hne, hdot, hup⟩ := f.name_proper
      have hshort : f.name.utf8ByteSize ≤ nameLimit := by cases f <;> decide
      have hhere : v.workingDirectory = w.workingDirectory := by
        have := w.workingDirectory_run (writeTextAtomically (f.path d) text).run
        rwa [← World.runTask, h] at this
      rw [hhere] at hl
      exact World.hasParent_of_locate (FileTree.locate_join_of_directory hslash hne hdot hup hshort
        hdirectory hget hl) DataFile.endsInName_path
  have := WriteStage.sameDirectories_runTask hparent text.toUTF8
  rwa [← writeTextAtomically, h] at this

/-- A file that has been made is there. -/
theorem isThere_of_write {text : String}
    (h : w.runTask (writeTextAtomically (f.path d) text) = (.ok (), v)) : f.isThere d v = true := by
  have hread := read_of_writeAtomically h
  rw [FileTree.read] at hread
  rw [DataFile.isThere, FileTree.pathExists]
  rcases hfind : v.files.find v.workingDirectory (f.path d) with e | entry
  · rw [hfind] at hread
    exact absurd hread (by simp)
  · rfl

/-- Making another file makes no difference to whether a file is there. -/
theorem IsReady.isThere_eq {text : String} (hready : d.IsReady w) (hne : g ≠ f)
    (h : w.runTask (writeTextAtomically (f.path d) text) = (.ok (), v)) :
    g.isThere d v = g.isThere d w := by
  have hsame := hready.sameDirectories h
  have hfilled := Filled.write w d f text
  rw [h] at hfilled
  rw [Bool.eq_iff_iff]
  refine ⟨fun hthere => ?_, hfilled.isThere (by simpa using hne)⟩
  obtain ⟨l, hl, hget⟩ := DataFile.isThere_iff.mp hthere
  refine DataFile.isThere_iff.mpr ⟨l, hsame.locate_eq_ok_iff.mp hl, ?_⟩
  rcases hentry : v.files.get? l with - | - | id
  · exact absurd hentry hget
  · simp [(hsame.directories l).mp hentry]
  · have huntouched : ∀ f' ∈ [f], ¬ f'.Touches d v l := by
      intro f' hf' htouches
      rw [List.mem_singleton.mp hf'] at htouches
      exact hne ((htouches.unique (.inl hl)).symm)
    simp [(hfilled.entries l huntouched id).mp hentry]

/-- Writing one file does not change which of the other files are missing. -/
theorem IsReady.missing_eq {text : String} (hready : d.IsReady w) (hf : f ∉ fs)
    (h : w.runTask (writeTextAtomically (f.path d) text) = (.ok (), v)) :
    d.missing v fs = d.missing w fs := by
  refine List.filter_congr fun g hg => ?_
  have hne : g ≠ f := by
    rintro rfl
    exact hf hg
  rw [hready.isThere_eq hne h]

/-- The files that are missing from a list are files of the list. -/
theorem mem_of_mem_missing (h : f ∈ d.missing w fs) : f ∈ fs :=
  (List.mem_filter.mp h).1

/-- A file that is there does not count as missing. -/
theorem missing_of_isThere (h : f.isThere d w = true) :
    d.missing w (f :: fs) = d.missing w fs := by
  simp [missing, h]

/-- A file that is not there comes first among those missing from the list it heads. -/
theorem missing_of_missing (h : f.isThere d w = false) :
    d.missing w (f :: fs) = f :: d.missing w fs := by
  simp [missing, h]

/-- **Making the missing files, one step**: the first one is there and the others are made; or making
it fails, and has left alone the others; or it is made, and then the others. -/
theorem runTask_fillIn_cons (d : DataDirectory) (w : World) (f : DataFile) (fs : List DataFile) :
    (f.isThere d w = true ∧ w.runTask (d.fillIn (f :: fs)) = w.runTask (d.fillIn fs)) ∨
      (f.isThere d w = false ∧ ∃ e v, w.runTask (d.fillIn (f :: fs)) = (.error e, v) ∧
        Filled d [f] w v) ∨
      f.isThere d w = false ∧ ∃ u, Filled d [f] w u ∧
        w.runTask (writeTextAtomically (f.path d) (f.text w.date)) =
          (.ok (), u) ∧
        w.runTask (d.fillIn (f :: fs)) =
          ((u.runTask (d.fillIn fs)).1.map (f.name :: ·), (u.runTask (d.fillIn fs)).2) := by
  rcases hthere : f.isThere d w with - | -
  · rw [runTask_fillIn_of_missing hthere]
    rcases DataFile.runTask_make hthere with ⟨e, he⟩ | hwrite
    · rw [he]
      exact .inr (.inl ⟨rfl, e, w, rfl, (Filled.refl d w).mono (List.nil_subset _)⟩)
    · have hfilled := Filled.write w d f (f.text w.date)
      rw [hwrite]
      generalize w.runTask (writeTextAtomically (f.path d) (f.text w.date)) = r
        at hfilled ⊢
      obtain ⟨e | ⟨⟨⟩⟩, u⟩ := r
      · exact .inr (.inl ⟨rfl, e, u, rfl, hfilled⟩)
      · exact .inr (.inr ⟨rfl, u, hfilled, rfl, rfl⟩)
  · exact .inl ⟨rfl, runTask_fillIn_of_isThere hthere fs⟩

/-- **Making the missing files leaves alone the others**, whether it succeeds or not. -/
theorem filled_fillIn (hnodup : fs.Nodup) (hready : d.IsReady w) :
    Filled d (d.missing w fs) w (w.runTask (d.fillIn fs)).2 := by
  induction fs generalizing w with
  | nil => exact .refl d w
  | cons f fs ih =>
      obtain ⟨hf, hfs⟩ := List.nodup_cons.mp hnodup
      rcases d.runTask_fillIn_cons w f fs with ⟨hthere, hrun⟩ | ⟨hmissing, e, v, hrun, hfilled⟩ |
        ⟨hmissing, u, hfilled, hwrite, hrun⟩
      · rw [hrun, missing_of_isThere hthere]
        exact ih hfs hready
      · rw [hrun, missing_of_missing hmissing]
        exact hfilled.mono (by simp)
      · have hrest := ih hfs (hready.mono hfilled)
        rw [hready.missing_eq hf hwrite] at hrest
        rw [hrun, missing_of_missing hmissing]
        refine hfilled.trans hrest fun g hg hmem => ?_
        exact hf (List.mem_singleton.mp hg ▸ mem_of_mem_missing hmem)

/-- A file that has been made is read when others have been made after it, unless they had its
former temporary file. -/
theorem read_of_write {text : String} (hf : f ∉ fs)
    (h : w.runTask (writeTextAtomically (f.path d) text) = (.ok (), u)) (hrest : Filled d fs u v)
    (hapart : d.IsApart fs w v f) :
    v.files.read v.workingDirectory (f.path d) = .ok text.toUTF8 := by
  have hend := WriteStage.holds_at_end (WriteStage.Reached.first w (f.path d) text.toUTF8) .step
  rw [← writeTextAtomically, h] at hend
  obtain ⟨l, hl, hget⟩ := DataFile.isThere_iff.mp (isThere_of_write h)
  rw [hrest.read_eq hf hl hget, read_of_writeAtomically h]
  rintro g hg ⟨m, hm, hshares⟩
  have hne : g ≠ f := by
    rintro rfl
    exact hf hg
  have hml : m ≠ l := by
    rintro rfl
    exact hne (DataFile.Touches.unique (.inr hm) (.inl hl))
  have htemporary : ¬ TemporaryAt u (f.path d) m := fun hmf =>
    hne (DataFile.Touches.unique (.inr hm) (.inr hmf))
  obtain ⟨l', hl', i, hmi, hli⟩ := hend.formerTemporary_of_sharesFile hl hml htemporary hshares
  exact hapart g hg hne l' (hrest.temporaryAt hl') ⟨m, hm, i, hli, hmi⟩

/-- What is apart from some files is apart from the later ones when the first has been made. -/
theorem IsApart.of_cons (h : d.IsApart (f :: fs) w v g) (hne : g ≠ f) (hf : f ∉ fs)
    (hfirst : Filled d [f] w u) (hrest : Filled d fs u v) : d.IsApart fs u v g := by
  intro g' hg' hne' l hl
  refine mt (hfirst.formerTemporary hrest ?_ ?_) (h g' (List.mem_cons_of_mem f hg') hne' l hl)
  · intro hmem
    exact hf (List.mem_singleton.mp hmem ▸ hg')
  · intro f' hf' htouches
    rw [List.mem_singleton.mp hf'] at htouches
    exact hne (DataFile.Touches.unique (.inr hl) htouches)

/-- **Making the missing files**, if it succeeds, lists exactly these. All files are there then, and
each one that has been made holds its text, unless another one had its former temporary file. -/
theorem fillIn_eq_ok (hnodup : fs.Nodup) (hready : d.IsReady w)
    (h : w.runTask (d.fillIn fs) = (.ok names, v)) :
    names = (d.missing w fs).map DataFile.name ∧ ∀ f ∈ fs, f.isThere d v = true ∧
      (f.isThere d w = false → d.IsApart (d.missing w fs) w v f →
        v.files.read v.workingDirectory (f.path d) =
          .ok (f.text w.date).toUTF8) := by
  induction fs generalizing w names with
  | nil =>
      obtain rfl : [] = names := Except.ok.inj (congrArg Prod.fst h)
      exact ⟨rfl, nofun⟩
  | cons f fs ih =>
      obtain ⟨hf, hfs⟩ := List.nodup_cons.mp hnodup
      have hnotMem : f ∉ d.missing w fs := fun hmem => hf (mem_of_mem_missing hmem)
      rcases d.runTask_fillIn_cons w f fs with ⟨hthere, hrun⟩ | ⟨hmissing, e, v, hrun, -⟩ |
        ⟨hmissing, u, hfirst, hwrite, hrun⟩
      · rw [hrun] at h
        rw [missing_of_isThere hthere]
        obtain ⟨hnames, hothers⟩ := ih hfs hready h
        have hrest := filled_fillIn hfs hready
        rw [h] at hrest
        refine ⟨hnames, List.forall_mem_cons.mpr ⟨⟨hrest.isThere hnotMem hthere, fun hmissing => ?_⟩,
          hothers⟩⟩
        exact absurd (hthere.symm.trans hmissing) (by simp)
      · exact absurd (congrArg Prod.fst (hrun.symm.trans h)) (by simp)
      · have hready' := hready.mono hfirst
        have hrest := filled_fillIn hfs hready'
        rw [hrun] at h
        rcases htail : u.runTask (d.fillIn fs) with ⟨e | made, v'⟩
        · rw [htail] at h
          exact absurd (congrArg Prod.fst h) (by simp [Except.map])
        rw [htail] at h hrest
        obtain ⟨hnames, rfl⟩ := Prod.mk.inj h
        obtain rfl : f.name :: made = names := Except.ok.inj hnames
        obtain ⟨rfl, hothers⟩ := ih hfs hready' htail
        rw [hready.missing_eq hf hwrite] at hrest hothers ⊢
        rw [missing_of_missing hmissing]
        refine ⟨rfl, List.forall_mem_cons.mpr ⟨⟨?_, fun _ hapart => ?_⟩, fun g hg => ?_⟩⟩
        · exact hrest.isThere hnotMem (isThere_of_write hwrite)
        · exact read_of_write hnotMem hwrite hrest fun g hg => hapart g (List.mem_cons_of_mem f hg)
        · have hne : g ≠ f := fun hgf => hf (hgf ▸ hg)
          obtain ⟨hthere, hread⟩ := hothers g hg
          refine ⟨hthere, fun hgmissing hapart => ?_⟩
          rw [← hfirst.date]
          exact hread ((hready.isThere_eq hne hwrite).trans hgmissing)
            (hapart.of_cons hne hnotMem hfirst hrest)

/-! ### Making the directory -/

/-- Nothing has to be made for a data directory that is there. -/
theorem runTask_ensure_of_directory
    (h : w.files.isDirectory w.workingDirectory d.path = true) :
    w.runTask d.ensure = (.ok false, w) := by
  have hanswer : (w.answer (.isDirectory d.path)).1 = true := h
  rw [ensure, World.runTask_bind, World.runTask_ofProgram, isThere, World.run_request]
  dsimp only
  rw [if_pos hanswer]
  rfl

/-- Where the data directory is missing, it is made with all the directories above it. -/
theorem runTask_ensure_of_missing
    (h : w.files.isDirectory w.workingDirectory d.path = false) :
    w.runTask d.ensure =
      let (result, files) := w.files.makeDirectories w.workingDirectory d.path
      ((result.mapError (Failure.dataDirectoryNotMade d.path)).map fun _ => true,
        { w with files }) := by
  have hanswer : ¬ (w.answer (.isDirectory d.path)).1 = true :=
    Bool.eq_false_iff.mp h
  rw [ensure, World.runTask_bind, World.runTask_ofProgram, isThere, World.run_request]
  dsimp only
  rw [if_neg hanswer, World.runTask_bind, World.runTask_request]
  simp only [World.answer]
  rcases w.files.makeDirectories w.workingDirectory d.path with ⟨e | ⟨⟨⟩⟩, t⟩ <;> rfl

/-- **Making the directory** makes only directories that its path leads through. The data directory
is ready then, unless this fails. -/
theorem runTask_ensure (d : DataDirectory) (w : World) :
    ∃ x t, w.runTask d.ensure = (x, { w with files := t }) ∧
      w.files.Grown t w.workingDirectory (Path.ancestors d.path) ∧
      ∀ b, x = .ok b → d.IsReady { w with files := t } := by
  by_cases hdirectory : w.files.isDirectory w.workingDirectory d.path = true
  · exact ⟨_, w.files, runTask_ensure_of_directory hdirectory, .refl _ _ _,
      fun _ _ => .inr hdirectory⟩
  · rw [runTask_ensure_of_missing (by simpa using hdirectory)]
    have hgrown := w.files.grown_makeDirectories w.workingDirectory d.path
    rcases hmade : w.files.makeDirectories w.workingDirectory d.path with ⟨e | ⟨⟨⟩⟩, t⟩
    · rw [hmade] at hgrown
      exact ⟨_, t, rfl, hgrown, fun b hb => absurd hb (by simp [Except.mapError, Except.map])⟩
    · rw [hmade] at hgrown
      refine ⟨_, t, rfl, hgrown, fun b hb => ?_⟩
      by_cases hempty : d.path = ""
      · exact .inl hempty
      · exact .inr (FileTree.isDirectory_makeDirectories hempty hmade)

/-- Nothing has to be made for a data directory that is ready. -/
theorem IsReady.runTask_ensure (hready : d.IsReady w) :
    ∃ b, w.runTask d.ensure = (.ok b, w) := by
  by_cases hdirectory : w.files.isDirectory w.workingDirectory d.path = true
  · exact ⟨_, runTask_ensure_of_directory hdirectory⟩
  · rw [runTask_ensure_of_missing (by simpa using hdirectory), hready.resolve_right hdirectory,
      FileTree.makeDirectories_empty]
    exact ⟨true, rfl⟩

/-- A data directory that is complete is left as it is. -/
theorem IsReady.runTask_scaffold (hready : d.IsReady w)
    (hthere : ∀ f : DataFile, f.isThere d w = true) :
    w.runTask d.scaffold = (.ok [], w) := by
  obtain ⟨b, hensure⟩ := hready.runTask_ensure
  rw [scaffold_eq, World.runTask_bind, hensure]
  dsimp only
  rw [DataFile.all, runTask_fillIn_of_isThere (hthere _), runTask_fillIn_of_isThere (hthere _),
    runTask_fillIn_of_isThere (hthere _), fillIn, World.runTask_pure]

/-! ### Making a data directory -/

/-- Whether a directory is ready depends on the files and the working directory only. -/
theorem IsReady.congr (hready : d.IsReady w) (hfiles : v.files = w.files)
    (hhere : v.workingDirectory = w.workingDirectory) : d.IsReady v := by
  rwa [IsReady, hfiles, hhere]

/-- Making the directory leaves all files alone. -/
theorem filled_ensure (d : DataDirectory) (w : World) : Filled d [] w (w.runTask d.ensure).2 := by
  obtain ⟨x, t, hensure, hgrown, -⟩ := d.runTask_ensure w
  rw [hensure]
  exact .of_grown hgrown

/-- **Making the directory brings no file to be there**, unless its path leads up. -/
theorem isThere_ensure (h : w.files.isDirectory w.workingDirectory d.path = true ∨
    ".." ∉ FileTree.names d.path) (f : DataFile) :
    f.isThere d (w.runTask d.ensure).2 = f.isThere d w := by
  have hsteady : w.files.IsSteady w.workingDirectory d.path := h.elim .of_isDirectory .of_notMem
  obtain ⟨x, t, hensure, hgrown, -⟩ := d.runTask_ensure w
  obtain ⟨hslash, hne, hdot, hup⟩ := f.name_proper
  rw [Bool.eq_iff_iff]
  refine ⟨fun hthere => ?_, (d.filled_ensure w).isThere List.not_mem_nil⟩
  rw [hensure] at hthere
  obtain ⟨l, hl, hget⟩ := DataFile.isThere_iff.mp hthere
  exact DataFile.isThere_iff.mpr ⟨l, hgrown.get?_join hsteady hslash hne hup hdot hl hget⟩

/-- What is made once the directory is there, if it can be made. -/
theorem runTask_scaffold_cases (d : DataDirectory) (w : World) :
    (∃ e, w.runTask d.scaffold = (.error e, (w.runTask d.ensure).2)) ∨
      d.IsReady (w.runTask d.ensure).2 ∧
        w.runTask d.scaffold = (w.runTask d.ensure).2.runTask (d.fillIn DataFile.all) := by
  obtain ⟨x, t, hensure, -, hready⟩ := d.runTask_ensure w
  rw [scaffold_eq, World.runTask_bind, hensure]
  rcases x with e | b
  · exact .inl ⟨e, rfl⟩
  · exact .inr ⟨hready b rfl, rfl⟩

/-- Setting up a data directory fills in the files that are missing once the directory stands, and
no others. -/
theorem filled_scaffold (d : DataDirectory) (w : World) :
    Filled d (d.missing (w.runTask d.ensure).2 DataFile.all) w (w.runTask d.scaffold).2 := by
  rcases d.runTask_scaffold_cases w with ⟨e, hrun⟩ | ⟨hready, hrun⟩
  · rw [hrun]
    exact (d.filled_ensure w).mono (List.nil_subset _)
  · rw [hrun]
    exact (d.filled_ensure w).trans (filled_fillIn DataFile.nodup_all hready) nofun

/-- A data directory that has been made is ready, and its files have been filled in. -/
theorem fillIn_of_scaffold (h : w.runTask d.scaffold = (.ok names, v)) :
    d.IsReady (w.runTask d.ensure).2 ∧
      (w.runTask d.ensure).2.runTask (d.fillIn DataFile.all) = (.ok names, v) := by
  rcases d.runTask_scaffold_cases w with ⟨e, hrun⟩ | ⟨hready, hrun⟩
  · exact absurd (congrArg Prod.fst (hrun.symm.trans h)) (by simp)
  · exact ⟨hready, hrun.symm.trans h⟩

/-- Making a data directory **fills it in**, from a world `w` over the world `u` with its directory
to the world `v`: what is there stays, and what is missing is made, on the day of `w`. -/
structure FillsIn (d : DataDirectory) (w u v : World) (result : Except Failure (List String)) :
    Prop where
  /-- The command tells what has been made. -/
  command : w.runTask (Command.init.runIn d) = (result.map (initReport d), v)
  /-- A file that was there is read as before, whether it all succeeds or not, unless it had one of
  the temporary names under another name. -/
  kept (f : DataFile) (hf : f.isThere d w = true)
    (hformer : ∀ l, w.files.locate w.workingDirectory (f.path d) = .ok l →
      ∀ g ∈ d.missing u DataFile.all, ¬ FormerTemporary w v (g.path d) l) :
    v.files.read v.workingDirectory (f.path d) = w.files.read w.workingDirectory (f.path d)
  /-- Nor has any other file changed, but those that were made and the temporary ones beside
  them. -/
  others (k : Location) (hk : ∀ f ∈ d.missing u DataFile.all,
    ¬ f.Touches d v k ∧ ¬ FormerTemporary w v (f.path d) k) : v.files.fileAt? k = w.files.fileAt? k
  /-- All directories stay. -/
  directories : w.files.KeepsDirectories v.files
  /-- Making the directory brings no file to be there, unless its path leads up. -/
  same (h : w.files.isDirectory w.workingDirectory d.path = true ∨
    ".." ∉ FileTree.names d.path) (f : DataFile) : f.isThere d u = f.isThere d w
  /-- What succeeds lists the files that are missing once the directory is there. -/
  listed (names : List String) (h : result = .ok names) :
    names = (d.missing u DataFile.all).map DataFile.name
  /-- Then all files are there. -/
  complete (names : List String) (h : result = .ok names) (f : DataFile) : f.isThere d v = true
  /-- Those that were missing stand for what is built in, unless one file had the temporary names
  of two. -/
  builtIn (names : List String) (h : result = .ok names) (f : DataFile)
    (hf : f.isThere d u = false) (hapart : d.IsApart (d.missing u DataFile.all) w v f) :
    f.LoadsBuiltIn d w.date v
  /-- Making it all again lists nothing and changes nothing, at any time. -/
  again (names : List String) (h : result = .ok names) (v' : World) (hfiles : v'.files = v.files)
    (hhere : v'.workingDirectory = v.workingDirectory) : v'.runTask d.scaffold = (.ok [], v')

/-- **Making a data directory leaves alone what is there.** -/
theorem scaffold_fillsIn (w : World) (d : DataDirectory) :
    d.FillsIn w (w.runTask d.ensure).2 (w.runTask d.scaffold).2 (w.runTask d.scaffold).1 := by
  have hfilled := d.filled_scaffold w
  have hensure := d.filled_ensure w
  have hsame := @isThere_ensure d w
  obtain ⟨result, v, hrun⟩ : ∃ result v, w.runTask d.scaffold = (result, v) := ⟨_, _, rfl⟩
  have hfillIn := @fillIn_of_scaffold d w v
  rw [hrun] at hfilled hfillIn ⊢
  generalize (w.runTask d.ensure).2 = u at hfilled hensure hsame hfillIn ⊢
  have hdone : ∀ names, result = .ok names → d.IsReady u ∧
      u.runTask (d.fillIn DataFile.all) = (.ok names, v) := fun names h => hfillIn (h ▸ rfl)
  refine ⟨?_, fun f hf hformer => ?_, hfilled.bytes, hfilled.directories, hsame,
    fun names h => ?_, fun names h f => ?_, fun names h f hf hapart => ?_,
    fun names h v' hfiles hhere => ?_⟩
  · rw [Command.runIn, runInit, World.runTask_bind, hrun]
    cases result <;> rfl
  · obtain ⟨l, hl, hget⟩ := DataFile.isThere_iff.mp hf
    refine hfilled.read_eq (fun hmem => ?_) hl hget (hformer l hl)
    have := (List.mem_filter.mp hmem).2
    simp [hensure.isThere List.not_mem_nil hf] at this
  · obtain ⟨hready, hfill⟩ := hdone names h
    exact (fillIn_eq_ok DataFile.nodup_all hready hfill).1
  · obtain ⟨hready, hfill⟩ := hdone names h
    exact ((fillIn_eq_ok DataFile.nodup_all hready hfill).2 f f.mem_all).1
  · obtain ⟨hready, hfill⟩ := hdone names h
    have hrest := filled_fillIn DataFile.nodup_all hready
    rw [hfill] at hrest
    rw [← hensure.date]
    refine DataFile.loadsBuiltIn_of_read
      (((fillIn_eq_ok DataFile.nodup_all hready hfill).2 f f.mem_all).2 hf fun g hg hne l hl => ?_)
    exact mt (hensure.formerTemporary hrest List.not_mem_nil nofun) (hapart g hg hne l hl)
  · obtain ⟨hready, hfill⟩ := hdone names h
    have hrest := filled_fillIn DataFile.nodup_all hready
    rw [hfill] at hrest
    refine ((hready.mono hrest).congr hfiles hhere).runTask_scaffold fun f => ?_
    rw [DataFile.isThere, hfiles, hhere]
    exact ((fillIn_eq_ok DataFile.nodup_all hready hfill).2 f f.mem_all).1

/-! ### What is passed over -/

/-- **Not all that is missing is made.** In `x/config.yaml/..` the settings are missing until their
path becomes a directory on the way to the data directory, so that they are not listed. -/
theorem scaffold_passes_over :
    ¬ ∀ (w : World) (d : DataDirectory) (names : List String) (v : World),
      w.runTask d.scaffold = (.ok names, v) →
        ∀ f : DataFile, f.name ∈ names ↔ f.isThere d w = false := by
  intro h
  let w : World := ((default : World).runTask (do
    writeTextAtomically "x/presets.json" "[]"
    writeTextAtomically "x/templates.json" "{}")).2
  let d : DataDirectory := ⟨"x/config.yaml/.."⟩
  have hfacts : DataFile.settings.isThere d w = false ∧
      (w.runTask d.scaffold).1.toOption = some [] := by decide +kernel
  obtain ⟨hmissing, hdone⟩ := hfacts
  clear_value w d
  have hlisted := h w d [] _ (Prod.ext (eq_ok_of_toOption_eq hdone) rfl) .settings
  exact absurd (hlisted.mpr hmissing) (by simp)

end DataDirectory

end Outreach
