import Outreach.Proofs.Files.Tree

/-!
# Which Bytes Stand Where

Seen from outside, a file tree gives bytes to some locations. Two locations may be names of one
file, which then changes at both. For each operation on files it is said here which locations it
leaves alone.

## Main results

* `FileTree.Grown.fileAt?_eq`: making directories changes no file.
* `FileTree.Opened.fileAt?_setContent`: opening and writing a file changes no other file.
* `FileTree.Moved.fileAt?_eq`, `FileTree.Removed.fileAt?_eq`: moving or removing a file changes
  nothing elsewhere.
-/

namespace Outreach.FileTree

variable {t t' u : FileTree} {k l l' : Location} {id : FileId}

/-- The bytes of the file at a location, if a file stands there. -/
def fileAt? (t : FileTree) (l : Location) : Option ByteArray :=
  match t.get? l with
  | some (.file id) => some (t.content id)
  | _ => none

/-- The bytes of the file that a path leads to, if it leads to one. -/
def bytesAt? (t : FileTree) (here : Option Location) (path : String) : Option ByteArray :=
  match t.locate here path with
  | .ok l => t.fileAt? l
  | .error _ => none

/-- Two locations **share a file** if one file stands at both. A location at which a file stands
shares it with itself. -/
def SharesFile (t : FileTree) (k l : Location) : Prop :=
  ∃ id, t.get? k = some (.file id) ∧ t.get? l = some (.file id)

/-- A location with an entry of a file holds the content of that file. -/
theorem fileAt?_of_file (h : t.get? l = some (.file id)) :
    t.fileAt? l = some (t.content id) := by
  rw [fileAt?, h]

/-- A free location holds no file. -/
theorem fileAt?_of_none (h : t.get? l = none) : t.fileAt? l = none := by
  rw [fileAt?, h]

/-- A location with a directory holds no file. -/
theorem fileAt?_of_directory (h : t.get? l = some .directory) : t.fileAt? l = none := by
  rw [fileAt?, h]

/-- A file that is read stands where its path leads. -/
theorem fileAt?_of_read {here : Option Location} {path : String} {bytes : ByteArray}
    (hl : t.locate here path = .ok l) (h : t.read here path = .ok bytes) :
    t.fileAt? l = some bytes := by
  rw [read, find, hl] at h
  rcases hget : t.get? l with - | - | id
  · simp [hget] at h
  · simp [hget] at h
  · rw [fileAt?_of_file hget]
    by_cases hwants : wantsDirectory path = true <;> simp [hget, hwants] at h
    exact congrArg some h

/-- No file stands at a location that shares none with itself. -/
theorem fileAt?_of_not_sharesFile (h : ¬ t.SharesFile l l) : t.fileAt? l = none := by
  rw [fileAt?]
  rcases hl : t.get? l with - | - | id
  · rfl
  · rfl
  · exact absurd ⟨id, hl, hl⟩ h

/-- The bytes of a file stay if it keeps its name and its bytes. -/
theorem fileAt?_congr (hget : t'.get? k = t.get? k)
    (hcontent : ∀ id, t.get? k = some (.file id) → t'.content id = t.content id) :
    t'.fileAt? k = t.fileAt? k := by
  rw [fileAt?, fileAt?, hget]
  rcases hk : t.get? k with - | - | id
  · rfl
  · rfl
  · exact congrArg some (hcontent id hk)

/-- A path is read as before if it leads where it led and what is there has not changed. -/
theorem read_congr {here : Option Location} {path : String} (hkept : t.KeepsDirectories t')
    (hl : t.locate here path = .ok l) (hget : t.get? l ≠ none) (hfile : t'.fileAt? l = t.fileAt? l) :
    t'.read here path = t.read here path := by
  rw [read, read, find, find, hl, locate_mono hkept hl]
  rcases hentry : t.get? l with - | - | id
  · exact absurd hentry hget
  · simp only [hentry, hkept l hentry]
  · rw [fileAt?_of_file hentry] at hfile
    rcases hentry' : t'.get? l with - | - | id'
    · simp [fileAt?_of_none hentry'] at hfile
    · simp [fileAt?_of_directory hentry'] at hfile
    · rw [fileAt?_of_file hentry'] at hfile
      have hcontent : t'.content id' = t.content id := Option.some.inj hfile
      by_cases hwants : wantsDirectory path = true <;> simp [hentry, hentry', hwants, hcontent]

/-- Giving a file other bytes changes none of the others. -/
theorem fileAt?_setContent (bytes : ByteArray) (h : t.get? k ≠ some (.file id)) :
    (t.setContent id bytes).fileAt? k = t.fileAt? k := by
  refine fileAt?_congr rfl fun i hi => ?_
  have hne : i ≠ id := fun he => h (he ▸ hi)
  simp [content, setContent, Ne.symm hne]

/-- A file that is given other bytes holds these, the others hold what they held. -/
theorem fileAt?_setContent_cases (t : FileTree) (id : FileId) (bytes : ByteArray) (k : Location) :
    (t.setContent id bytes).fileAt? k = t.fileAt? k ∨
      (t.setContent id bytes).fileAt? k = some bytes := by
  by_cases hk : t.get? k = some (.file id)
  · refine .inr ?_
    rw [fileAt?_of_file (t := t.setContent id bytes) hk, content_setContent t (t.held k id hk),
      if_pos rfl]
  · exact .inl (fileAt?_setContent bytes hk)

/-- Making directories changes no file. -/
theorem Grown.fileAt?_eq {here : Option Location} {paths : List String}
    (h : t.Grown t' here paths) (k : Location) : t'.fileAt? k = t.fileAt? k := by
  rcases h.get? k with hget | ⟨hnone, hdirectory, -⟩
  · exact fileAt?_congr hget fun id _ => content_eq h.contents id
  · rw [fileAt?_of_none hnone, fileAt?_of_directory hdirectory]

/-- Making directories moves no file. -/
theorem Grown.get?_file_iff {here : Option Location} {paths : List String}
    (h : t.Grown t' here paths) :
    t'.get? k = some (.file id) ↔ t.get? k = some (.file id) := by
  rcases h.get? k with hget | ⟨hnone, hdirectory, -⟩
  · rw [hget]
  · simp [hnone, hdirectory]

/-- Growth by directories leaves alone which locations have one file in common. -/
theorem Grown.sharesFile_iff {here : Option Location} {paths : List String}
    (h : t.Grown t' here paths) : t'.SharesFile k l ↔ t.SharesFile k l := by
  simp only [SharesFile, h.get?_file_iff]

/-- A file that has been opened stands under its own names only. -/
theorem Opened.get?_ne (h : t.Opened t' l id) (hne : k ≠ l) (hshares : ¬ t.SharesFile k l) :
    t'.get? k ≠ some (.file id) := by
  rw [h.get?, if_neg hne]
  intro hk
  rcases h.known with hl | ⟨-, hnew⟩
  · exact hshares ⟨id, hk, hl⟩
  · exact absurd (t.held k id hk) (Nat.not_lt.mpr hnew)

/-- Opening a file empties it, under all its names, and changes no other file. -/
theorem Opened.fileAt?_cases (h : t.Opened t' l id) (hne : k ≠ l) :
    t'.fileAt? k = t.fileAt? k ∨ t'.fileAt? k = some .empty := by
  have hget : t'.get? k = t.get? k := by rw [h.get?, if_neg hne]
  by_cases hk : t.get? k = some (.file id)
  · rw [fileAt?_of_file (hget.trans hk), h.content, if_pos rfl]
    exact .inr rfl
  · refine .inl (fileAt?_congr hget fun i hi => ?_)
    rw [h.content, if_neg]
    rintro rfl
    exact hk hi

/-- Opening a file changes no other file. -/
theorem Opened.fileAt?_eq (h : t.Opened t' l id) (hne : k ≠ l) (hshares : ¬ t.SharesFile k l) :
    t'.fileAt? k = t.fileAt? k := by
  have hget : t'.get? k = t.get? k := by rw [h.get?, if_neg hne]
  refine fileAt?_congr hget fun i hi => ?_
  rw [h.content, if_neg]
  rintro rfl
  exact h.get?_ne hne hshares (hget.trans hi)

/-- **Opening a file and writing it changes no other file.** -/
theorem Opened.fileAt?_setContent (h : t.Opened t' l id) (bytes : ByteArray) (hne : k ≠ l)
    (hshares : ¬ t.SharesFile k l) : (t'.setContent id bytes).fileAt? k = t.fileAt? k :=
  (FileTree.fileAt?_setContent bytes (h.get?_ne hne hshares)).trans (h.fileAt?_eq hne hshares)

/-- A file that has been opened and written holds what was written. -/
theorem Opened.fileAt?_setContent_self (h : t.Opened t' l id) (bytes : ByteArray) :
    (t'.setContent id bytes).fileAt? l = some bytes := by
  have hl : t'.get? l = some (.file id) := by rw [h.get?, if_pos rfl]
  rw [fileAt?_of_file (t := t'.setContent id bytes) hl, content_setContent t' (t'.held l id hl),
    if_pos rfl]

/-- Moving a file changes nothing elsewhere. -/
theorem Moved.fileAt?_eq (h : t.Moved t' l l' id) (hne : k ≠ l) (hne' : k ≠ l') :
    t'.fileAt? k = t.fileAt? k :=
  fileAt?_congr (h.get?_of_ne hne hne') fun id _ => content_eq h.contents id

/-- A file that has been moved holds what it held. -/
theorem Moved.fileAt?_target (h : t.Moved t' l l' id) : t'.fileAt? l' = t.fileAt? l := by
  rw [fileAt?_of_file h.source, fileAt?_of_file (by rw [h.get?, if_pos rfl]),
    content_eq h.contents]

/-- Removing a file changes nothing elsewhere. -/
theorem Removed.fileAt?_eq (h : t.Removed t' l id) (hne : k ≠ l) : t'.fileAt? k = t.fileAt? k :=
  fileAt?_congr (by rw [h.get?, if_neg hne]) fun id _ => content_eq h.contents id

end Outreach.FileTree
