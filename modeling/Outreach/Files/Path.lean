/-!
# Paths

A path is a text; its names stand between slashes. Empty names and names of a single dot count for
nothing, except a dot at the very front. What leads to the last name is the *parent*; it is cut out
of the text as it was written.

## Main results

* `Path.length_of_split?`: the parent of a path is shorter than the path.
-/

namespace Outreach.Path

/-- The pieces of a text between its slashes, one more than there are slashes. -/
def segments : List Char → List (List Char)
  | [] => [[]]
  | c :: cs =>
    if c = '/' then [] :: segments cs
    else
      match segments cs with
      | [] => [[c]]
      | s :: ss => (c :: s) :: ss

/-- Pieces with a slash between each two: the way back from the pieces of a text to the text. -/
def joinSegments : List (List Char) → List Char
  | [] => []
  | [s] => s
  | s :: ss => s ++ '/' :: joinSegments ss

/-- Whether a piece counts for nothing where a parent is cut out of a path: an empty one, or a
single dot. -/
def isSkipped (s : List Char) : Bool :=
  s == [] || s == ['.']

/-- A **proper** name: one that leads on to an entry of a directory, not to the directory itself
or to the one above it. -/
structure IsProper (name : String) : Prop where
  slash : '/' ∉ name.toList
  filled : name ≠ ""
  dot : name ≠ "."
  up : name ≠ ".."

instance (name : String) : Decidable (IsProper name) :=
  decidable_of_iff ('/' ∉ name.toList ∧ name ≠ "" ∧ name ≠ "." ∧ name ≠ "..")
    ⟨fun h => ⟨h.1, h.2.1, h.2.2.1, h.2.2.2⟩, fun h => ⟨h.slash, h.filled, h.dot, h.up⟩⟩

/-- A path cut behind the slash, or the dot, that says where it starts. -/
def splitLead : List Char → List Char × List Char
  | '/' :: rest => (['/'], rest)
  | ['.'] => (['.'], [])
  | '.' :: '/' :: rest => (['.'], '/' :: rest)
  | cs => ([], cs)

/-- The parent and the last name. The root and the empty path have neither. -/
def split? (path : List Char) : Option (List Char × List Char) :=
  let (lead, body) := splitLead path
  match (segments body).reverse.dropWhile isSkipped with
  | last :: before => some (lead ++ joinSegments (before.dropWhile isSkipped).reverse, last)
  | [] => if lead = ['.'] then some ([], lead) else none

/-- Every text has at least one segment, which may be empty. -/
theorem segments_ne_nil (cs : List Char) : segments cs ≠ [] := by
  cases cs with
  | nil => simp [segments]
  | cons c cs =>
    unfold segments
    split
    · simp
    · split <;> simp

/-- The pieces of a text, with slashes between them, are the text. -/
theorem joinSegments_segments (cs : List Char) : joinSegments (segments cs) = cs := by
  induction cs with
  | nil => rfl
  | cons c cs ih =>
    have hne := segments_ne_nil cs
    unfold segments
    match hs : segments cs with
    | [] => exact absurd hs hne
    | [s] =>
      rw [hs] at ih
      split <;> simp_all [joinSegments]
    | s :: t :: ss =>
      rw [hs] at ih
      split <;> simp_all [joinSegments]

/-- A piece holds no slash. -/
theorem slash_notMem_of_mem_segments {s cs : List Char} (h : s ∈ segments cs) : '/' ∉ s := by
  induction cs generalizing s with
  | nil =>
      rw [segments, List.mem_singleton] at h
      simp [h]
  | cons c cs ih =>
      rw [segments] at h
      split at h
      · rcases List.mem_cons.mp h with rfl | h
        · simp
        · exact ih h
      · rename_i hc
        rcases hs : segments cs with - | ⟨s', ss⟩
        · exact absurd hs (segments_ne_nil cs)
        · rw [hs] at h ih
          rcases List.mem_cons.mp h with rfl | h
          · rw [List.mem_cons, not_or]
            exact ⟨fun he => hc he.symm, ih List.mem_cons_self⟩
          · exact ih (List.mem_cons_of_mem s' h)

/-- The characters of a piece are characters of the text. -/
theorem mem_of_mem_segments {s cs : List Char} {c : Char} (h : s ∈ segments cs) (hc : c ∈ s) :
    c ∈ cs := by
  have hjoin : ∀ ss : List (List Char), s ∈ ss → c ∈ joinSegments ss := by
    intro ss hs
    induction ss with
    | nil => exact absurd hs List.not_mem_nil
    | cons t ss ih =>
      cases ss with
      | nil =>
        obtain rfl := List.mem_singleton.1 hs
        exact hc
      | cons u ss =>
        rcases List.mem_cons.1 hs with rfl | hs
        · exact List.mem_append_left _ hc
        · exact List.mem_append_right _ (List.mem_cons_of_mem '/' (ih hs))
  exact joinSegments_segments cs ▸ hjoin _ h

/-- Joining two rows of segments gives at least as much text as joining each of them. -/
theorem length_joinSegments_append (xs ys : List (List Char)) :
    (joinSegments xs).length + (joinSegments ys).length ≤ (joinSegments (xs ++ ys)).length := by
  induction xs with
  | nil => simp [joinSegments]
  | cons x xs ih =>
    match xs, ys with
    | [], [] => simp [joinSegments]
    | [], y :: ys => simp [joinSegments]
    | x' :: xs, ys =>
      simp only [joinSegments, List.cons_append, List.length_append, List.length_cons] at ih ⊢
      omega

/-- The slashes that lead a path and what comes behind them are the whole path. -/
theorem lead_append_body (path : List Char) :
    (splitLead path).1 ++ (splitLead path).2 = path := by
  unfold splitLead
  split <;> simp

/-- The parent of a path is shorter than the path. -/
theorem length_of_split? {path parent last : List Char} (h : split? path = some (parent, last)) :
    parent.length < path.length := by
  have hpath := congrArg List.length (lead_append_body path)
  simp only [split?] at h
  simp only [List.length_append] at hpath
  split at h
  · rename_i l before heq
    obtain ⟨rfl, rfl⟩ : _ = parent ∧ l = last := by simpa using h
    have hdrop := List.takeWhile_append_dropWhile
      (p := isSkipped) (l := (segments (splitLead path).2).reverse)
    rw [heq] at hdrop
    have hsegs := congrArg List.reverse hdrop
    simp only [List.reverse_append, List.reverse_cons, List.reverse_reverse,
      List.append_assoc] at hsegs
    have hbody := congrArg (fun s => (joinSegments s).length) hsegs
    simp only [joinSegments_segments] at hbody
    have h1 := length_joinSegments_append before.reverse
      ([l] ++ ((segments (splitLead path).2).reverse.takeWhile isSkipped).reverse)
    have h2 := length_joinSegments_append [l]
      ((segments (splitLead path).2).reverse.takeWhile isSkipped).reverse
    have h3 := length_joinSegments_append (before.dropWhile isSkipped).reverse
      (before.takeWhile isSkipped).reverse
    rw [← List.reverse_append, List.takeWhile_append_dropWhile] at h3
    have hl : l ≠ [] := by
      have := List.head_dropWhile_not isSkipped (l := (segments (splitLead path).2).reverse)
        (by rw [heq]; simp)
      simp only [heq, List.head_cons] at this
      intro he
      subst he
      simp [isSkipped] at this
    have := List.length_pos_iff.2 hl
    simp only [List.length_append, joinSegments] at h1 h2 h3 ⊢
    omega
  · split at h
    · obtain ⟨rfl, -⟩ : [] = parent ∧ _ := by simpa using h
      rename_i hlead
      rw [hlead] at hpath
      simp only [List.length_nil, List.length_cons] at hpath ⊢
      omega
    · simp at h

/-- A path with all its parents, the path first. Each parent is cut out of the text in front of
it, so the recursion ends when nothing can be cut off any more. -/
def withParents (path : List Char) : List (List Char) :=
  match h : split? path with
  | none => [path]
  | some (parent, _) => path :: withParents parent
termination_by path.length
decreasing_by exact length_of_split? h

/-- The parent of a path, as it is written in it. The root and the empty path have none; a single
name has the empty path. -/
def parent? (path : String) : Option String :=
  (split? path.toList).map fun (parent, _) => String.ofList parent

/-- The name that a path ends in, if it ends in a proper one. -/
def fileName? (path : String) : Option String :=
  (split? path.toList).bind fun (_, last) =>
    if last = ['.'] ∨ last = ['.', '.'] then none else some (String.ofList last)

/-- A path with all its parents, the path first: the places at which a search upwards looks. -/
def ancestors (path : String) : List String :=
  (withParents path.toList).map String.ofList

/-- A path that leads on from another. What starts at the root stands for itself; otherwise a
slash is put between the two unless one is there. -/
def join (path next : String) : String :=
  if next.toList.head? = some '/' || path.isEmpty then next
  else if path.toList.getLast? = some '/' then path ++ next
  else path ++ "/" ++ next

end Outreach.Path
