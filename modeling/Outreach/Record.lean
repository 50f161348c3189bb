/-!
# Records

A *record* gives each field name at most one text. It is kept as a list of entries with strictly
increasing names, so two records with the same entries are equal, and listing a record always
shows its fields in the order of their names.

## Main results

* `Record.get?_set`: reading after writing one field.
* `Record.get?_retain`: reading after some fields have been dropped.
* `Record.keys_mapValues`: changing values keeps the names.
* `Record.ofList_entries`: a record is the record of its entries.
-/

namespace Outreach

/-- A **record**: texts under distinct names, listed by increasing name. Names are ordered by
their code points, which is also the order of their UTF-8 bytes. -/
structure Record where
  /-- The names with their texts. -/
  entries : List (String × String)
  /-- Names increase strictly along the list. -/
  sorted : entries.Pairwise (fun a b => a.1 < b.1)
  deriving DecidableEq

namespace Record

/-! ### Writing one entry into a sorted list -/

/-- Write `value` under `key` at its place among sorted entries, over an entry of that name. -/
def insertEntry (key value : String) : List (String × String) → List (String × String)
  | [] => [(key, value)]
  | (k, v) :: rest =>
    if key < k then (key, value) :: (k, v) :: rest
    else if key = k then (key, value) :: rest
    else (k, v) :: insertEntry key value rest

/-- The names after an insertion are the one that was inserted and those that were there. -/
theorem fst_of_mem_insertEntry {key value : String} {e : String × String} :
    ∀ {l : List (String × String)}, e ∈ insertEntry key value l → e.1 = key ∨ e ∈ l
  | [], h => by simp_all [insertEntry]
  | (k, v) :: rest, h => by
    unfold insertEntry at h
    split at h
    · rcases List.mem_cons.1 h with rfl | h
      · exact .inl rfl
      · exact .inr h
    · split at h
      · rcases List.mem_cons.1 h with rfl | h
        · exact .inl rfl
        · exact .inr (List.mem_cons_of_mem _ h)
      · rcases List.mem_cons.1 h with rfl | h
        · exact .inr List.mem_cons_self
        · rcases fst_of_mem_insertEntry h with h | h
          · exact .inl h
          · exact .inr (List.mem_cons_of_mem _ h)

/-- Entries that are sorted by their names stay sorted by an insertion. -/
theorem insertEntry_sorted (key value : String) :
    ∀ {l : List (String × String)}, l.Pairwise (fun a b => a.1 < b.1) →
      (insertEntry key value l).Pairwise (fun a b => a.1 < b.1)
  | [], _ => by simp [insertEntry]
  | (k, v) :: rest, h => by
    have hrest := (List.pairwise_cons.1 h).2
    have hhead := (List.pairwise_cons.1 h).1
    unfold insertEntry
    split
    · rename_i hlt
      refine List.pairwise_cons.2 ⟨fun e he => ?_, h⟩
      rcases List.mem_cons.1 he with rfl | he
      · exact hlt
      · exact String.lt_trans hlt (hhead e he)
    · split
      · rename_i heq
        subst heq
        exact List.pairwise_cons.2 ⟨hhead, hrest⟩
      · rename_i hlt hne
        refine List.pairwise_cons.2 ⟨fun e he => ?_, insertEntry_sorted key value hrest⟩
        rcases fst_of_mem_insertEntry he with heq | he
        · rw [heq]
          rcases Decidable.em (k < key) with h' | h'
          · exact h'
          · exact absurd (String.le_antisymm (String.not_lt.1 h') (String.not_lt.1 hlt)) hne
        · exact hhead e he

/-! ### Operations -/

/-- The record without fields, which assignments and layers start from. -/
def empty : Record := ⟨[], .nil⟩

instance : Inhabited Record := ⟨empty⟩
instance : EmptyCollection Record := ⟨empty⟩

/-- The text under `key`, if the record has one there. An empty text is a text. -/
def get? (r : Record) (key : String) : Option String :=
  r.entries.lookup key

/-- Whether the record has a field `key`, whatever its text. -/
def contains (r : Record) (key : String) : Bool :=
  (r.get? key).isSome

/-- The field names, increasing by the numbers of their characters, each of them once. -/
def keys (r : Record) : List String :=
  r.entries.map Prod.fst

/-- The number of fields, each name counted once. -/
def size (r : Record) : Nat :=
  r.entries.length

/-- Whether the record has no field at all. -/
def isEmpty (r : Record) : Bool :=
  r.entries.isEmpty

/-- Write `value` under `key`, over any text that stood there. The entries stay sorted. -/
def set (r : Record) (key value : String) : Record :=
  ⟨insertEntry key value r.entries, insertEntry_sorted key value r.sorted⟩

/-- Write entries one after the other; of two with one name the later stays. -/
def setAll (r : Record) (entries : List (String × String)) : Record :=
  entries.foldl (fun r e => r.set e.1 e.2) r

/-- The record of a list of entries; of two with one name the later stays. -/
def ofList (entries : List (String × String)) : Record :=
  empty.setAll entries

/-- Lay every field of `other` over `r`: where both have a field, that of `other` counts. -/
def merge (r other : Record) : Record :=
  r.setAll other.entries

/-- Keep the fields whose name is in `names`, with their texts, and drop all others. -/
def retain (r : Record) (names : List String) : Record :=
  ⟨r.entries.filter (fun e => names.contains e.1), r.sorted.filter _⟩

/-- Change each text as its name tells; the names stay, and so does their order. -/
def mapValues (f : String → String → String) (r : Record) : Record :=
  ⟨r.entries.map (fun e => (e.1, f e.1 e.2)), by
    rw [List.pairwise_map]
    exact r.sorted⟩

/-! ### Reading after writing -/

/-- A look-up stops at the first entry with the name. -/
theorem lookup_cons_eq_ite (k a v : String) (rest : List (String × String)) :
    ((a, v) :: rest).lookup k = if k = a then some v else rest.lookup k := by
  rw [List.lookup_cons]
  by_cases h : k = a
  · simp [h]
  · simp [h, beq_eq_false_iff_ne.2 h]

/-- An insertion decides the look-up of its own name and leaves all others as they were. -/
theorem lookup_insertEntry (key value k : String) :
    ∀ l : List (String × String), (insertEntry key value l).lookup k =
      if k = key then some value else l.lookup k
  | [] => by
    rw [insertEntry, lookup_cons_eq_ite]
  | (a, v) :: rest => by
    have ih := lookup_insertEntry key value k rest
    unfold insertEntry
    split
    · simp only [lookup_cons_eq_ite]
    · split
      · rename_i heq
        subst heq
        simp only [lookup_cons_eq_ite]
        split <;> rfl
      · rename_i hne
        simp only [lookup_cons_eq_ite, ih]
        by_cases h : k = a
        · simp [h, Ne.symm hne]
        · simp [h]

/-- Reading `k` after writing `key` gives the new text exactly at `key`. -/
@[simp] theorem get?_set (r : Record) (key value k : String) :
    (r.set key value).get? k = if k = key then some value else r.get? k :=
  lookup_insertEntry key value k r.entries

@[simp] theorem get?_empty (k : String) : (∅ : Record).get? k = none := rfl

/-- Dropping fields leaves the texts of those that are kept. -/
@[simp] theorem get?_retain (r : Record) (names : List String) (k : String) :
    (r.retain names).get? k = if names.contains k then r.get? k else none := by
  simp only [get?, retain]
  induction r.entries with
  | nil => simp
  | cons e rest ih =>
    obtain ⟨a, v⟩ := e
    rw [lookup_cons_eq_ite, List.filter_cons]
    by_cases hk : k = a
    · subst hk
      by_cases h : names.contains k = true
      · simp only [h, if_true, lookup_cons_eq_ite]
      · simp only [h, Bool.false_eq_true, if_false] at ih ⊢
        exact ih
    · by_cases h : names.contains a = true
      · simp only [h, if_true, lookup_cons_eq_ite, hk, if_false, ih]
      · simp only [h, Bool.false_eq_true, if_false, hk]
        exact ih

/-! ### Entries -/

/-- A name after all others is written at the end. -/
theorem insertEntry_of_forall_lt {key value : String} {l : List (String × String)}
    (h : ∀ e ∈ l, e.1 < key) : insertEntry key value l = l ++ [(key, value)] := by
  induction l with
  | nil => rfl
  | cons e rest ih =>
    have he := h e List.mem_cons_self
    rw [insertEntry, if_neg (String.lt_asymm he), if_neg (String.ne_of_lt he).symm,
      ih fun d hd => h d (List.mem_cons_of_mem e hd), List.cons_append]

/-- Entries with increasing names after those of a record are written at its end. -/
theorem entries_setAll {r : Record} {l : List (String × String)}
    (h : (r.entries ++ l).Pairwise (fun a b => a.1 < b.1)) :
    (r.setAll l).entries = r.entries ++ l := by
  induction l generalizing r with
  | nil => exact (List.append_nil _).symm
  | cons e rest ih =>
    have hset : (r.set e.1 e.2).entries = r.entries ++ [e] :=
      insertEntry_of_forall_lt fun d hd =>
        (List.pairwise_append.1 h).2.2 d hd e List.mem_cons_self
    have hrest : ((r.set e.1 e.2).entries ++ rest).Pairwise (fun a b => a.1 < b.1) := by
      rwa [hset, List.append_assoc]
    exact (ih hrest).trans (by rw [hset, List.append_assoc]; rfl)

/-- A record is the record of its entries. -/
@[simp] theorem ofList_entries (r : Record) : ofList r.entries = r := by
  have h : (ofList r.entries).entries = r.entries := entries_setAll (r := empty) r.sorted
  obtain ⟨entries, sorted⟩ := r
  exact (Record.mk.injEq ..).mpr h

/-- A record has a field exactly when its name is listed. -/
theorem contains_iff_mem_keys (r : Record) (key : String) :
    r.contains key = true ↔ key ∈ r.keys := by
  rw [contains, get?, List.lookup_isSome_iff]
  simp [keys]

/-- Changing values keeps the names. -/
@[simp] theorem keys_mapValues (f : String → String → String) (r : Record) :
    (r.mapValues f).keys = r.keys := by
  simp [keys, mapValues, Function.comp_def]

end Record

end Outreach
