import Mathlib.Data.List.TakeWhile
import Outreach.Deal.Assignment

/-!
# The Last Assignment Counts

Assignments are carried out one after the other. For each key the last one that names it counts,
and where none does, what was there before stays.

## Main results

* `readAssignment_eq_ok_iff`: what an assignment assigns.
* `Record.exists_assigned_of_assignAll`: **reading after a list of assignments**.
-/

namespace Outreach

/-! ### One assignment -/

/-- A text **assigns** a value to a key: the key is what stands before the first equals sign, blanks
at its ends aside, and the value is all that follows that sign. -/
def Assigns (text key value : String) : Prop :=
  ∃ before : List Char, '=' ∉ before ∧ text.toList = before ++ '=' :: value.toList ∧
    Text.trimChars before = key.toList

variable {text key value : String}

/-- A text is cut at its first equals sign. -/
theorem splitAtEquals_eq_some_iff {cs before value : List Char} :
    splitAtEquals cs = some (before, value) ↔ '=' ∉ before ∧ cs = before ++ '=' :: value := by
  constructor
  · intro h
    rw [splitAtEquals] at h
    split at h
    · exact absurd h (by simp)
    · rename_i c rest hrest
      obtain ⟨rfl, rfl⟩ := Prod.mk.inj (Option.some.inj h)
      have hc : c = '=' := by
        have hhead := List.head?_dropWhile_not (· != '=') cs
        rw [hrest] at hhead
        simpa using hhead
      constructor
      · intro hmem
        exact absurd (List.mem_takeWhile_imp hmem) (by simp)
      · have happend : cs.takeWhile (· != '=') ++ cs.dropWhile (· != '=') = cs :=
          List.takeWhile_append_dropWhile
        rw [hrest, hc] at happend
        exact happend.symm
  · rintro ⟨hbefore, rfl⟩
    have hall : ∀ c ∈ before, (c != '=') = true := fun c hc =>
      bne_iff_ne.mpr fun heq => hbefore (heq ▸ hc)
    rw [splitAtEquals, List.dropWhile_append_of_pos hall, List.takeWhile_append_of_pos hall,
      List.dropWhile_cons_of_neg (by simp), List.takeWhile_cons_of_neg (by simp), List.append_nil]

/-- What an assignment assigns, if it has a key. -/
theorem readAssignment_eq_ok_iff :
    readAssignment text = .ok (key, value) ↔ Assigns text key value ∧ key ≠ "" := by
  constructor
  · intro h
    rw [readAssignment] at h
    split at h
    · exact absurd h (by simp [throw, throwThe, MonadExceptOf.throw])
    · rename_i before rest hsplit
      obtain ⟨hbefore, htext⟩ := splitAtEquals_eq_some_iff.mp hsplit
      dsimp only at h
      split at h
      · exact absurd h (by simp [throw, throwThe, MonadExceptOf.throw])
      · rename_i hkey
        obtain ⟨rfl, rfl⟩ := Prod.mk.inj (Except.ok.inj h)
        refine ⟨⟨before, hbefore, ?_, ?_⟩, fun hempty => hkey ?_⟩
        · rw [htext, String.toList_ofList]
        · rw [String.toList_ofList]
        · rw [List.isEmpty_iff]
          simpa using congrArg String.toList hempty
  · rintro ⟨⟨before, hbefore, htext, hkey⟩, hne⟩
    have hnil : ¬ key.toList.isEmpty = true := by
      rw [List.isEmpty_iff]
      simpa using hne
    rw [readAssignment, splitAtEquals_eq_some_iff.mpr ⟨hbefore, htext⟩]
    simp only [hkey, if_neg hnil, String.ofList_toList]
    rfl

/-- A text assigns at most one value, to one key. -/
theorem Assigns.unique {key' value' : String} (h : Assigns text key value)
    (h' : Assigns text key' value') : key = key' ∧ value = value' := by
  obtain ⟨before, hbefore, htext, hkey⟩ := h
  obtain ⟨before', hbefore', htext', hkey'⟩ := h'
  have hsplit := splitAtEquals_eq_some_iff.mpr ⟨hbefore, htext⟩
  rw [splitAtEquals_eq_some_iff.mpr ⟨hbefore', htext'⟩] at hsplit
  obtain ⟨rfl, hvalue⟩ := Prod.mk.inj (Option.some.inj hsplit)
  exact ⟨String.toList_inj.mp (hkey.symm.trans hkey'), (String.toList_inj.mp hvalue).symm⟩

/-! ### Several assignments -/

/-- A value is the one that several texts **last assign** to a key: one of them assigns it, and none
behind it assigns anything to that key. -/
def LastAssigns (texts : List String) (key value : String) : Prop :=
  ∃ before text after, texts = before ++ text :: after ∧ Assigns text key value ∧
    ∀ other ∈ after, ∀ value', ¬ Assigns other key value'

variable {texts : List String}

/-- The last assignment stands among the later texts, or it is the first one. -/
theorem lastAssigns_cons_iff :
    LastAssigns (text :: texts) key value ↔
      LastAssigns texts key value ∨
        Assigns text key value ∧ ∀ other ∈ texts, ∀ value', ¬ Assigns other key value' := by
  constructor
  · rintro ⟨_ | ⟨first, before⟩, t, after, heq, hassigns, hafter⟩
    · obtain ⟨rfl, rfl⟩ := List.cons.inj heq
      exact .inr ⟨hassigns, hafter⟩
    · obtain ⟨rfl, rfl⟩ := List.cons.inj heq
      exact .inl ⟨before, t, after, rfl, hassigns, hafter⟩
  · rintro (⟨before, t, after, rfl, hassigns, hafter⟩ | ⟨hassigns, hafter⟩)
    · exact ⟨text :: before, t, after, rfl, hassigns, hafter⟩
    · exact ⟨[], text, texts, rfl, hassigns, hafter⟩

/-- If a text assigns something to a key, there is a last one that does. -/
theorem exists_lastAssigns {other : String} (hmem : other ∈ texts)
    (hassigns : Assigns other key value) : ∃ value', LastAssigns texts key value' := by
  induction texts generalizing other value with
  | nil => exact absurd hmem List.not_mem_nil
  | cons text texts ih =>
      by_cases hlater : ∃ value', LastAssigns texts key value'
      · obtain ⟨value', hlast⟩ := hlater
        exact ⟨value', lastAssigns_cons_iff.mpr (.inl hlast)⟩
      · rcases List.mem_cons.mp hmem with rfl | hmem
        · exact ⟨value, lastAssigns_cons_iff.mpr
            (.inr ⟨hassigns, fun t ht value' h => hlater (ih ht h)⟩)⟩
        · exact absurd (ih hmem hassigns) hlater

namespace Record

variable {r r' : Record}

/-- The first of some assignments is carried out before the others. -/
theorem assignAll_cons_eq_ok (h : r.assignAll (text :: texts) = .ok r') :
    ∃ key value, readAssignment text = .ok (key, value) ∧
      (r.set key value).assignAll texts = .ok r' := by
  rw [assignAll, List.foldlM_cons, assign] at h
  rcases hread : readAssignment text with e | ⟨key, value⟩
  · rw [hread] at h
    exact absurd h (by simp [bind, Except.bind])
  · rw [hread] at h
    exact ⟨key, value, rfl, h⟩

/-- Carrying out a list of assignments: the last one for a key counts, and without one what was
there stays. -/
theorem get?_of_assignAll (h : r.assignAll texts = .ok r') (key : String) :
    (∀ value, LastAssigns texts key value → r'.get? key = some value) ∧
      ((∀ text ∈ texts, ∀ value, ¬ Assigns text key value) → r'.get? key = r.get? key) := by
  induction texts generalizing r with
  | nil =>
      obtain rfl := Except.ok.inj h
      refine ⟨?_, fun _ => rfl⟩
      rintro value ⟨before, text, after, heq, -⟩
      exact absurd heq (by simp)
  | cons text texts ih =>
      obtain ⟨k, v, hread, hrest⟩ := assignAll_cons_eq_ok h
      obtain ⟨hassigns, -⟩ := readAssignment_eq_ok_iff.mp hread
      obtain ⟨hlast, hnone⟩ := ih hrest
      constructor
      · intro value hvalue
        rcases lastAssigns_cons_iff.mp hvalue with hvalue | ⟨hvalue, hafter⟩
        · exact hlast value hvalue
        · obtain ⟨rfl, rfl⟩ := hvalue.unique hassigns
          rw [hnone hafter, get?_set, if_pos rfl]
      · intro hall
        have hne : key ≠ k := by
          rintro rfl
          exact hall text List.mem_cons_self v hassigns
        rw [hnone fun t ht => hall t (List.mem_cons_of_mem text ht), get?_set, if_neg hne]

/-- **Reading after a list of assignments**: what they last assign to the key, and without such an
assignment what was there before. -/
theorem exists_assigned_of_assignAll (h : r.assignAll texts = .ok r') (key : String) :
    ∃ assigned : Option String, (∀ value, assigned = some value ↔ LastAssigns texts key value) ∧
      r'.get? key = assigned.or (r.get? key) := by
  obtain ⟨hlast, hnone⟩ := get?_of_assignAll h key
  by_cases hassigned : ∃ value, LastAssigns texts key value
  · obtain ⟨value, hvalue⟩ := hassigned
    refine ⟨some value, fun value' => ⟨?_, fun hvalue' => ?_⟩, hlast value hvalue⟩
    · rintro ⟨⟩
      exact hvalue
    · rw [← hlast value hvalue, hlast value' hvalue']
  · refine ⟨none, fun value => ⟨fun h => absurd h (by simp), fun hvalue => ?_⟩, ?_⟩
    · exact absurd ⟨value, hvalue⟩ hassigned
    · exact hnone fun text htext value hassigns =>
        hassigned (exists_lastAssigns htext hassigns)

end Record

end Outreach
