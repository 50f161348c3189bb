import Mathlib.Data.List.Nodup
import Mathlib.Data.List.Perm.Subperm
import Mathlib.Order.Bounds.Basic
import Outreach.FreshId

/-!
# Fresh Ids Are Fresh

The numbers from the clock on have different decimal texts, so among one more of them than there are
ids, one is not taken. The search stops at the first of these.

## Main results

* `firstFree_spec`: where the search stops, and what it has passed.
* `isLeast_firstFree`: **the search stops at the least number that is free**.
* `freshId_notMem`: a fresh id is not taken.
-/

namespace Outreach

/-- Numbers with one decimal text are one number. -/
theorem toString_nat_injective : Function.Injective (toString : Nat → String) := by
  intro m n h
  have hdigits : Nat.toDigits 10 m = Nat.toDigits 10 n := by
    simpa using congrArg String.toList h
  rw [← Nat.ofDigitChars_ten_toDigits (n := m), hdigits, Nat.ofDigitChars_ten_toDigits]

/-- The search stops within its tries, at a number that is not taken unless all tries are used up,
and has passed only numbers that are taken. -/
theorem firstFree_spec (taken : List String) (n tries : Nat) :
    n ≤ firstFree taken n tries ∧ firstFree taken n tries ≤ n + tries ∧
      (toString (firstFree taken n tries) ∉ taken ∨ firstFree taken n tries = n + tries) ∧
      ∀ k, n ≤ k → k < firstFree taken n tries → toString k ∈ taken := by
  induction tries generalizing n with
  | zero =>
      rw [firstFree]
      exact ⟨Nat.le_refl _, Nat.le_refl _, .inr rfl, fun k h h' => absurd h' (Nat.not_lt.mpr h)⟩
  | succ tries ih =>
      rw [firstFree]
      split
      · rename_i htaken
        obtain ⟨hle, hle', hstop, hpassed⟩ := ih (n + 1)
        refine ⟨by omega, by omega, ?_, fun k hk hk' => ?_⟩
        · rcases hstop with hstop | hstop
          · exact .inl hstop
          · exact .inr (by omega)
        · rcases Nat.eq_or_lt_of_le hk with rfl | hk
          · exact List.contains_iff_mem.mp htaken
          · exact hpassed k hk hk'
      · rename_i htaken
        refine ⟨Nat.le_refl _, by omega, .inl ?_, fun k h h' => absurd h' (Nat.not_lt.mpr h)⟩
        exact fun hmem => htaken (List.contains_iff_mem.mpr hmem)

/-- Not all of one more numbers than there are ids are taken. -/
theorem exists_notMem_of_length_le {taken : List String} {tries : Nat}
    (h : taken.length ≤ tries) (n : Nat) : ∃ k, n ≤ k ∧ k ≤ n + tries ∧ toString k ∉ taken := by
  by_contra hall
  push Not at hall
  -- else the texts of these numbers, all different, would be among the ids
  have hnodup : ((List.range' n (tries + 1)).map toString).Nodup :=
    List.Nodup.map toString_nat_injective List.nodup_range'
  have hsubset : (List.range' n (tries + 1)).map toString ⊆ taken := by
    intro id hid
    obtain ⟨k, hk, rfl⟩ := List.mem_map.mp hid
    obtain ⟨hle, hlt⟩ := List.mem_range'_1.mp hk
    exact hall k hle (by omega)
  have hlength := (hnodup.subperm hsubset).length_le
  rw [List.length_map, List.length_range'] at hlength
  omega

/-- **The search stops at the least number whose text is not taken**, whatever the clock shows. -/
theorem isLeast_firstFree (taken : List String) (clock : Nat) :
    IsLeast {n | clock ≤ n ∧ toString n ∉ taken} (firstFree taken clock taken.length) := by
  obtain ⟨hle, -, hstop, hpassed⟩ := firstFree_spec taken clock taken.length
  refine ⟨⟨hle, ?_⟩, fun n hn => ?_⟩
  · rcases hstop with hstop | hstop
    · exact hstop
    · -- then all numbers before the last one are taken, so the last one is free
      obtain ⟨k, hk, hk', hfree⟩ := exists_notMem_of_length_le (Nat.le_refl taken.length) clock
      rcases Nat.lt_or_ge k (firstFree taken clock taken.length) with hlt | hge
      · exact absurd (hpassed k hk hlt) hfree
      · have heq : firstFree taken clock taken.length = k := by omega
        rw [heq]
        exact hfree
  · exact Nat.le_of_not_lt fun hlt => hn.2 (hpassed n hn.1 hlt)

/-- **A fresh id is not taken.** -/
theorem freshId_notMem (taken : List String) (clock : Nat) : freshId taken clock ∉ taken :=
  (isLeast_firstFree taken clock).1.2

end Outreach
