import Mathlib.Algebra.Group.Nat.Defs
import Mathlib.Order.Bounds.Basic
import Outreach.Calendar
import Outreach.Proofs.FreshId
import Outreach.Proofs.Preset.Runs

/-!
# Searching for a Fresh Id

A fresh id is found by counting. A counter starts with the reading of the clock and counts on as
long as the text of its number is an id. Nothing in this search says how long it takes: that it ends
at all, and before a counter of 64 bits does, is shown here. `freshId` is the text of the number at
which it ends.

A counter of 64 bits ends with `2 ^ 63 - 1`. It finds a number if one is free from the clock up to
there (`Counter.exists_search_iff`), and one is free if the clock is further below `2 ^ 63` than
there are ids. With the clock at just that distance all of them may be ids (`freshId_overflows`),
but no clock shows a time so late.

## Main results

* `Counter.Search.isLeast`: a search ends at the least number that is not taken.
* `Counter.exists_search_iff`: a search ends exactly if its counter gets to such a number.
* `freshId_countsTo`: **the search for an id ends**, soon, in the presets and in the templates, and
  without an overflow exactly if it ends below `2 ^ 63`.
* `freshId_overflows`: ids that leave a counter of 64 bits nothing to find.
-/

namespace Outreach

/-! ### Counters -/

/-- A **counter** shows numbers, one after the other. It may come to an end, and then there are no
greater numbers that it could show. -/
structure Counter (C : Type) where
  /-- The number that is shown. -/
  number : C → Int
  /-- What is shown next. -/
  next? : C → Option C
  number_of_next : ∀ {c c' : C}, next? c = some c' → number c' = number c + 1
  exists_next : ∀ {c c' : C}, number c < number c' → ∃ next, next? c = some next

namespace Counter

/-- The counter that never ends, by which the search is written. -/
def unbounded : Counter Nat where
  number n := n
  next? n := some (n + 1)
  number_of_next h := by
    obtain rfl := Option.some.inj h
    rfl
  exists_next _ := ⟨_, rfl⟩

/-- The counter of **64 bits** with a sign. At its largest number it ends, for there it would
overflow. -/
def int64 : Counter Int64 where
  number := Int64.toInt
  next? c := if c = Int64.maxValue then none else some (c + 1)
  number_of_next {c c'} h := by
    split at h
    · cases h
    · rename_i hc
      obtain rfl := Option.some.inj h
      have hne : c.toInt ≠ Int64.maxValue.toInt := mt Int64.toInt_inj.mp hc
      rw [Int64.toInt_maxValue] at hne
      have hlt := Int64.toInt_lt c
      have hle := Int64.le_toInt c
      rw [Int64.toInt_add, Int64.toInt_one, Int.bmod_eq_of_le (by omega) (by omega)]
  exists_next {c c'} h := by
    have hc : c ≠ Int64.maxValue := by
      rintro rfl
      exact absurd (Int64.toInt_le c') (by omega)
    exact ⟨c + 1, if_neg hc⟩

variable {C : Type} {k : Counter C} {isTaken : String → Bool} {start stop : C}
  {tests clock m limit : Nat}

/-! ### Searches -/

/-- A **search** with a counter, from what it shows first to what it shows last, in a number of
tests. It counts on as long as the text of its number is taken. There is no search that would have
to count on at the end of its counter. -/
inductive Search (k : Counter C) (isTaken : String → Bool) : C → Nat → C → Prop
  /-- The last test: the text is not taken. -/
  | last {c : C} (free : isTaken (toString (k.number c)) = false) : Search k isTaken c 1 c
  /-- A test after which the counter counts on: the text is taken. -/
  | further {c next stop : C} {tests : Nat} (taken : isTaken (toString (k.number c)) = true)
      (counted : k.next? c = some next) (rest : Search k isTaken next tests stop) :
      Search k isTaken c (tests + 1) stop

/-- **A search ends at the least number whose text is not taken**, and has tested all numbers up to
it. -/
theorem Search.isLeast (h : k.Search isTaken start tests stop) :
    IsLeast {n | k.number start ≤ n ∧ isTaken (toString n) = false} (k.number stop) ∧
      k.number stop + 1 = k.number start + tests := by
  induction h with
  | last free => exact ⟨⟨⟨Int.le_refl _, free⟩, fun n hn => hn.1⟩, rfl⟩
  | @further c next stop tests taken counted _ ih =>
      rw [k.number_of_next counted] at ih
      obtain ⟨⟨⟨hle, hfree⟩, hleast⟩, htests⟩ := ih
      refine ⟨⟨⟨by omega, hfree⟩, fun n hn => hleast ⟨?_, hn.2⟩⟩, by omega⟩
      have hne : k.number c ≠ n := by
        rintro rfl
        exact absurd (hn.2.symm.trans taken) (by simp)
      have hn := hn.1
      omega

/-- **A search ends exactly if its counter gets to a number whose text is not taken.** -/
theorem exists_search_iff :
    (∃ tests stop, k.Search isTaken start tests stop) ↔
      ∃ c, k.number start ≤ k.number c ∧ isTaken (toString (k.number c)) = false := by
  constructor
  · rintro ⟨tests, stop, h⟩
    exact ⟨stop, h.isLeast.1.1⟩
  · rintro ⟨c, hle, hfree⟩
    -- the distance to this number falls with each test
    obtain ⟨d, hd⟩ := Int.le.dest hle
    induction d generalizing start with
    | zero =>
        have heq : k.number start = k.number c := by simpa using hd
        exact ⟨1, start, .last (heq ▸ hfree)⟩
    | succ d ih =>
        cases htaken : isTaken (toString (k.number start)) with
        | false => exact ⟨1, start, .last htaken⟩
        | true =>
            have hlt : k.number start < k.number c := by omega
            obtain ⟨next, hnext⟩ := k.exists_next hlt
            have hnumber := k.number_of_next hnext
            have hle' : k.number next ≤ k.number c := by omega
            obtain ⟨tests, stop, h⟩ := ih hle' (by omega)
            exact ⟨tests + 1, stop, .further htaken hnext h⟩

/-- A counter that starts with the clock **finds** a number within a number of tests. -/
def Finds (k : Counter C) (isTaken : String → Bool) (clock m limit : Nat) : Prop :=
  ∃ start stop tests, k.number start = clock ∧ k.Search isTaken start tests stop ∧
    k.number stop = m ∧ tests ≤ limit

/-- A counter that shows both the clock and the least number whose text is not taken finds it. -/
theorem finds_of_isLeast (hm : IsLeast {n : Nat | clock ≤ n ∧ isTaken (toString n) = false} m)
    (hlimit : m + 1 ≤ clock + limit) (hstart : k.number start = clock)
    (hstop : k.number stop = m) : k.Finds isTaken clock m limit := by
  obtain ⟨⟨hle, hfree⟩, hleast⟩ := hm
  obtain ⟨tests, last, hsearch⟩ := exists_search_iff.mpr
    ⟨stop, by rw [hstart, hstop]; omega, by rw [hstop]; exact hfree⟩
  obtain ⟨hlast, htests⟩ := hsearch.isLeast
  rw [hstart] at hlast htests
  -- numbers from the clock on are natural ones
  have hm' : IsLeast {n : Int | (clock : Int) ≤ n ∧ isTaken (toString n) = false} m := by
    refine ⟨⟨by omega, hfree⟩, fun n hn => ?_⟩
    obtain ⟨n, rfl⟩ := Int.eq_ofNat_of_zero_le (Int.le_trans (Int.natCast_nonneg clock) hn.1)
    exact Int.ofNat_le.mpr (hleast ⟨Int.ofNat_le.mp hn.1, hn.2⟩)
  have hnumber := hlast.unique hm'
  exact ⟨start, last, tests, hstart, hsearch, hnumber, by omega⟩

/-- What a counter finds is not before the clock and not taken, and the counter shows it. -/
theorem Finds.spec (h : k.Finds isTaken clock m limit) :
    clock ≤ m ∧ isTaken (toString m) = false ∧ ∃ c, k.number c = m := by
  obtain ⟨start, stop, tests, hstart, hsearch, hstop, -⟩ := h
  obtain ⟨⟨⟨hle, hfree⟩, -⟩, -⟩ := hsearch.isLeast
  rw [hstart, hstop] at hle
  rw [hstop] at hfree
  exact ⟨Int.ofNat_le.mp hle, hfree, stop, hstop⟩

/-- A counter of 64 bits finds nothing that is too great for it. -/
theorem Finds.lt_of_int64 (h : int64.Finds isTaken clock m limit) : m < 2 ^ 63 := by
  obtain ⟨-, -, c, hc⟩ := h.spec
  have hlt := Int64.toInt_lt c
  change c.toInt = m at hc
  omega

/-- A counter of 64 bits **overflows** if all that it has left is taken. -/
theorem not_finds_int64 (h : ∀ n, clock ≤ n → n < 2 ^ 63 → isTaken (toString n) = true) :
    ¬ int64.Finds isTaken clock m limit := by
  intro hfinds
  obtain ⟨hle, hfree, -⟩ := hfinds.spec
  exact absurd ((h m hle hfinds.lt_of_int64).symm.trans hfree) (by simp)

end Counter

/-! ### Ids -/

/-- The last reading of a clock: the last millisecond of the year 262143, with which dates end. -/
def lastReading : Nat := 8210298412799999

example : Date.ofUnixMillis lastReading = ⟨262143, 12, 31⟩ ∧
    Date.ofUnixMillis (lastReading + 1) = ⟨262144, 1, 1⟩ := by decide

/-- A search for an id **counts to** a number, when there are some ids, with a test for being one of
them. -/
structure CountsTo (isTaken : String → Bool) (ids : List String) (clock m : Nat) : Prop where
  /-- It ends there, after at most one test more than there are ids. -/
  ends : Counter.unbounded.Finds isTaken clock m (ids.length + 1)
  /-- The number is the least from the clock on whose text is no id. -/
  least : IsLeast {n | clock ≤ n ∧ toString n ∉ ids} m
  /-- It is no further from the clock than there are ids. -/
  near : m ≤ clock + ids.length
  /-- A counter of 64 bits ends there too, exactly if the number is not too great for it. -/
  fits_iff : Counter.int64.Finds isTaken clock m (ids.length + 1) ↔ m < 2 ^ 63
  /-- If the clock is further below `2 ^ 63` than there are ids, it does not overflow. -/
  fits : clock + ids.length < 2 ^ 63 → Counter.int64.Finds isTaken clock m (ids.length + 1)
  /-- Nor does it at any reading of a clock, whatever ids a memory holds. -/
  fits_of_reading : clock ≤ lastReading → ids.length < 2 ^ 62 →
    Counter.int64.Finds isTaken clock m (ids.length + 1)

/-- A search with a test for being an id counts to the first number that is free. -/
theorem countsTo_firstFree {isTaken : String → Bool} {ids : List String} (clock : Nat)
    (htaken : ∀ id, isTaken id = true ↔ id ∈ ids) :
    CountsTo isTaken ids clock (firstFree ids clock ids.length) := by
  have hleast := isLeast_firstFree ids clock
  obtain ⟨-, hnear, -⟩ := firstFree_spec ids clock ids.length
  have hfree : {n | clock ≤ n ∧ toString n ∉ ids} =
      {n | clock ≤ n ∧ isTaken (toString n) = false} := by
    ext n
    simp [← htaken]
  have hfound := hfree ▸ hleast
  have hle := hleast.1.1
  have hfits : Counter.int64.Finds isTaken clock (firstFree ids clock ids.length)
      (ids.length + 1) ↔ firstFree ids clock ids.length < 2 ^ 63 :=
    ⟨Counter.Finds.lt_of_int64, fun hlt => Counter.finds_of_isLeast hfound (by omega)
      (Int64.toInt_ofNat_of_lt (by omega)) (Int64.toInt_ofNat_of_lt (by omega))⟩
  exact {
    ends := Counter.finds_of_isLeast hfound (by omega) rfl rfl
    least := hleast
    near := hnear
    fits_iff := hfits
    fits := fun hlt => hfits.mpr (by omega)
    fits_of_reading := fun hclock hlength =>
      hfits.mpr (by rw [lastReading] at hclock; omega) }

/-- **The search for an id ends**, whatever ids there are and whatever the clock shows, in the
presets and in the templates. It takes at most one test more than there are ids and ends at the
least number from the clock on whose text is no id. This text is the fresh id, and the id of what is
added. A counter of 64 bits does not overflow if the clock is further below `2 ^ 63` than there are
ids. -/
theorem freshId_countsTo (clock : Nat) :
    (∀ s : Presets, ∃ m, freshId s.ids clock = toString m ∧
      CountsTo (fun id => (s.find? id).isSome) s.ids clock m ∧
      ∀ name fields p s', s.add clock name fields = (.ok p, s') → p.id = toString m) ∧
    ∀ s : Templates, ∃ m, freshId s.ids clock = toString m ∧
      CountsTo (fun id => (s.find? id).isSome) s.ids clock m ∧
      ∀ name content t s', s.add clock name content = (.ok t, s') → t.id = toString m := by
  constructor
  · intro s
    have htaken : ∀ id, (s.find? id).isSome = true ↔ id ∈ s.ids := by
      simp [Presets.find?, Presets.ids]
    exact ⟨_, rfl, countsTo_firstFree clock htaken, fun _ _ _ _ h => (Presets.add_eq_ok h).2.2.1⟩
  · intro s
    have htaken : ∀ id, (s.find? id).isSome = true ↔ id ∈ s.ids := by
      simp [Templates.find?, Templates.ids]
    exact ⟨_, rfl, countsTo_firstFree clock htaken, fun _ _ _ _ h => (Templates.add_eq_ok h).2.2.1⟩

/-- The id that the clock shows and the next one are taken, the latter twice; and templates that
leave nothing free but the largest number of 64 bits. -/
theorem freshId_countsTo_taken :
    let p : Presets := ⟨[⟨"1763510400001", "a", .empty⟩, ⟨"1763510400000", "b", .empty⟩,
      ⟨"1763510400001", "c", .empty⟩]⟩
    let s : Templates := ⟨"",
      [⟨"9223372036854775806", "a", "x"⟩, ⟨"9223372036854775805", "b", "y"⟩]⟩
    (1763510400000 ≤ lastReading ∧ p.ids.length < 2 ^ 62 ∧
      Counter.int64.Finds (fun id => (p.find? id).isSome) 1763510400000 1763510400002 4) ∧
    (9223372036854775805 + s.ids.length < 2 ^ 63 ∧
      Counter.int64.Finds (fun id => (s.find? id).isSome)
        9223372036854775805 9223372036854775807 3) := by
  intro p s
  have hreading : 1763510400000 ≤ lastReading := by decide
  have hlength : p.ids.length < 2 ^ 62 := by decide
  have hroom : 9223372036854775805 + s.ids.length < 2 ^ 63 := by decide
  obtain ⟨m, hm, hcounts, -⟩ := (freshId_countsTo 1763510400000).1 p
  obtain ⟨n, hn, hcounts', -⟩ := (freshId_countsTo 9223372036854775805).2 s
  obtain rfl : 1763510400002 = m := toString_nat_injective (Eq.trans (by decide +kernel) hm)
  obtain rfl : 9223372036854775807 = n := toString_nat_injective (Eq.trans (by decide +kernel) hn)
  exact ⟨⟨hreading, hlength, hcounts.fits_of_reading hreading hlength⟩, hroom, hcounts'.fits hroom⟩

/-- **Ids can leave a counter nothing to find**: with the clock as far below `2 ^ 63` as there are
ids, all the numbers that a counter of 64 bits has left may be taken, and it overflows. -/
theorem freshId_overflows :
    let p : Presets := ⟨[⟨"9223372036854775807", "a", .empty⟩]⟩
    let s : Templates := ⟨"", [⟨"9223372036854775807", "a", "x"⟩]⟩
    (9223372036854775807 + p.ids.length ≤ 2 ^ 63 ∧ ∀ m limit, ¬ Counter.int64.Finds
      (fun id => (p.find? id).isSome) 9223372036854775807 m limit) ∧
    (9223372036854775807 + s.ids.length ≤ 2 ^ 63 ∧ ∀ m limit, ¬ Counter.int64.Finds
      (fun id => (s.find? id).isSome) 9223372036854775807 m limit) := by
  intro p s
  have hlast : ∀ n, 9223372036854775807 ≤ n → n < 2 ^ 63 → n = 9223372036854775807 :=
    fun n hle hlt => by omega
  refine ⟨⟨by decide, fun m limit => Counter.not_finds_int64 fun n hle hlt => ?_⟩,
    by decide, fun m limit => Counter.not_finds_int64 fun n hle hlt => ?_⟩
  · rw [hlast n hle hlt]
    decide +kernel
  · rw [hlast n hle hlt]
    decide +kernel

end Outreach
