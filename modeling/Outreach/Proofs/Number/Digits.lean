import Outreach.Number.Fixed

/-!
# Decimal Digits

Digits denote a number, and of each length there is one list of digits that denotes it. The digits
of a number are thus those that it was read from, zeros at their front apart.

## Main results

* `Numeral.eq_of_natOfDigits_eq`: digits of one length that denote one number are the same.
* `Numeral.toDigits_natOfDigits`: **a number is written with the digits from which it was read**.
* `Binary64.lastDigits_natOfDigits`: so are its last digits, with the zeros at their front.
* `Binary64.natOfDigits_fixedDigits`: the digits around the point denote the rounded number.
-/

namespace Outreach

namespace Numeral

variable {d : Char} {ds es : List Char}

/-! ### The number of some digits -/

/-- The number of two rows of digits is that of the first, shifted by the length of the second,
and that of the second. -/
theorem natOfDigits_append (ds es : List Char) :
    natOfDigits (ds ++ es) = tenPow es.length * natOfDigits ds + natOfDigits es := by
  have happend : natOfDigits (ds ++ es) = Nat.ofDigitChars 10 es (natOfDigits ds) :=
    Nat.ofDigitChars_append 0
  exact happend.trans Nat.ofDigitChars_eq_ofDigitChars_zero

/-- The first digit of a row counts as often as the power of ten for the length of its rest. -/
theorem natOfDigits_cons (d : Char) (ds : List Char) :
    natOfDigits (d :: ds) = tenPow ds.length * (d.toNat - '0'.toNat) + natOfDigits ds := by
  have hsingle : natOfDigits [d] = d.toNat - '0'.toNat := Nat.zero_add _
  rw [← hsingle]
  exact natOfDigits_append [d] ds

/-- Zeros at the end multiply by a power of ten. -/
theorem natOfDigits_append_zeros (ds : List Char) (count : Nat) :
    natOfDigits (ds ++ List.replicate count '0') = natOfDigits ds * tenPow count := by
  have hzeros : natOfDigits (List.replicate count '0') = 0 :=
    Nat.ofDigitChars_replicate_zero.trans (Nat.mul_zero _)
  rw [natOfDigits_append, hzeros, List.length_replicate, Nat.add_zero, Nat.mul_comm]

/-- Zeros at the front do not count. -/
theorem natOfDigits_zeros_append (count : Nat) (ds : List Char) :
    natOfDigits (List.replicate count '0' ++ ds) = natOfDigits ds := by
  have hzeros : natOfDigits (List.replicate count '0') = 0 :=
    Nat.ofDigitChars_replicate_zero.trans (Nat.mul_zero _)
  rw [natOfDigits_append, hzeros, Nat.mul_zero, Nat.zero_add]

/-- The digits that a number is written with are read back as the number. -/
theorem natOfDigits_toDigits (n : Nat) : natOfDigits (Nat.toDigits 10 n) = n :=
  Nat.ofDigitChars_ten_toDigits

/-- A number is written with digits only. -/
theorem isDigit_of_mem_toDigits {n : Nat} (h : d ∈ Nat.toDigits 10 n) : d.isDigit = true :=
  Nat.isDigit_of_mem_toDigits (by decide) (by decide) h

/-- A digit counts less than ten. -/
theorem lt_ten_of_isDigit (h : d.isDigit = true) : d.toNat - '0'.toNat < 10 := by
  have hnine : d.toNat ≤ 57 := (Char.isDigit_iff_toNat.mp h).2
  have hzero : '0'.toNat = 48 := rfl
  omega

/-- Digits that count the same are the same. -/
theorem eq_of_isDigit {e : Char} (hd : d.isDigit = true) (he : e.isDigit = true)
    (h : d.toNat - '0'.toNat = e.toNat - '0'.toNat) : d = e := by
  have hd' := (Char.isDigit_iff_toNat.mp hd).1
  have he' := (Char.isDigit_iff_toNat.mp he).1
  exact Char.toNat_inj.mp (by omega)

/-- So many digits denote a number below the power of ten. -/
theorem natOfDigits_lt (h : ∀ d ∈ ds, d.isDigit = true) : natOfDigits ds < tenPow ds.length := by
  induction ds with
  | nil => decide
  | cons d ds ih =>
      have hd := lt_ten_of_isDigit (h d List.mem_cons_self)
      have hds := ih fun e he => h e (List.mem_cons_of_mem d he)
      have hle : tenPow ds.length * (d.toNat - '0'.toNat) ≤ tenPow ds.length * 9 :=
        Nat.mul_le_mul_left _ (Nat.le_of_lt_succ hd)
      have hlength : tenPow (d :: ds).length = tenPow ds.length * 10 := Nat.pow_succ ..
      rw [natOfDigits_cons, hlength]
      omega

/-- The front of some digits is what is left after a division. -/
theorem natOfDigits_append_div (ds : List Char) (hes : ∀ e ∈ es, e.isDigit = true) :
    natOfDigits (ds ++ es) / tenPow es.length = natOfDigits ds := by
  have hlt := natOfDigits_lt hes
  rw [natOfDigits_append, Nat.mul_add_div (by omega), Nat.div_eq_of_lt hlt, Nat.add_zero]

/-- The back of some digits is the rest of the division. -/
theorem natOfDigits_append_mod (ds : List Char) (hes : ∀ e ∈ es, e.isDigit = true) :
    natOfDigits (ds ++ es) % tenPow es.length = natOfDigits es := by
  rw [natOfDigits_append, Nat.mul_add_mod_self_left, Nat.mod_eq_of_lt (natOfDigits_lt hes)]

/-! ### The digits of a number -/

/-- **Digits of one length that denote one number are the same.** -/
theorem eq_of_natOfDigits_eq (hds : ∀ d ∈ ds, d.isDigit = true) (hes : ∀ e ∈ es, e.isDigit = true)
    (hlength : ds.length = es.length) (h : natOfDigits ds = natOfDigits es) : ds = es := by
  induction ds generalizing es with
  | nil => exact (List.eq_nil_of_length_eq_zero hlength.symm).symm
  | cons d ds ih =>
      obtain ⟨e, es, rfl⟩ : ∃ e es', es = e :: es' := List.exists_cons_of_length_pos (by
        rw [← hlength]
        exact Nat.succ_pos _)
      have hlength' : ds.length = es.length := Nat.succ.inj hlength
      have hds' : ∀ d ∈ ds, d.isDigit = true := fun c hc => hds c (List.mem_cons_of_mem d hc)
      have hes' : ∀ e ∈ es, e.isDigit = true := fun c hc => hes c (List.mem_cons_of_mem e hc)
      have hd := hds d List.mem_cons_self
      have he := hes e List.mem_cons_self
      have hfront : natOfDigits [d] = natOfDigits [e] := by
        rw [← natOfDigits_append_div [d] hds', ← natOfDigits_append_div [e] hes', hlength']
        exact congrArg (· / tenPow es.length) h
      have hback : natOfDigits ds = natOfDigits es := by
        rw [← natOfDigits_append_mod [d] hds', ← natOfDigits_append_mod [e] hes', hlength']
        exact congrArg (· % tenPow es.length) h
      have hhead : d = e := eq_of_isDigit hd he (by simpa [natOfDigits] using hfront)
      rw [hhead, ih hds' hes' hlength' hback]

/-- **A number is written with the digits from which it was read**, unless there was a zero at their
front. -/
theorem toDigits_natOfDigits (hds : ∀ d ∈ ds, d.isDigit = true) (hne : ds ≠ [])
    (hfront : ds.head? = some '0' → ds = ['0']) : Nat.toDigits 10 (natOfDigits ds) = ds := by
  obtain ⟨d, rest, rfl⟩ := List.exists_cons_of_ne_nil hne
  by_cases hzero : d = '0'
  · rw [hzero] at hfront ⊢
    rw [hfront rfl]
    rfl
  · refine eq_of_natOfDigits_eq (fun _ => isDigit_of_mem_toDigits) hds ?_ (natOfDigits_toDigits _)
    have hle : (Nat.toDigits 10 (natOfDigits (d :: rest))).length ≤ (d :: rest).length :=
      (Nat.length_toDigits_le_iff (by decide) (Nat.succ_pos _)).mpr (natOfDigits_lt hds)
    have hge : tenPow rest.length ≤ natOfDigits (d :: rest) := by
      have hpos : d.toNat - '0'.toNat ≠ 0 := fun h =>
        hzero (eq_of_isDigit (hds d List.mem_cons_self) rfl h)
      rw [natOfDigits_cons]
      exact Nat.le_add_right_of_le (Nat.le_mul_of_pos_right _ (Nat.pos_of_ne_zero hpos))
    have hlt : rest.length < (Nat.toDigits 10 (natOfDigits (d :: rest))).length := by
      rcases Nat.eq_zero_or_pos rest.length with hnil | hpos
      · rw [hnil]
        exact Nat.length_toDigits_pos
      · rw [← Nat.not_le, Nat.length_toDigits_le_iff (by decide) hpos]
        exact Nat.not_lt.mpr hge
    rw [List.length_cons] at hle ⊢
    omega

/-- No number but zero is written with a zero in front. -/
theorem toDigits_eq_of_head? {n : Nat} (h : (Nat.toDigits 10 n).head? = some '0') :
    Nat.toDigits 10 n = ['0'] := by
  obtain ⟨ds, hds⟩ : ∃ ds, Nat.toDigits 10 n = '0' :: ds := List.head?_eq_some_iff.mp h
  rcases Nat.eq_zero_or_pos ds.length with hnil | hpos
  · rw [hds, List.eq_nil_of_length_eq_zero hnil]
  · exfalso
    have hlt : natOfDigits ds < tenPow ds.length := natOfDigits_lt fun d hd =>
      isDigit_of_mem_toDigits (n := n) (hds ▸ List.mem_cons_of_mem '0' hd)
    have hn : natOfDigits ds = n := by
      have hvalue := natOfDigits_toDigits n
      rwa [hds, natOfDigits_cons, Nat.sub_self, Nat.mul_zero, Nat.zero_add] at hvalue
    have hle : (Nat.toDigits 10 n).length ≤ ds.length :=
      (Nat.length_toDigits_le_iff (by decide) hpos).mpr (hn ▸ hlt)
    rw [hds, List.length_cons] at hle
    omega

end Numeral

namespace Binary64

open Numeral

/-- The last digits are as many as are asked for. -/
theorem length_lastDigits (places n : Nat) : (lastDigits places n).length = places := by
  rw [lastDigits]
  split
  · rename_i hzero
    rw [hzero]
    rfl
  · rename_i hne
    have hle : (Nat.toDigits 10 (n % tenPow places)).length ≤ places :=
      (Nat.length_toDigits_le_iff (by decide) (Nat.pos_of_ne_zero hne)).mpr
        (Nat.mod_lt _ (Nat.pow_pos (by decide)))
    rw [List.length_append, List.length_replicate]
    omega

/-- The last places of a number are digits, the zeros that fill them up included. -/
theorem isDigit_of_mem_lastDigits {places n : Nat} {d : Char} (h : d ∈ lastDigits places n) :
    d.isDigit = true := by
  rw [lastDigits] at h
  split at h
  · exact absurd h List.not_mem_nil
  · rcases List.mem_append.mp h with h | h
    · rw [List.eq_of_mem_replicate h]
      rfl
    · exact isDigit_of_mem_toDigits h

/-- The last digits denote the rest of the division by their power of ten. -/
theorem natOfDigits_lastDigits (places n : Nat) :
    natOfDigits (lastDigits places n) = n % tenPow places := by
  rw [lastDigits]
  split
  · rename_i hzero
    rw [hzero]
    exact (Nat.mod_one n).symm
  · rw [natOfDigits_zeros_append, natOfDigits_toDigits]

/-- **The last digits of a number are those from which they were read**, with the zeros at their
front. -/
theorem lastDigits_natOfDigits (front : List Char) {ds : List Char}
    (hds : ∀ d ∈ ds, d.isDigit = true) : lastDigits ds.length (natOfDigits (front ++ ds)) = ds := by
  refine eq_of_natOfDigits_eq (fun _ => isDigit_of_mem_lastDigits) hds (length_lastDigits _ _) ?_
  rw [natOfDigits_lastDigits, natOfDigits_append_mod front hds]

/-- Before and behind the point stand the digits of the rounded number. -/
theorem natOfDigits_fixedDigits (mantissa scale places : Nat) :
    natOfDigits ((fixedDigits mantissa scale places).1 ++ (fixedDigits mantissa scale places).2) =
      toFixed mantissa scale places := by
  rw [fixedDigits, natOfDigits_append, length_lastDigits, natOfDigits_lastDigits,
    natOfDigits_toDigits]
  exact Nat.div_add_mod _ _

end Binary64

end Outreach
