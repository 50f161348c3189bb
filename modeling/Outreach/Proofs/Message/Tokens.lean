import Mathlib.Data.List.TakeWhile
import Outreach.Message.Placeholder
import Outreach.Proofs.Text.Cut

/-!
# Tokens and Their Replacement

A token is written as an opening brace, a name without braces and a closing brace. Two tokens of a
text never overlap, so the tokens are the marks of the only cut of the text that leaves none within
its plain text, and reading slots from left to right finds that cut. Whether a brace belongs to a
token depends on the next brace alone; two texts can therefore be filled apart unless the first
one breaks off within a name that the second one closes.

## Main results

* `IsTokenAt.eq_or_apart`: tokens do not overlap.
* `exists_shows_slots`: the cut of a text at its tokens shows what the filled text is.
* `slots_append`: the slots of two texts, one behind the other.
* `substitutePlaceholders_eq_replacement`: **exactly the tokens are replaced**.
-/

namespace Outreach.Message

open Text

/-! ### Tokens of a text -/

/-- The tokens of a text; whether one stands there does not depend on what follows. -/
def tokenMarking : Marking (List Char) where
  write name := '\x7b' :: name ++ ['\x7d']
  fits name _ := ∀ c ∈ name, isBrace c = false

/-- A **token** of a text, with the text before and behind it. -/
structure IsTokenAt (cs before name after : List Char) : Prop where
  name_free : ∀ c ∈ name, isBrace c = false
  text_eq : cs = before ++ (tokenMarking.write name ++ after)

/-- A token with a text behind it is its name between two braces, and the text. -/
theorem write_append (name rest : List Char) :
    tokenMarking.write name ++ rest = '\x7b' :: (name ++ '\x7d' :: rest) := by
  simp [tokenMarking]

/-- The next brace behind a name without braces is the one that closes it. -/
theorem dropWhile_name {name : List Char} (h : ∀ c ∈ name, isBrace c = false)
    (rest : List Char) :
    (name ++ '\x7d' :: rest).takeWhile (!isBrace ·) = name ∧
      (name ++ '\x7d' :: rest).dropWhile (!isBrace ·) = '\x7d' :: rest := by
  have hall : ∀ c ∈ name, (!isBrace c) = true := fun c hc => by rw [h c hc]; rfl
  have hclose : isBrace '\x7d' = true := by decide
  rw [List.takeWhile_append_of_pos hall, List.dropWhile_append_of_pos hall]
  simp [hclose]

/-- A text has at most one token at its front. -/
theorem isUnambiguous_tokenMarking : tokenMarking.IsUnambiguous where
  write_ne_nil := by
    intro name rest _ h
    simp [tokenMarking] at h
  eq_of_write_append := by
    intro name name' rest rest' hname hname' h
    rw [write_append, write_append] at h
    have htail := (List.cons.inj h).2
    obtain ⟨htake, hdrop⟩ := dropWhile_name hname rest
    obtain ⟨htake', hdrop'⟩ := dropWhile_name hname' rest'
    rw [htail] at htake hdrop
    exact ⟨htake.symm.trans htake', (List.cons.inj (hdrop.symm.trans hdrop')).2⟩

/-- A token that starts behind the start of another one starts behind its end. -/
theorem length_le_of_starts_later {name rest v after : List Char}
    (hname : ∀ c ∈ name, isBrace c = false) (hv : v ≠ [])
    (h : tokenMarking.write name ++ rest = v ++ '\x7b' :: after) : name.length + 2 ≤ v.length := by
  rw [write_append] at h
  obtain ⟨c, v, rfl⟩ := List.exists_cons_of_ne_nil hv
  have htail : name ++ '\x7d' :: rest = v ++ '\x7b' :: after := (List.cons.inj h).2
  have hopen : isBrace '\x7b' = true := by decide
  rcases List.append_eq_append_iff.mp htail with ⟨w, rfl, hw⟩ | ⟨w, rfl, hw⟩
  · rcases w with - | ⟨d, w⟩
    · exact absurd (List.cons.inj hw).1 (by decide)
    · simp
  · rcases w with - | ⟨d, w⟩
    · exact absurd (List.cons.inj hw).1 (by decide)
    · -- the opening brace would belong to the name
      obtain ⟨rfl, -⟩ := List.cons.inj hw
      have := hname '\x7b' (by simp)
      rw [hopen] at this
      exact absurd this (by decide)

/-- Of two tokens of a text, the one that starts later is the other one or starts behind its
end. -/
theorem eq_or_length_le {v name after name' after' : List Char}
    (hname : ∀ c ∈ name, isBrace c = false) (hname' : ∀ c ∈ name', isBrace c = false)
    (h : tokenMarking.write name ++ after = v ++ (tokenMarking.write name' ++ after')) :
    (v = [] ∧ name = name' ∧ after = after') ∨ name.length + 2 ≤ v.length := by
  by_cases hv : v = []
  · subst hv
    exact .inl ⟨rfl, isUnambiguous_tokenMarking.eq_of_write_append hname hname' h⟩
  · rw [write_append name' after'] at h
    exact .inr (length_le_of_starts_later hname hv h)

/-- **Tokens do not overlap**: two tokens of a text are the same one, or one ends before the other
starts. -/
theorem IsTokenAt.eq_or_apart {cs before name after before' name' after' : List Char}
    (h : IsTokenAt cs before name after) (h' : IsTokenAt cs before' name' after') :
    (before = before' ∧ name = name' ∧ after = after') ∨
      before.length + (name.length + 2) ≤ before'.length ∨
      before'.length + (name'.length + 2) ≤ before.length := by
  have htext := h.text_eq.symm.trans h'.text_eq
  rcases List.append_eq_append_iff.mp htext with ⟨v, rfl, hv⟩ | ⟨v, rfl, hv⟩
  · rcases eq_or_length_le h.name_free h'.name_free hv with ⟨rfl, rfl, rfl⟩ | hle
    · simp
    · exact .inr (.inl (by rw [List.length_append]; omega))
  · rcases eq_or_length_le h'.name_free h.name_free hv with ⟨rfl, rfl, rfl⟩ | hle
    · simp
    · exact .inr (.inr (by rw [List.length_append]; omega))

/-! ### Reading slots -/

/-- No token starts where the next brace is none that closes one. -/
theorem not_starts_of_dropWhile {cs : List Char}
    (h : (cs.dropWhile (!isBrace ·)).head? ≠ some '\x7d') :
    ¬ tokenMarking.Starts ('\x7b' :: cs) := by
  rintro ⟨name, rest, hname, htext⟩
  rw [write_append] at htext
  obtain rfl := (List.cons.inj htext).2
  rw [(dropWhile_name hname rest).2] at h
  exact h rfl

/-- Every token starts with an opening brace. -/
theorem not_starts_of_ne {c : Char} (h : c ≠ '\x7b') (cs : List Char) :
    ¬ tokenMarking.Starts (c :: cs) := by
  rintro ⟨name, rest, -, htext⟩
  rw [write_append] at htext
  exact h (List.cons.inj htext).1

/-- A token at the front of a text is its first slot. -/
theorem slots_write_append {name : List Char} (h : ∀ c ∈ name, isBrace c = false)
    (rest : List Char) :
    slots (tokenMarking.write name ++ rest) = .token name :: slots rest := by
  obtain ⟨htake, hdrop⟩ := dropWhile_name h rest
  rw [write_append, slots, if_pos (by rfl)]
  split
  · rename_i hnil
    rw [hdrop] at hnil
    exact absurd hnil (by simp)
  · rename_i brace rest' hcons
    obtain ⟨rfl, rfl⟩ := List.cons.inj (hdrop.symm.trans hcons)
    rw [if_pos (by rfl), htake]

/-- A character at which no token starts is a slot of its own. -/
theorem slots_cons_of_not_starts {c : Char} {cs : List Char}
    (h : ¬ tokenMarking.Starts (c :: cs)) : slots (c :: cs) = .char c :: slots cs := by
  rw [slots]
  split
  · rename_i hc
    obtain rfl := beq_iff_eq.mp hc
    split
    · rfl
    · rename_i brace rest hdrop
      refine if_neg fun hbrace => h ⟨cs.takeWhile (!isBrace ·), rest, fun c hc => ?_, ?_⟩
      · simpa using List.mem_takeWhile_imp hc
      · rw [write_append, ← beq_iff_eq.mp hbrace, ← hdrop, List.takeWhile_append_dropWhile]
  · rfl

/-- Texts are read from left to right: by a token, or by a character at which no token starts. -/
theorem tokenInduction {P : List Char → Prop} (nil : P [])
    (char : ∀ c cs, ¬ tokenMarking.Starts (c :: cs) → P cs → P (c :: cs))
    (token : ∀ name cs, (∀ c ∈ name, isBrace c = false) → P cs → P (tokenMarking.write name ++ cs))
    (cs : List Char) : P cs := by
  fun_induction slots cs with
  | case1 => exact nil
  | case2 c cs hc hdrop ih =>
      obtain rfl := beq_iff_eq.mp hc
      exact char _ _ (not_starts_of_dropWhile (by simp [hdrop])) ih
  | case3 c cs hc brace rest hdrop hbrace ih =>
      obtain rfl := beq_iff_eq.mp hc
      obtain rfl := beq_iff_eq.mp hbrace
      have hname : ∀ c ∈ cs.takeWhile (!isBrace ·), isBrace c = false := fun c hc => by
        simpa using List.mem_takeWhile_imp hc
      have htext : tokenMarking.write (cs.takeWhile (!isBrace ·)) ++ rest = '\x7b' :: cs := by
        rw [write_append, ← hdrop, List.takeWhile_append_dropWhile]
      exact htext ▸ token _ _ hname ih
  | case4 c cs hc brace rest hdrop hbrace ih =>
      obtain rfl := beq_iff_eq.mp hc
      exact char _ _ (not_starts_of_dropWhile (by simpa [hdrop] using hbrace)) ih
  | case5 c cs hc ih => exact char _ _ (not_starts_of_ne (by simpa using hc) cs) ih

/-- What stands for a token in the filled text: the text of the field that it names, or the token
itself if the record has no such field. -/
def replacement (values : Record) (name : List Char) : List Char :=
  match values.get? (String.ofList name) with
  | some value => value.toList
  | none => tokenMarking.write name

theorem fill_token (values : Record) (name : List Char) :
    (Slot.token name).fill values = replacement values name := rfl

@[simp] theorem substituteSlots_nil (values : Record) : substituteSlots values [] = [] := by
  rw [substituteSlots, slots, List.flatMap_nil]

/-- A character at which no token starts is copied. -/
theorem substituteSlots_cons (values : Record) {c : Char} {cs : List Char}
    (h : ¬ tokenMarking.Starts (c :: cs)) :
    substituteSlots values (c :: cs) = c :: substituteSlots values cs := by
  rw [substituteSlots, slots_cons_of_not_starts h, List.flatMap_cons]
  rfl

/-- A token is replaced. -/
theorem substituteSlots_write_append (values : Record) {name : List Char}
    (h : ∀ c ∈ name, isBrace c = false) (cs : List Char) :
    substituteSlots values (tokenMarking.write name ++ cs) =
      replacement values name ++ substituteSlots values cs := by
  rw [substituteSlots, slots_write_append h, List.flatMap_cons, fill_token]
  rfl

/-- A cut **shows** slots of a text: it is the leftmost one, and filling the slots is replacing its
marks. -/
structure Shows (cs : List Char) (ss : List Slot) (k : Cut (List Char)) : Prop where
  isLeftmost : tokenMarking.IsLeftmost k
  text_eq : k.text tokenMarking.write = cs
  fill_eq : ∀ values, ss.flatMap (Slot.fill values) = k.text (replacement values)

/-- A character that starts no token joins the gap in front of the next token. -/
theorem Shows.push {c : Char} {cs : List Char} {ss : List Slot} {k : Cut (List Char)}
    (h : Shows cs ss k) (hc : ¬ tokenMarking.Starts (c :: cs)) :
    Shows (c :: cs) (.char c :: ss) (k.push c) where
  isLeftmost := Marking.isLeftmost_push (h.text_eq.symm ▸ hc) h.isLeftmost
  text_eq := by rw [Cut.text_push, h.text_eq]
  fill_eq values := by
    rw [List.flatMap_cons, h.fill_eq, Cut.text_push]
    rfl

/-- A token in front of a text is the next mark of its cut, with no gap before it. -/
theorem Shows.mark {name cs : List Char} {ss : List Slot} {k : Cut (List Char)}
    (h : Shows cs ss k) (hname : ∀ c ∈ name, isBrace c = false) :
    Shows (tokenMarking.write name ++ cs) (.token name :: ss) (.mark [] name k) where
  isLeftmost := Marking.isLeftmost_mark_nil hname h.isLeftmost
  text_eq := by rw [Cut.text, h.text_eq, List.nil_append]
  fill_eq values := by
    rw [List.flatMap_cons, h.fill_eq, Cut.text, List.nil_append]
    rfl

/-- **The cut of a text at its tokens** shows its slots. -/
theorem exists_shows_slots (cs : List Char) : ∃ k, Shows cs (slots cs) k := by
  induction cs using tokenInduction with
  | nil => exact ⟨.plain [], Marking.isFree_nil _, rfl, fun values => by simp [slots, Cut.text]⟩
  | char c cs hc ih =>
      obtain ⟨k, hk⟩ := ih
      exact ⟨_, slots_cons_of_not_starts hc ▸ hk.push hc⟩
  | token name cs hname ih =>
      obtain ⟨k, hk⟩ := ih
      exact ⟨_, slots_write_append hname cs ▸ hk.mark hname⟩

/-! ### Two texts -/

/-- The braces of a text. -/
def braces (cs : List Char) : List Char :=
  cs.filter isBrace

/-- Two texts are **joined between tokens**: the first one has no brace or its last brace closes, or
the second one has no brace or its first brace opens. -/
def JoinedBetweenTokens (as bs : List Char) : Prop :=
  (∀ c ∈ (braces as).getLast?, c = '\x7d') ∨ ∀ c ∈ (braces bs).head?, c = '\x7b'

/-- A text whose characters are no braces has none to list. -/
theorem braces_eq_nil {cs : List Char} (h : ∀ c ∈ cs, isBrace c = false) : braces cs = [] := by
  simpa [braces] using h

/-- What lies in front does not matter for how a text is joined. -/
theorem JoinedBetweenTokens.of_append (us : List Char) {as bs : List Char}
    (h : JoinedBetweenTokens (us ++ as) bs) : JoinedBetweenTokens as bs := by
  refine h.imp_left fun hlast c hc => hlast c ?_
  rw [braces, List.filter_append, List.getLast?_append]
  simp [show List.getLast? (as.filter isBrace) = some c from hc]

/-- A text does not get a token at its front by a text that is joined to it. -/
theorem not_starts_append {c : Char} {as bs : List Char} (hc : ¬ tokenMarking.Starts (c :: as))
    (h : JoinedBetweenTokens (c :: as) bs) : ¬ tokenMarking.Starts (c :: (as ++ bs)) := by
  rintro ⟨name, rest, hname, htext⟩
  rw [write_append] at htext
  obtain ⟨rfl, htail⟩ := List.cons.inj htext
  -- a token that goes on into the second text: an opening brace is the last one of the first text
  have hbeyond : ∀ {us vs : List Char}, name = us ++ vs → as = us → bs = vs ++ '\x7d' :: rest →
      False := by
    rintro us vs hsplit rfl rfl
    have has : braces as = [] := braces_eq_nil fun c hc => hname c (by simp [hsplit, hc])
    have hvs : braces vs = [] := braces_eq_nil fun c hc => hname c (by simp [hsplit, hc])
    have hopen : braces ('\x7b' :: as) = ['\x7b'] := by
      rw [show braces ('\x7b' :: as) = '\x7b' :: braces as from rfl, has]
    have hclose : (braces (vs ++ '\x7d' :: rest)).head? = some '\x7d' := by
      rw [show braces (vs ++ '\x7d' :: rest) = braces vs ++ '\x7d' :: braces rest from
        List.filter_append vs _, hvs]
      rfl
    rcases h with hlast | hfirst
    · exact absurd (hlast '\x7b' (by simp [hopen])) (by decide)
    · exact absurd (hfirst '\x7d' (by simp [hclose])) (by decide)
  rcases List.append_eq_append_iff.mp htail with ⟨vs, hsplit, hbs⟩ | ⟨vs, has, hvs⟩
  · exact hbeyond hsplit rfl hbs
  · rcases vs with - | ⟨d, vs⟩
    · exact hbeyond (List.append_nil name).symm (by simpa using has) hvs.symm
    · obtain ⟨rfl, -⟩ := List.cons.inj hvs
      exact hc ⟨name, vs, hname, by rw [write_append, has]⟩

/-- **The slots of two texts**, one behind the other, if they are joined between tokens. -/
theorem slots_append {as bs : List Char} (h : JoinedBetweenTokens as bs) :
    slots (as ++ bs) = slots as ++ slots bs := by
  induction as using tokenInduction with
  | nil => simp [slots]
  | char c as hc ih =>
      have htail : JoinedBetweenTokens as bs := h.of_append [c]
      rw [List.cons_append, slots_cons_of_not_starts (not_starts_append hc h), ih htail,
        slots_cons_of_not_starts hc, List.cons_append]
  | token name as hname ih =>
      rw [List.append_assoc, slots_write_append hname, ih (h.of_append _), slots_write_append hname,
        List.cons_append]

/-- **Exactly the tokens are replaced.** Tokens do not overlap. A text has exactly one cut that
leaves no token within its plain text; substitution puts the text of its field in the place of each
token, or the token itself if it names no field, and copies the plain text. So texts that are joined
between tokens can be substituted apart. -/
theorem substitutePlaceholders_eq_replacement (values : Record) :
    (∀ cs before name after before' name' after' : List Char,
      IsTokenAt cs before name after → IsTokenAt cs before' name' after' →
        (before = before' ∧ name = name' ∧ after = after') ∨
          before.length + (name.length + 2) ≤ before'.length ∨
          before'.length + (name'.length + 2) ≤ before.length) ∧
    (∀ text : String, ∃ k : Cut (List Char),
      (∀ k', tokenMarking.IsLeftmost k' ∧ k'.text tokenMarking.write = text.toList ↔ k' = k) ∧
      substitutePlaceholders text values = String.ofList (k.text (replacement values))) ∧
    ∀ a b : String, JoinedBetweenTokens a.toList b.toList →
      substitutePlaceholders (a ++ b) values =
        substitutePlaceholders a values ++ substitutePlaceholders b values := by
  refine ⟨fun _ _ _ _ _ _ _ h h' => h.eq_or_apart h', fun text => ?_, fun a b h => ?_⟩
  · obtain ⟨k, hk⟩ := exists_shows_slots text.toList
    refine ⟨k, Marking.isLeftmost_and_text_eq_iff isUnambiguous_tokenMarking hk.isLeftmost
      hk.text_eq, ?_⟩
    rw [substitutePlaceholders, substituteSlots, hk.fill_eq]
  · simp only [substitutePlaceholders, substituteSlots, String.toList_append, slots_append h,
      List.flatMap_append, String.ofList_append]

/-- Two tokens side by side, and two texts with stray braces that are joined between tokens. -/
theorem substitutePlaceholders_eq_replacement_stray :
    let text := "\x7ba\x7d\x7bb\x7d".toList
    let values : Record := .ofList [("x", "\x7by\x7d")]
    (IsTokenAt text [] ['a'] ['\x7b', 'b', '\x7d'] ∧
      IsTokenAt text ['\x7b', 'a', '\x7d'] ['b'] [] ∧
      ((([] = ['\x7b', 'a', '\x7d'] ∧ ['a'] = ['b'] ∧ ['\x7b', 'b', '\x7d'] = []) ∨
        ([] : List Char).length + (['a'].length + 2) ≤ ['\x7b', 'a', '\x7d'].length ∨
        ['\x7b', 'a', '\x7d'].length + (['b'].length + 2) ≤ ([] : List Char).length))) ∧
    JoinedBetweenTokens "\x7bx\x7d\x7d".toList "\x7b\x7bx\x7d".toList ∧
      substitutePlaceholders ("\x7bx\x7d\x7d" ++ "\x7b\x7bx\x7d") values =
        substitutePlaceholders "\x7bx\x7d\x7d" values ++
          substitutePlaceholders "\x7b\x7bx\x7d" values := by
  intro text values
  have hfirst : IsTokenAt text [] ['a'] ['\x7b', 'b', '\x7d'] :=
    ⟨by simp [isBrace], rfl⟩
  have hsecond : IsTokenAt text ['\x7b', 'a', '\x7d'] ['b'] [] :=
    ⟨by simp [isBrace], rfl⟩
  have hlast : (braces "\x7bx\x7d\x7d".toList).getLast? = some '\x7d' := by decide
  have hjoined : JoinedBetweenTokens "\x7bx\x7d\x7d".toList "\x7b\x7bx\x7d".toList :=
    .inl fun c hc => by
      rw [hlast] at hc
      exact (Option.some.inj hc).symm
  obtain ⟨hapart, -, happend⟩ := substitutePlaceholders_eq_replacement values
  exact ⟨⟨hfirst, hsecond, hapart _ _ _ _ _ _ _ hfirst hsecond⟩, hjoined, happend _ _ hjoined⟩

end Outreach.Message
