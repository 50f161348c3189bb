import Outreach.Message.Render
import Outreach.Proofs.Message.Blocks
import Outreach.Proofs.Message.Tokens
import Outreach.Proofs.Record.Layers

/-!
# Messages Without Long Runs of Breaks

Three line breaks after one another show as two empty lines. Squeezing leaves three breaks behind
only at a *joint*: a carriage return that belongs to no break stands between a line feed and a long
run that starts with another carriage return. The line feeds that are put in for the run make it a
break, which joins both sides. There is no joint if carriage returns stand in breaks only, which
dropping blocks does not change. Afterwards, values are put in the places of tokens: one that holds
no break and is not empty keeps the breaks around it apart, and joins none.

## Main results

* `hasThreeBreaks_append_cons_iff`: no run of breaks reaches over another character.
* `returnsInBreaks_resolveBlocks`: deciding blocks takes no break apart.
* `hasThreeBreaks_squeezeBreaks_iff`: **squeezing leaves three breaks exactly where a text has a
  joint**.
* `squeezeBreaks_eq_self_iff`: squeezing changes exactly the texts that have three breaks.
* `hasThreeBreaks_collapseBlankLines_iff`: when one pass of squeezing is enough.
* `hasThreeBreaks_of_substituteSlots`: solid values bring no three breaks about.
* `not_hasThreeBreaks_render`: **messages have no long runs of breaks.**
-/

namespace Outreach.Message

open Text

/-! ### Three breaks -/

/-- A text **has three breaks** after one another, in whichever spellings. -/
def HasThreeBreaks (cs : List Char) : Prop :=
  ∃ (before : List Char) (a b c : Break) (after : List Char),
    cs = before ++ (a.source ++ (b.source ++ (c.source ++ after)))

variable {cs as bs : List Char} {c : Char}

/-- A text has three breaks if a part of it has them. -/
theorem HasThreeBreaks.of_isInfix (h : HasThreeBreaks as) (hpart : as <:+: bs) :
    HasThreeBreaks bs := by
  obtain ⟨front, back, rfl⟩ := hpart
  obtain ⟨before, a, b, c, after, rfl⟩ := h
  exact ⟨front ++ before, a, b, c, after ++ back, by simp only [List.append_assoc]⟩

/-- The empty text has no three breaks, as it has not even one. -/
theorem not_hasThreeBreaks_nil : ¬ HasThreeBreaks [] := by
  rintro ⟨before, a, b, c, after, h⟩
  cases a <;> simp [Break.source] at h

/-- Three breaks stand at the front of a text or behind its first character. -/
theorem hasThreeBreaks_cons_iff :
    HasThreeBreaks (c :: cs) ↔ dropThreeBreaks? (c :: cs) ≠ none ∨ HasThreeBreaks cs := by
  simp only [Option.ne_none_iff_exists', dropThreeBreaks?_eq_some_iff]
  constructor
  · rintro ⟨_ | ⟨d, before⟩, x, y, z, after, h⟩
    · exact .inl ⟨after, x, y, z, h⟩
    · exact .inr ⟨before, x, y, z, after, (List.cons.inj h).2⟩
  · rintro (⟨after, x, y, z, h⟩ | h)
    · exact ⟨[], x, y, z, after, h⟩
    · exact h.of_isInfix (List.suffix_cons c cs).isInfix

/-- A character **ends a run** if it belongs to no line break. -/
def EndsRun (c : Char) : Prop :=
  c ≠ '\n' ∧ c ≠ '\r'

/-- A character that ends a run stands in the spelling of no line break. -/
theorem EndsRun.notMem_source (hc : EndsRun c) (b : Break) : c ∉ b.source := by
  cases b <;> simp [Break.source, hc.1, hc.2]

/-- Breaks at the front of a text stay the same before a character that ends a run. -/
theorem dropBreak?_append_cons (hc : EndsRun c) (as bs : List Char) :
    dropBreak? (as ++ c :: bs) = (dropBreak? as).map (· ++ c :: bs) := by
  cases h : dropBreak? as with
  | none =>
      rw [dropBreak?_eq_none_iff] at h
      rw [Option.map_none, dropBreak?_eq_none_iff]
      rintro ⟨b, rest, heq⟩
      rcases List.append_eq_append_iff.mp heq with ⟨v, hb, hv⟩ | ⟨v, has, -⟩
      · -- the break would end within the first text, or go on with `c`
        cases v with
        | nil => exact h ⟨b, [], by rw [hb, List.append_nil, List.append_nil]⟩
        | cons d v =>
            obtain ⟨rfl, -⟩ := List.cons.inj hv
            exact hc.notMem_source b (hb ▸ List.mem_append_right as List.mem_cons_self)
      · exact h ⟨b, v, has⟩
  | some rest =>
      obtain ⟨b, rfl⟩ := dropBreak?_eq_some_iff.mp h
      exact dropBreak?_eq_some_iff.mpr ⟨b, List.append_assoc ..⟩

/-- No line break stands at the front of a text that starts with a character that ends runs. -/
theorem EndsRun.dropBreak?_cons (hc : EndsRun c) (cs : List Char) : dropBreak? (c :: cs) = none :=
  dropBreak?_append_cons hc [] cs

/-- A carriage return is the start of a line break only before a line feed. -/
theorem dropBreak?_return_eq_none (h : ∀ rest, cs ≠ '\n' :: rest) :
    dropBreak? ('\r' :: cs) = none := by
  rw [dropBreak?_eq_none_iff]
  rintro ⟨_ | _, rest, heq⟩
  · exact absurd (List.cons.inj heq).1 (by decide)
  · exact h rest (List.cons.inj heq).2

/-- No three line breaks stand at the front of a text that starts with a character that ends runs.
-/
theorem EndsRun.dropThreeBreaks?_cons (hc : EndsRun c) (cs : List Char) :
    dropThreeBreaks? (c :: cs) = none := by
  rw [dropThreeBreaks?, hc.dropBreak?_cons, Option.bind_none]

/-- What leaves single breaks at the front in place leaves three of them in place. -/
theorem dropThreeBreaks?_map {f : List Char → List Char}
    (hf : ∀ cs, dropBreak? (f cs) = (dropBreak? cs).map f) (cs : List Char) :
    dropThreeBreaks? (f cs) = (dropThreeBreaks? cs).map f := by
  simp only [dropThreeBreaks?, hf]
  cases dropBreak? cs with
  | none => rfl
  | some cs =>
      simp only [Option.map_some, Option.bind_some, hf]
      cases dropBreak? cs with
      | none => rfl
      | some cs => simp only [Option.map_some, Option.bind_some, hf]

/-- **No run of breaks reaches over another character.** -/
theorem hasThreeBreaks_append_cons_iff (hc : EndsRun c) (as bs : List Char) :
    HasThreeBreaks (as ++ c :: bs) ↔ HasThreeBreaks as ∨ HasThreeBreaks bs := by
  induction as with
  | nil =>
      rw [List.nil_append, hasThreeBreaks_cons_iff, hc.dropThreeBreaks?_cons]
      simp [not_hasThreeBreaks_nil]
  | cons a as ih =>
      have hfront := dropThreeBreaks?_map (fun cs => dropBreak?_append_cons hc cs bs) (a :: as)
      rw [List.cons_append] at hfront
      rw [List.cons_append, hasThreeBreaks_cons_iff, hasThreeBreaks_cons_iff, ih, hfront, or_assoc]
      simp

/-- Characters that end runs bring no three breaks about in front of a text. -/
theorem hasThreeBreaks_append_iff (has : ∀ c ∈ as, EndsRun c) (bs : List Char) :
    HasThreeBreaks (as ++ bs) ↔ HasThreeBreaks bs := by
  induction as with
  | nil => rfl
  | cons a as ih =>
      have hcons := hasThreeBreaks_append_cons_iff (has a List.mem_cons_self) [] (as ++ bs)
      rw [List.nil_append] at hcons
      rw [List.cons_append, hcons, or_iff_right not_hasThreeBreaks_nil,
        ih fun c hc => has c (List.mem_cons_of_mem a hc)]

/-! ### Carriage returns -/

/-- Carriage returns stand **in breaks** only: a line feed follows each of them. -/
def ReturnsInBreaks (cs : List Char) : Prop :=
  ∀ before after, cs = before ++ '\r' :: after → after.head? = some '\n'

namespace ReturnsInBreaks

/-- In the empty text carriage returns stand in breaks only, since there are none. -/
theorem nil : ReturnsInBreaks [] :=
  fun _ _ heq => absurd heq (by simp)

/-- Carriage returns that stand in breaks only do so in every end of the text. -/
theorem of_append (h : ReturnsInBreaks (as ++ bs)) : ReturnsInBreaks bs := by
  rintro before after rfl
  exact h (as ++ before) after (List.append_assoc ..).symm

/-- Carriage returns stand in breaks only if they do behind the first character, and a line feed
follows that one if it is a carriage return. -/
theorem cons_iff : ReturnsInBreaks (c :: cs) ↔
    (c = '\r' → cs.head? = some '\n') ∧ ReturnsInBreaks cs := by
  constructor
  · intro h
    have happend : ReturnsInBreaks ([c] ++ cs) := h
    exact ⟨fun hc => h [] cs (hc ▸ rfl), happend.of_append⟩
  · rintro ⟨hfront, hrest⟩ (_ | ⟨d, before⟩) after heq
    · obtain ⟨hc, rfl⟩ := List.cons.inj heq
      exact hfront hc
    · exact hrest before after (List.cons.inj heq).2

/-- Two texts in which carriage returns stand in breaks only can be put together. -/
theorem append (has : ReturnsInBreaks as) (hbs : ReturnsInBreaks bs) :
    ReturnsInBreaks (as ++ bs) := by
  induction as with
  | nil => exact hbs
  | cons a as ih =>
      obtain ⟨hfront, hrest⟩ := cons_iff.mp has
      rw [List.cons_append]
      refine cons_iff.mpr ⟨fun ha => ?_, ih hrest⟩
      rw [List.head?_append, hfront ha, Option.some_or]

/-- In front of another character than a line feed, a break is not taken apart. -/
theorem of_append_cons (hc : c ≠ '\n') (h : ReturnsInBreaks (as ++ c :: bs)) :
    ReturnsInBreaks as := by
  rintro before after rfl
  have hhead := h before (after ++ c :: bs) (List.append_assoc ..)
  cases after with
  | nil => exact absurd (Option.some.inj hhead) hc
  | cons d after => exact hhead

/-- Whether carriage returns stand in breaks only is decided character by character. -/
instance decidable : (cs : List Char) → Decidable (ReturnsInBreaks cs)
  | [] => .isTrue nil
  | _ :: cs =>
    have := decidable cs
    decidable_of_iff' _ cons_iff

end ReturnsInBreaks

/-! ### Deciding blocks -/

/-- Plain text other than an opening bracket is a piece of its own. -/
theorem pieces_cons_of_ne (hc : c ≠ '[') (cs : List Char) :
    pieces (c :: cs) = .char c :: pieces cs := by
  rw [pieces]
  split
  · rename_i b rest hread
    obtain ⟨-, htext⟩ := Block.read?_eq_some_iff.mp hread
    rw [Block.source_append] at htext
    exact absurd (List.cons.inj htext).1 hc
  · rfl

/-- A block is read up to its closing bracket. -/
theorem exists_source_append (b : Block) (rest : List Char) :
    ∃ front, b.source ++ rest = front ++ (b.content ++ ']' :: rest) := by
  refine ⟨'[' :: 'i' :: 'f' :: ':' :: ' ' ::
    (b.key ++ (Block.expectedSource b.expected ++ ['|'])), ?_⟩
  simp only [Block.source_append, List.cons_append, List.append_assoc, List.nil_append]

/-- **Deciding blocks takes no break apart.** -/
theorem returnsInBreaks_resolveBlocks (keep : Block → Bool) (h : ReturnsInBreaks cs) :
    ReturnsInBreaks (resolveBlocks keep cs) := by
  simp only [resolveBlocks]
  fun_induction pieces cs with
  | case1 cs b rest hread ih =>
      obtain ⟨-, rfl⟩ := Block.read?_eq_some_iff.mp hread
      obtain ⟨front, hsource⟩ := exists_source_append b rest
      have hbody : ReturnsInBreaks (b.content ++ ']' :: rest) := (hsource ▸ h).of_append
      have hrest : ReturnsInBreaks rest := (ReturnsInBreaks.cons_iff.mp hbody.of_append).2
      rw [List.flatMap_cons]
      refine .append ?_ (ih hrest)
      rw [Piece.resolve]
      split
      · exact hbody.of_append_cons (by decide)
      · exact .nil
  | case2 => exact .nil
  | case3 c cs hread ih =>
      obtain ⟨hfront, hrest⟩ := ReturnsInBreaks.cons_iff.mp h
      refine ReturnsInBreaks.cons_iff.mpr ⟨fun hc => ?_, ih hrest⟩
      obtain ⟨rest, rfl⟩ := List.head?_eq_some_iff.mp (hfront hc)
      rw [pieces_cons_of_ne (by decide)]
      rfl

/-! ### Joints -/

/-- A text starts with a **stray return**: a long run follows that has a carriage return of its own,
so the one at the front belongs to no break. -/
def StartsWithStray (cs : List Char) : Prop :=
  ∃ (b c : Break) (after : List Char),
    cs = '\r' :: (Break.returnFeed.source ++ (b.source ++ (c.source ++ after)))

/-- A text **has a joint**: a line feed, and a stray return before a long run. -/
def HasJoint (cs : List Char) : Prop :=
  ∃ before after, cs = before ++ '\n' :: after ∧ StartsWithStray after

/-- A joint is at the front of a text, where a line feed comes before a stray return, or further
on. -/
theorem hasJoint_cons_iff :
    HasJoint (c :: cs) ↔ c = '\n' ∧ StartsWithStray cs ∨ HasJoint cs := by
  constructor
  · rintro ⟨_ | ⟨d, before⟩, after, h, hstray⟩
    · obtain ⟨rfl, rfl⟩ := List.cons.inj h
      exact .inl ⟨rfl, hstray⟩
    · exact .inr ⟨before, after, (List.cons.inj h).2, hstray⟩
  · rintro (⟨rfl, hstray⟩ | ⟨before, after, rfl, hstray⟩)
    · exact ⟨[], cs, rfl, hstray⟩
    · exact ⟨c :: before, after, rfl, hstray⟩

/-- Behind a break, a joint is at its end or further on. -/
theorem hasJoint_source_append_iff (b : Break) :
    HasJoint (b.source ++ cs) ↔ StartsWithStray cs ∨ HasJoint cs := by
  cases b <;> simp [Break.source, hasJoint_cons_iff]

/-- A text that starts with a whole line break does not start with a stray return. -/
theorem not_startsWithStray_source_append (b : Break) : ¬ StartsWithStray (b.source ++ cs) := by
  rintro ⟨_, _, _, h⟩
  cases b <;> simp [Break.source] at h

/-- Behind a run of breaks, a joint is at its end or further on. -/
theorem hasJoint_run_append_iff {run : List Break} (hrun : run ≠ []) :
    HasJoint (longRuns.write run ++ cs) ↔ StartsWithStray cs ∨ HasJoint cs := by
  induction run with
  | nil => exact absurd rfl hrun
  | cons b run ih =>
      rw [write_cons, List.append_assoc, hasJoint_source_append_iff]
      cases run with
      | nil => rfl
      | cons b' run =>
          rw [ih (List.cons_ne_nil b' run), write_cons, List.append_assoc]
          simp [not_startsWithStray_source_append]

/-- Where a long run stands at the front of a text, a joint is at its end or further on. -/
theorem hasJoint_iff_of_some {rest : List Char} (h : dropThreeBreaks? cs = some rest) :
    HasJoint cs ↔ StartsWithStray (dropBreaks rest) ∨ HasJoint (dropBreaks rest) := by
  obtain ⟨run, ⟨hlength, -⟩, htext⟩ := exists_longRun h
  have hrun : run ≠ [] := by
    rintro rfl
    exact absurd hlength (by decide)
  rw [← hasJoint_run_append_iff hrun, ← htext]

/-- If carriage returns stand in breaks only, there is no joint, since a stray return belongs to
no break. -/
theorem ReturnsInBreaks.not_hasJoint (h : ReturnsInBreaks cs) : ¬ HasJoint cs := by
  rintro ⟨before, _, rfl, b, c, after, rfl⟩
  have hhead := h (before ++ ['\n']) _ (List.append_assoc before ['\n'] _).symm
  exact absurd (Option.some.inj hhead) (by decide)

/-! ### Squeezing -/

/-- A long run at the front is squeezed to two line feeds, and squeezing goes on behind all of its
breaks. -/
theorem squeezeBreaks_of_some {rest : List Char} (h : dropThreeBreaks? cs = some rest) :
    squeezeBreaks cs = '\n' :: '\n' :: squeezeBreaks (dropBreaks rest) := by
  rw [squeezeBreaks]
  split
  · rename_i rest' h'
    rw [Option.some.inj (h.symm.trans h')]
  · rename_i h'
    exact absurd (h.symm.trans h') (by simp)

/-- Where no long run stands at the front, the first character stays and squeezing goes on behind
it. -/
theorem squeezeBreaks_cons (h : dropThreeBreaks? (c :: cs) = none) :
    squeezeBreaks (c :: cs) = c :: squeezeBreaks cs := by
  rw [squeezeBreaks]
  split
  · rename_i rest h'
    exact absurd (h'.symm.trans h) (by simp)
  · rfl

/-- Behind the first break of a short run, the run is short. -/
theorem dropThreeBreaks?_of_dropBreak? (hshort : dropThreeBreaks? cs = none)
    (h : dropBreak? cs = some as) : dropThreeBreaks? as = none := by
  rw [Option.eq_none_iff_forall_ne_some]
  intro rest hrest
  obtain ⟨x, y, z, rfl⟩ := dropThreeBreaks?_eq_some_iff.mp hrest
  obtain ⟨b, rfl⟩ := dropBreak?_eq_some_iff.mp h
  have hsome : dropThreeBreaks? (b.source ++ (x.source ++ (y.source ++ (z.source ++ rest)))) =
      some (z.source ++ rest) := dropThreeBreaks?_eq_some_iff.mpr ⟨b, x, y, rfl⟩
  exact absurd (hshort.symm.trans hsome) (by simp)

/-- The breaks at the front of a text end before what is no break. -/
theorem dropBreak?_dropBreaks (cs : List Char) : dropBreak? (dropBreaks cs) = none := by
  obtain ⟨-, -, hend⟩ := exists_run_dropBreaks cs
  exact dropBreak?_eq_none_iff.mpr hend

/-- Where not one break stands at the front, no three do. -/
theorem dropThreeBreaks?_of_none (h : dropBreak? cs = none) : dropThreeBreaks? cs = none := by
  rw [dropThreeBreaks?, h, Option.bind_none]

/-- A squeezed text starts with a line feed only if the text does, or if a long run stands there. -/
theorem exists_of_squeezeBreaks_eq_cons {rest : List Char} (hshort : dropThreeBreaks? cs = none)
    (h : squeezeBreaks cs = '\n' :: rest) : ∃ rest', cs = '\n' :: rest' := by
  cases cs with
  | nil =>
      rw [squeezeBreaks] at h
      exact absurd h (by simp [dropThreeBreaks?, dropBreak?])
  | cons c cs =>
      rw [squeezeBreaks_cons hshort] at h
      exact ⟨cs, by rw [(List.cons.inj h).1]⟩

/-- A carriage return that makes no break with the text behind it makes one once that is squeezed
only if it is a stray one. -/
theorem dropBreak?_return_squeezeBreaks (hfeed : ∀ rest, cs ≠ '\n' :: rest) :
    dropBreak? ('\r' :: squeezeBreaks cs) = none ∨ StartsWithStray ('\r' :: cs) := by
  cases hrun : dropThreeBreaks? cs with
  | some rest =>
      obtain ⟨a, b, c, rfl⟩ := dropThreeBreaks?_eq_some_iff.mp hrun
      cases a with
      | lineFeed => exact absurd rfl (hfeed _)
      | returnFeed => exact .inr ⟨b, c, rest, rfl⟩
  | none =>
      refine .inl (dropBreak?_return_eq_none fun rest h => ?_)
      obtain ⟨rest', hrest'⟩ := exists_of_squeezeBreaks_eq_cons hrun h
      exact hfeed rest' hrest'

/-- Squeezing leaves the first break of a short run in place, and makes another one only of a stray
return. -/
theorem dropBreak?_squeezeBreaks (hshort : dropThreeBreaks? cs = none) :
    dropBreak? (squeezeBreaks cs) = (dropBreak? cs).map squeezeBreaks ∨ StartsWithStray cs := by
  cases cs with
  | nil =>
      left
      rw [squeezeBreaks]
      rfl
  | cons c cs =>
      rw [squeezeBreaks_cons hshort]
      by_cases hn : c = '\n'
      · subst hn
        exact .inl rfl
      · by_cases hr : c = '\r'
        · subst hr
          by_cases hfeed : ∃ rest, cs = '\n' :: rest
          · obtain ⟨rest, rfl⟩ := hfeed
            have hshort' : dropThreeBreaks? ('\n' :: rest) = none := hshort
            rw [squeezeBreaks_cons hshort']
            exact .inl rfl
          · have hfeed' : ∀ rest, cs ≠ '\n' :: rest := fun rest h => hfeed ⟨rest, h⟩
            rw [dropBreak?_return_eq_none hfeed']
            exact dropBreak?_return_squeezeBreaks hfeed'
        · have hc : EndsRun c := ⟨hn, hr⟩
          left
          rw [hc.dropBreak?_cons, hc.dropBreak?_cons, Option.map_none]

/-- A joint right behind the break at the front of a text, or further on, is a joint of the text. -/
theorem hasJoint_of_dropBreak? (h : dropBreak? cs = some as)
    (hjoint : StartsWithStray as ∨ HasJoint as) : HasJoint cs := by
  obtain ⟨b, rfl⟩ := dropBreak?_eq_some_iff.mp h
  exact (hasJoint_source_append_iff b).mpr hjoint

/-- Behind the breaks at the front of a text, only a stray return makes another break. -/
theorem startsWithStray_of_squeezeBreaks_dropBreaks
    (h : dropBreak? (squeezeBreaks (dropBreaks cs)) ≠ none) : StartsWithStray (dropBreaks cs) := by
  have hnone := dropBreak?_dropBreaks cs
  refine (dropBreak?_squeezeBreaks (dropThreeBreaks?_of_none hnone)).resolve_left fun heq => h ?_
  rw [heq, hnone, Option.map_none]

/-- A stray return makes one break with the run behind it. -/
theorem exists_squeezeBreaks_of_stray (h : StartsWithStray cs) :
    ∃ run rest, cs = '\r' :: run ∧ dropThreeBreaks? run = some rest ∧
      squeezeBreaks cs = '\r' :: '\n' :: '\n' :: squeezeBreaks (dropBreaks rest) := by
  obtain ⟨b, c, rest, rfl⟩ := h
  have hrun : dropThreeBreaks? (Break.returnFeed.source ++ (b.source ++ (c.source ++ rest))) =
      some rest := dropThreeBreaks?_eq_some_iff.mpr ⟨.returnFeed, b, c, rfl⟩
  refine ⟨_, rest, rfl, hrun, ?_⟩
  rw [squeezeBreaks_cons, squeezeBreaks_of_some hrun]
  exact dropThreeBreaks?_of_none rfl

/-- If three breaks stand at the front of a squeezed text, the text has a joint. -/
theorem hasJoint_of_dropThreeBreaks? (h : dropThreeBreaks? (squeezeBreaks cs) ≠ none) :
    HasJoint cs := by
  cases hthree : dropThreeBreaks? cs with
  | some rest =>
      rw [squeezeBreaks_of_some hthree] at h
      exact (hasJoint_iff_of_some hthree).mpr
        (.inl (startsWithStray_of_squeezeBreaks_dropBreaks h))
  | none =>
      -- the breaks at the front stay the same, one after the other, up to a stray return
      rcases dropBreak?_squeezeBreaks hthree with hfirst | hstray
      · rw [dropThreeBreaks?, hfirst] at h
        cases has : dropBreak? cs with
        | none => simp [has] at h
        | some as =>
            have hthree' := dropThreeBreaks?_of_dropBreak? hthree has
            rw [has, Option.map_some, Option.bind_some] at h
            refine hasJoint_of_dropBreak? has ?_
            rcases dropBreak?_squeezeBreaks hthree' with hsecond | hstray
            · rw [hsecond] at h
              cases hbs : dropBreak? as with
              | none => simp [hbs] at h
              | some bs =>
                  rw [hbs, Option.map_some, Option.bind_some] at h
                  refine .inr (hasJoint_of_dropBreak? hbs (.inl ?_))
                  refine (dropBreak?_squeezeBreaks
                    (dropThreeBreaks?_of_dropBreak? hthree' hbs)).resolve_left fun hthird => h ?_
                  rw [dropThreeBreaks?, has, Option.bind_some, hbs, Option.bind_some] at hthree
                  rw [hthird, hthree, Option.map_none]
            · exact .inl hstray
      · obtain ⟨run, rest, rfl, hrun, hsqueeze⟩ := exists_squeezeBreaks_of_stray hstray
        rw [hsqueeze] at h
        exact hasJoint_cons_iff.mpr (.inr ((hasJoint_iff_of_some hrun).mpr
          (.inl (startsWithStray_of_squeezeBreaks_dropBreaks h))))

/-- **Squeezing leaves three breaks exactly where a text has a joint.** -/
theorem hasThreeBreaks_squeezeBreaks_iff : HasThreeBreaks (squeezeBreaks cs) ↔ HasJoint cs := by
  constructor
  · intro h
    fun_induction squeezeBreaks cs with
    | case1 cs rest hthree ih =>
        have hsqueeze := squeezeBreaks_of_some hthree
        rw [hasThreeBreaks_cons_iff, hasThreeBreaks_cons_iff] at h
        rcases h with hfront | hsecond | hrest
        · exact hasJoint_of_dropThreeBreaks? (hsqueeze ▸ hfront)
        · refine (hasJoint_iff_of_some hthree).mpr
            (.inl (startsWithStray_of_squeezeBreaks_dropBreaks fun hnone => hsecond ?_))
          change (dropBreak? (squeezeBreaks (dropBreaks rest))).bind dropBreak? = none
          rw [hnone, Option.bind_none]
        · exact (hasJoint_iff_of_some hthree).mpr (.inr (ih hrest))
    | case2 => exact absurd h not_hasThreeBreaks_nil
    | case3 c cs hthree ih =>
        rw [hasThreeBreaks_cons_iff] at h
        rcases h with hfront | hrest
        · exact hasJoint_of_dropThreeBreaks? (squeezeBreaks_cons hthree ▸ hfront)
        · exact hasJoint_cons_iff.mpr (.inr (ih hrest))
  · intro h
    fun_induction squeezeBreaks cs with
    | case1 cs rest hthree ih =>
        rcases (hasJoint_iff_of_some hthree).mp h with hstray | hrest
        · obtain ⟨_, _, -, -, hsqueeze⟩ := exists_squeezeBreaks_of_stray hstray
          rw [hsqueeze]
          exact ⟨[], .lineFeed, .lineFeed, .returnFeed, _, rfl⟩
        · exact (ih hrest).of_isInfix (List.suffix_append ['\n', '\n'] _).isInfix
    | case2 =>
        obtain ⟨before, after, hnil, -⟩ := h
        exact absurd hnil (by simp)
    | case3 c cs hthree ih =>
        rcases hasJoint_cons_iff.mp h with ⟨rfl, hstray⟩ | hrest
        · obtain ⟨_, _, -, -, hsqueeze⟩ := exists_squeezeBreaks_of_stray hstray
          rw [hsqueeze]
          exact ⟨[], .lineFeed, .returnFeed, .lineFeed, _, rfl⟩
        · exact (ih hrest).of_isInfix (List.suffix_cons c _).isInfix

/-- **Squeezing leaves no three breaks**, if carriage returns stand in breaks only. -/
theorem not_hasThreeBreaks_squeezeBreaks (h : ReturnsInBreaks cs) :
    ¬ HasThreeBreaks (squeezeBreaks cs) :=
  mt hasThreeBreaks_squeezeBreaks_iff.mp h.not_hasJoint

/-! ### Squeezing twice -/

/-- The spelling of a line break is not empty. -/
theorem Break.length_source_pos (b : Break) : 0 < b.source.length := by
  cases b <;> exact Nat.succ_pos _

/-- What is left behind three line breaks is shorter by at least three characters. -/
theorem length_of_dropThreeBreaks? {rest : List Char} (h : dropThreeBreaks? cs = some rest) :
    rest.length + 3 ≤ cs.length := by
  obtain ⟨a, b, c, rfl⟩ := dropThreeBreaks?_eq_some_iff.mp h
  have ha := a.length_source_pos
  have hb := b.length_source_pos
  have hc := c.length_source_pos
  simp only [List.length_append]
  omega

/-- Squeezing makes no text longer, by induction on its recursion. -/
theorem length_squeezeBreaks_le (cs : List Char) : (squeezeBreaks cs).length ≤ cs.length := by
  fun_induction squeezeBreaks cs with
  | case1 cs rest hthree ih =>
      have hlong := length_of_dropThreeBreaks? hthree
      have hrest := length_dropBreaks rest
      simp only [List.length_cons]
      omega
  | case2 => exact Nat.le_refl _
  | case3 c cs hthree ih => exact Nat.succ_le_succ ih

/-- Squeezing changes a text exactly if it has three breaks. -/
theorem squeezeBreaks_eq_self_iff : squeezeBreaks cs = cs ↔ ¬ HasThreeBreaks cs := by
  fun_induction squeezeBreaks cs with
  | case1 cs rest hthree ih =>
      refine iff_of_false (fun heq => ?_) (not_not_intro ?_)
      · have hlong := length_of_dropThreeBreaks? hthree
        have hrest := length_dropBreaks rest
        have hle := length_squeezeBreaks_le (dropBreaks rest)
        have hlength := congrArg List.length heq
        simp only [List.length_cons] at hlength
        omega
      · obtain ⟨a, b, c, rfl⟩ := dropThreeBreaks?_eq_some_iff.mp hthree
        exact ⟨[], a, b, c, rest, rfl⟩
  | case2 => exact iff_of_true rfl not_hasThreeBreaks_nil
  | case3 c cs hthree ih =>
      rw [List.cons.injEq, eq_self_iff_true, true_and, ih, hasThreeBreaks_cons_iff, hthree]
      simp

/-- **One pass of squeezing** leaves three breaks after one another exactly in the texts that have a
joint, and these are the texts that a second pass changes again. -/
theorem hasThreeBreaks_collapseBlankLines_iff (text : String) :
    (HasThreeBreaks (collapseBlankLines text).toList ↔ HasJoint text.toList) ∧
      (collapseBlankLines (collapseBlankLines text) = collapseBlankLines text ↔
        ¬ HasJoint text.toList) := by
  simp only [collapseBlankLines, String.toList_ofList]
  refine ⟨hasThreeBreaks_squeezeBreaks_iff, ?_⟩
  rw [String.ofList_inj, squeezeBreaks_eq_self_iff, hasThreeBreaks_squeezeBreaks_iff]

/-- **One pass is not always enough.** -/
theorem collapseBlankLines_leaves_breaks :
    (¬ ∀ text, ¬ HasThreeBreaks (collapseBlankLines text).toList) ∧
      ¬ ∀ text, collapseBlankLines (collapseBlankLines text) = collapseBlankLines text := by
  have hsqueeze : collapseBlankLines "\n\r\r\n\n\n" = "\n\r\n\n" := by decide +kernel
  have htwice : collapseBlankLines "\n\r\n\n" = "\n\n" := by decide +kernel
  refine ⟨fun h => h "\n\r\r\n\n\n" ?_, fun h => ?_⟩
  · rw [hsqueeze]
    exact ⟨[], .lineFeed, .returnFeed, .lineFeed, [], by decide⟩
  · have heq := h "\n\r\r\n\n\n"
    rw [hsqueeze, htwice] at heq
    exact absurd heq (by decide)

/-! ### Values -/

/-- A value is **solid** if it is not empty and holds neither line feeds nor carriage returns. -/
def IsSolid (value : String) : Prop :=
  value ≠ "" ∧ ∀ c ∈ value.toList, EndsRun c

section Substitution

variable {values : Record} (hvalues : ∀ key value, values.get? key = some value → IsSolid value)
include hvalues

/-- What stands in the place of a token starts with a character that ends a run. -/
theorem exists_replacement_eq_cons (name : List Char) :
    ∃ d ds, replacement values name = d :: ds ∧ EndsRun d := by
  rw [replacement]
  cases hvalue : values.get? (String.ofList name) with
  | none => exact ⟨'\x7b', _, rfl, by decide, by decide⟩
  | some value =>
      obtain ⟨hne, hends⟩ := hvalues _ _ hvalue
      obtain ⟨d, ds, hvalue⟩ := List.exists_cons_of_ne_nil (mt String.toList_eq_nil_iff.mp hne)
      exact ⟨d, ds, hvalue, hends d (hvalue ▸ List.mem_cons_self)⟩

/-- A filled text starts with a line feed only if the text does. -/
theorem exists_of_substituteSlots_eq_cons {rest : List Char}
    (h : substituteSlots values cs = '\n' :: rest) : ∃ rest', cs = '\n' :: rest' := by
  induction cs using tokenInduction with
  | nil => exact absurd h (by simp)
  | char c cs hc _ =>
      rw [substituteSlots_cons values hc] at h
      exact ⟨cs, by rw [(List.cons.inj h).1]⟩
  | token name cs hname _ =>
      obtain ⟨d, ds, hreplaced, hd⟩ := exists_replacement_eq_cons hvalues name
      rw [substituteSlots_write_append values hname, hreplaced] at h
      exact absurd (List.cons.inj h).1 hd.1

/-- Breaks at the front of a filled text are those of the text. -/
theorem dropBreak?_substituteSlots (cs : List Char) :
    dropBreak? (substituteSlots values cs) = (dropBreak? cs).map (substituteSlots values) := by
  induction cs using tokenInduction with
  | nil =>
      rw [substituteSlots_nil]
      rfl
  | char c cs hc _ =>
      rw [substituteSlots_cons values hc]
      by_cases hn : c = '\n'
      · subst hn
        rfl
      · by_cases hr : c = '\r'
        · subst hr
          by_cases hfeed : ∃ rest, cs = '\n' :: rest
          · obtain ⟨rest, rfl⟩ := hfeed
            rw [substituteSlots_cons values (not_starts_of_ne (by decide) rest)]
            rfl
          · rw [dropBreak?_return_eq_none fun rest h => hfeed ⟨rest, h⟩,
              dropBreak?_return_eq_none fun rest h =>
                hfeed (exists_of_substituteSlots_eq_cons hvalues h), Option.map_none]
        · have hends : EndsRun c := ⟨hn, hr⟩
          rw [hends.dropBreak?_cons, hends.dropBreak?_cons, Option.map_none]
  | token name cs hname _ =>
      obtain ⟨d, ds, hreplaced, hd⟩ := exists_replacement_eq_cons hvalues name
      have hopen : EndsRun '\x7b' := ⟨by decide, by decide⟩
      rw [substituteSlots_write_append values hname, hreplaced, List.cons_append,
        hd.dropBreak?_cons, write_append, hopen.dropBreak?_cons, Option.map_none]

/-- **Solid values bring no three breaks about.** -/
theorem hasThreeBreaks_of_substituteSlots (h : HasThreeBreaks (substituteSlots values cs)) :
    HasThreeBreaks cs := by
  induction cs using tokenInduction with
  | nil => rwa [substituteSlots_nil] at h
  | char c cs hc ih =>
      have hfront := dropThreeBreaks?_map (dropBreak?_substituteSlots hvalues) (c :: cs)
      rw [substituteSlots_cons values hc] at h hfront
      rw [hasThreeBreaks_cons_iff, hfront, ne_eq, Option.map_eq_none_iff] at h
      exact hasThreeBreaks_cons_iff.mpr (h.imp_right ih)
  | token name cs hname ih =>
      rw [substituteSlots_write_append values hname, replacement] at h
      cases hvalue : values.get? (String.ofList name) with
      | some value =>
          rw [hvalue, hasThreeBreaks_append_iff (hvalues _ _ hvalue).2] at h
          exact (ih h).of_isInfix (List.suffix_append _ cs).isInfix
      | none =>
          -- the token stays, and its closing brace keeps it apart from what follows
          have hclose : EndsRun '\x7d' := ⟨by decide, by decide⟩
          rw [hvalue, write_append, ← List.cons_append,
            hasThreeBreaks_append_cons_iff hclose] at h
          rw [write_append, ← List.cons_append, hasThreeBreaks_append_cons_iff hclose]
          exact h.imp_right ih

end Substitution

/-! ### Messages -/

/-- **Messages have no long runs of breaks.** If in a template carriage returns stand in breaks
only, and the values of a record are displayed as solid texts, no three breaks follow one another in
the message, whichever blocks drop out of it. -/
theorem not_hasThreeBreaks_render (p : Display) (template : String) (r : Record)
    (hreturns : ReturnsInBreaks template.toList)
    (hvalues : ∀ key value, (p.apply r).get? key = some value → IsSolid value) :
    ¬ HasThreeBreaks (render p template r).toList := by
  intro h
  rw [render, String.toList_ofList] at h
  have hfilled : HasThreeBreaks (fillTemplate p r template.toList) :=
    h.of_isInfix (isInfix_trimChars _)
  exact not_hasThreeBreaks_squeezeBreaks (returnsInBreaks_resolveBlocks _ hreturns)
    (hasThreeBreaks_of_substituteSlots hvalues hfilled)

/-- Two blocks that drop out between breaks of both kinds, one that is kept and ends in a break, and
a token that stays because it names no field. -/
theorem not_hasThreeBreaks_render_mixed :
    let template := "\x7ba\x7d\r\n\r\n[if: b|B]\n\r\n[if: c=\r\n|\n]\r\n" ++
      "[if: a|\n\x7b\n\n\x7d\r\n]\n\x7ba\x7d"
    let r : Record := .ofList [("a", "x"), ("bonusAmount", "1500")]
    ReturnsInBreaks template.toList ∧
      (∀ key value, ((default : Display).apply r).get? key = some value → IsSolid value) ∧
      ¬ HasThreeBreaks (render default template r).toList := by
  intro template r
  have hreturns : ReturnsInBreaks template.toList := by decide +kernel
  have hentries : ((default : Display).apply r).entries =
      [("a", "x"), ("bonusAmount", "1,500")] := by
    decide +kernel
  have hvalues : ∀ key value, ((default : Display).apply r).get? key = some value →
      IsSolid value := by
    intro key value h
    rw [← Record.mem_entries_iff, hentries] at h
    simp only [List.mem_cons, Prod.mk.injEq, List.not_mem_nil, or_false] at h
    rcases h with ⟨-, rfl⟩ | ⟨-, rfl⟩
    · simp [IsSolid, EndsRun]
    · simp [IsSolid, EndsRun]
  exact ⟨hreturns, hvalues, not_hasThreeBreaks_render default template r hreturns hvalues⟩

end Outreach.Message
