import Outreach.CommandLine.Reader

/-!
# Levels of a Command Line as They Are Written

An option with a value is written as one argument, so it is entered as it stands, and what it looks
like cannot be confused with a word, another option or an operand. Operands stand behind two dashes,
where all is an operand.

## Main results

* `Grammar.IsPlain.argument_write`: an option that is written is entered.
* `read_options`: **options that are written are read**, whatever follows them.
* `read_word`: what follows a word is read on the next level.
* `read_operands`: a level that ends with its operands is read as it was written.
-/

namespace Outreach.CommandLine

variable {g inner : Grammar} {o : OptionSpec} {r : Reading} {value : String}
  {os os' : List (String × String)} {operands : List String}

/-! ### Writing options -/

/-- Whether an option can be given more than once: one that is counted, or one that takes several
texts. -/
def OptionKind.isRepeatable : OptionKind → Bool
  | count | texts => true
  | _ => false

/-- The values that a kind of options **admits**. What takes no value has the empty one, and what
shows something in place of all else has none. -/
def OptionKind.Admits : OptionKind → String → Prop
  | flag, value | count, value => value = ""
  | text, _ | texts, _ => True
  | path, value => value ≠ ""
  | help, _ | version, _ => False

/-- An option **as it is written**: by its letter if it is counted, else by its name behind two
dashes, with its value behind an equals sign if it takes one. -/
def OptionSpec.write (o : OptionSpec) (value : String) : String :=
  match o.kind, o.letter with
  | .count, some letter => String.ofList ['-', letter]
  | kind, _ => if kind.takesValue then "--" ++ o.name ++ "=" ++ value else "--" ++ o.name

/-- The values that are entered for an option that is written with a value. -/
def OptionSpec.passed (o : OptionSpec) (value : String) : List String :=
  if o.kind.takesValue then [value] else []

/-- An option is written with a dash in front. -/
theorem OptionSpec.exists_write_eq_cons (o : OptionSpec) (value : String) :
    ∃ cs, (o.write value).toList = '-' :: cs := by
  rw [write]
  split
  · exact ⟨_, String.toList_ofList⟩
  · split <;> simp [String.toList_append]

/-- A level is **plain** if its options are found by their names and letters, and neither they nor
its words look like anything else. -/
structure Grammar.IsPlain (g : Grammar) : Prop where
  words : ∀ w ∈ g.words, w.1.toList.head? ≠ some '-'
  names : ∀ o ∈ g.options, g.byName? o.name = some o ∧ o.name ≠ "" ∧ '=' ∉ o.name.toList
  letters : ∀ o ∈ g.options, ∀ c ∈ o.letter, g.byLetter? c = some o ∧ c ≠ '-'

/-- Whether a level is plain is decided by its lists. -/
instance (g : Grammar) : Decidable g.IsPlain :=
  decidable_of_iff
    ((∀ w ∈ g.words, w.1.toList.head? ≠ some '-') ∧
      (∀ o ∈ g.options, g.byName? o.name = some o ∧ o.name ≠ "" ∧ '=' ∉ o.name.toList) ∧
      ∀ o ∈ g.options, o.letter.all fun c => g.byLetter? c = some o ∧ c ≠ '-')
    ⟨fun ⟨words, names, letters⟩ =>
        ⟨words, names, fun o ho c hc => of_decide_eq_true (Option.all_eq_true _ _ |>.mp
          (letters o ho) c hc)⟩,
      fun ⟨words, names, letters⟩ =>
        ⟨words, names, fun o ho => Option.all_eq_true _ _ |>.mpr
          fun c hc => decide_eq_true (letters o ho c hc)⟩⟩

/-- What starts with a dash is no word. -/
theorem Grammar.IsPlain.isWord_of_dash (hg : g.IsPlain) {text : String} {cs : List Char}
    (h : text.toList = '-' :: cs) : g.isWord text = false := by
  have hhelp : text ≠ helpWord := by
    rintro rfl
    have hhead : helpWord.toList.head? = some '-' := by rw [h]; rfl
    exact absurd hhead (by decide)
  have hlookup : g.words.lookup text = none := by
    rw [List.lookup_eq_none_iff]
    rintro ⟨w, inner⟩ hw
    have hhead := hg.words _ hw
    rw [bne_iff_ne]
    rintro rfl
    exact hhead (by rw [h]; rfl)
  simp [isWord, hhelp, hlookup]

/-! ### Reading options -/

/-- Entering an option puts it behind the others. -/
theorem Given.enter_passed (given : Given) (hvalue : o.kind.Admits value)
    (honce : o.kind.isRepeatable = false → given.has o.name = false) :
    given.enter o (o.passed value) =
      .ok { given with options := given.options ++ [(o.name, value)] } := by
  obtain ⟨name, letter, kind⟩ := o
  cases kind <;>
    simp_all [enter, OptionSpec.passed, OptionKind.takesValue, OptionKind.Admits,
      OptionKind.isRepeatable, add]

/-- A value that an option admits is entered, unless the option was given before and may not be
repeated. -/
theorem Reading.enter_passed (hvalue : o.kind.Admits value)
    (honce : o.kind.isRepeatable = false → Given.has ⟨os, operands⟩ o.name = false) :
    enter ⟨⟨os, operands⟩, none, false⟩ o (o.passed value) =
      .ok ⟨⟨os ++ [(o.name, value)], operands⟩, none, false⟩ := by
  change (do let given ← Given.enter ⟨os, operands⟩ o (o.passed value); _) = _
  rw [Given.enter_passed _ hvalue honce]
  rfl

/-- An option is found by the name in front of the equals sign, if there is one. -/
theorem Reading.argument_of_name (hname : g.byName? o.name = some o) (hne : o.name ≠ "")
    (hequals : '=' ∉ o.name.toList) (htrailing : r.trailing = false) (attached : Option String)
    (hattached : attached.isSome = o.kind.takesValue) {text : String}
    (htext : text.toList =
      '-' :: '-' :: (o.name.toList ++ attached.elim [] fun value => '=' :: value.toList)) :
    r.argument g text = r.option o attached := by
  obtain ⟨c, cs, hcs⟩ := List.exists_cons_of_ne_nil (mt String.toList_eq_nil_iff.mp hne)
  have hspan : ∀ d ∈ o.name.toList, (d != '=') = true := fun d hd => by
    rw [bne_iff_ne]
    rintro rfl
    exact hequals hd
  generalize hrest : (attached.elim [] fun value => '=' :: value.toList) = rest at htext
  have htake : (o.name.toList ++ rest).takeWhile (· != '=') = o.name.toList := by
    rw [List.takeWhile_append_of_pos hspan, ← hrest]
    cases attached <;> simp
  have hdrop : (o.name.toList ++ rest).dropWhile (· != '=') = rest := by
    rw [List.dropWhile_append_of_pos hspan, ← hrest]
    cases attached <;> simp
  have htail : rest.tail?.map String.ofList = attached := by
    rw [← hrest]
    cases attached <;> simp
  have hnamed : r.argument g text = r.named g (o.name.toList ++ rest) := by
    rw [argument, htrailing, htext, hcs]
    rfl
  rw [hnamed, named, htake, hdrop, String.ofList_toList, hname, htail, hattached]
  simp

/-- A single letter behind a dash is an option. -/
theorem Reading.argument_of_letter {c : Char} (hletter : g.byLetter? c = some o) (hdash : c ≠ '-')
    (htakes : o.kind.takesValue = false) (htrailing : r.trailing = false) :
    r.argument g (String.ofList ['-', c]) = r.enter o [] := by
  have hlettered : r.argument g (String.ofList ['-', c]) = r.lettered g [c] := by
    rw [argument, htrailing, String.toList_ofList, if_neg (by decide)]
    split
    · rename_i heq
      exact absurd (List.cons.inj (List.cons.inj heq).2).1 hdash
    · rename_i heq
      exact absurd (List.cons.inj (List.cons.inj heq).2).1 hdash
    · rename_i heq
      rw [(List.cons.inj heq).2]
    · rename_i hother
      exact absurd rfl (hother c [])
  rw [hlettered, lettered, hletter]
  simp only [htakes, lettered, Bool.false_eq_true, if_false]
  cases r.enter o [] <;> rfl

/-- **An option that is written is entered.** -/
theorem Grammar.IsPlain.argument_write (hg : g.IsPlain) (ho : o ∈ g.options)
    (htrailing : r.trailing = false) (value : String) :
    r.argument g (o.write value) = r.enter o (o.passed value) := by
  obtain ⟨hname, hne, hequals⟩ := hg.names o ho
  rw [OptionSpec.write, OptionSpec.passed]
  split
  · rename_i c hkind hletter
    obtain ⟨hbyLetter, hdash⟩ := hg.letters o ho c hletter
    have htakes : o.kind.takesValue = false := by rw [hkind]; rfl
    rw [Reading.argument_of_letter hbyLetter hdash htakes htrailing, htakes]
    rfl
  · cases htakes : o.kind.takesValue with
    | true =>
        have htext : ("--" ++ o.name ++ "=" ++ value).toList =
            '-' :: '-' :: (o.name.toList ++ '=' :: value.toList) := by
          simp [String.toList_append]
        rw [if_pos rfl, if_pos rfl]
        exact Reading.argument_of_name hname hne hequals htrailing (some value) htakes.symm htext
    | false =>
        have htext : ("--" ++ o.name).toList = '-' :: '-' :: (o.name.toList ++ []) := by
          simp [String.toList_append]
        rw [if_neg Bool.false_ne_true, if_neg Bool.false_ne_true,
          Reading.argument_of_name hname hne hequals htrailing none htakes.symm htext,
          Reading.option, htakes]
        rfl

/-- What is no word is read as an argument. -/
theorem read_argument {text : String} (h : r.trailing = true ∨ g.isWord text = false)
    (rest : List String) : read g r (text :: rest) = r.argument g text >>= (read g · rest) := by
  have hno : (!r.trailing && !r.awaitsValue && g.isWord text) = false := by
    rcases h with h | h <;> simp [h]
  rw [read, hno, if_neg Bool.false_ne_true]

/-! ### Reading a level -/

/-- The way in which options are written **fits** a level: the level has each of them and admits its
value, and those that can be given once are. -/
structure Fits (g : Grammar) (write : String × String → String) (os : List (String × String)) :
    Prop where
  known : ∀ e ∈ os, ∃ o ∈ g.options, o.name = e.1 ∧ o.kind.Admits e.2 ∧ write e = o.write e.2
  once : ∀ o ∈ g.options, o.kind.isRepeatable = false →
    (os.filter (·.1 == o.name)).length ≤ 1

variable {write : String × String → String}

/-- No options at all fit every level. -/
theorem Fits.nil (g : Grammar) : Fits g write [] :=
  ⟨fun _ he => absurd he List.not_mem_nil, fun _ _ _ => Nat.zero_le 1⟩

/-- Options **in another order**: those of one name stay as they are. -/
def Reordered (os os' : List (String × String)) : Prop :=
  ∀ name, os.filter (·.1 == name) = os'.filter (·.1 == name)

/-- Only the names that stand in one of the lists matter. -/
instance (os os' : List (String × String)) : Decidable (Reordered os os') :=
  decidable_of_iff
    (∀ e ∈ os ++ os', os.filter (·.1 == e.1) = os'.filter (·.1 == e.1)) <| by
      refine ⟨fun h name => ?_, fun h e _ => h e.1⟩
      by_cases hname : ∃ e ∈ os ++ os', e.1 = name
      · obtain ⟨e, he, rfl⟩ := hname
        exact h e he
      · have hnone : ∀ e ∈ os ++ os', ¬(e.1 == name) = true := fun e he heq =>
          hname ⟨e, he, eq_of_beq heq⟩
        obtain ⟨hos, hos'⟩ := List.forall_mem_append.mp hnone
        rw [List.filter_eq_nil_iff.mpr hos, List.filter_eq_nil_iff.mpr hos']

/-- Options in another order are the same options. -/
theorem Reordered.mem_iff (h : Reordered os os') {e : String × String} : e ∈ os ↔ e ∈ os' := by
  have hfilter : e ∈ os.filter (·.1 == e.1) ↔ e ∈ os'.filter (·.1 == e.1) := by rw [h e.1]
  simpa using hfilter

/-- Options in another order give each name the same values in the same order. -/
theorem Reordered.values_eq (h : Reordered os os') (name : String) :
    Given.values ⟨os, operands⟩ name = Given.values ⟨os', operands⟩ name := by
  rw [Given.values, Given.values, h name]

/-- Options that fit a level fit it in another order too. -/
theorem Fits.of_reordered (hfits : Fits g write os') (h : Reordered os os') : Fits g write os where
  known e he := hfits.known e (h.mem_iff.mp he)
  once o ho hrepeatable := by
    rw [h o.name]
    exact hfits.once o ho hrepeatable

/-- The options one by one, from the values for each name. -/
def unfoldNamed (named : List (String × List String)) : List (String × String) :=
  named.flatMap fun e => e.2.map (e.1, ·)

/-- If names are told apart, the values for each are found by it. -/
theorem values_unfoldNamed {named : List (String × List String)}
    (hnames : (named.map Prod.fst).Nodup) (name : String) :
    Given.values ⟨unfoldNamed named, operands⟩ name = (named.lookup name).getD [] := by
  induction named with
  | nil => rfl
  | cons e named ih =>
      obtain ⟨hnew, hnames⟩ := List.nodup_cons.mp hnames
      have hcons : Given.values ⟨unfoldNamed (e :: named), operands⟩ name =
          ((e.2.map (e.1, ·)).filter (·.1 == name)).map Prod.snd ++
            Given.values ⟨unfoldNamed named, operands⟩ name := by
        simp [Given.values, unfoldNamed]
      rw [hcons, ih hnames, List.lookup_cons]
      by_cases h : name = e.1
      · subst h
        have hnone : named.lookup e.1 = none := by
          rw [List.lookup_eq_none_iff]
          intro e' he'
          rw [bne_iff_ne]
          intro heq
          exact hnew (heq ▸ List.mem_map_of_mem he')
        simp [hnone, Function.comp_def, List.filter_map]
      · have hother : (e.1 == name) = false := beq_false_of_ne (Ne.symm h)
        have hother' : (name == e.1) = false := beq_false_of_ne h
        simp [List.filter_map, Function.comp_def, hother, hother']

/-- A level **takes** the values for a name: it has an option of that name, which admits each of
them and can be given that often. -/
def Grammar.Takes (g : Grammar) (write : String × String → String) (e : String × List String) :
    Prop :=
  ∃ o ∈ g.options, o.name = e.1 ∧
    (∀ value ∈ e.2, o.kind.Admits value ∧ write (e.1, value) = o.write value) ∧
    (o.kind.isRepeatable = false → e.2.length ≤ 1)

/-- What a level takes name by name fits it. -/
theorem Fits.unfoldNamed (hg : g.IsPlain) {named : List (String × List String)}
    (hnames : (named.map Prod.fst).Nodup) (htakes : ∀ e ∈ named, g.Takes write e) :
    Fits g write (unfoldNamed named) where
  known e he := by
    obtain ⟨e', hnamed, hmem⟩ := List.mem_flatMap.mp he
    obtain ⟨value, hvalue, rfl⟩ := List.mem_map.mp hmem
    obtain ⟨o, ho, hname, hvalues, -⟩ := htakes e' hnamed
    exact ⟨o, ho, hname, hvalues value hvalue⟩
  once o ho hrepeatable := by
    have hvalues : Given.values ⟨CommandLine.unfoldNamed named, []⟩ o.name =
        (named.lookup o.name).getD [] := values_unfoldNamed hnames o.name
    have hlength := congrArg List.length hvalues
    rw [Given.values, List.length_map] at hlength
    rw [hlength]
    cases hlookup : named.lookup o.name with
    | none => exact Nat.zero_le 1
    | some values =>
        obtain ⟨before, after, hsplit, -⟩ := List.lookup_eq_some_iff.mp hlookup
        obtain ⟨o', ho', hname, -, honce⟩ := htakes (o.name, values) (by simp [hsplit])
        have hfound := (hg.names o' ho').1
        rw [hname, (hg.names o ho).1] at hfound
        rw [Option.some.inj hfound] at hrepeatable
        exact honce hrepeatable

/-- **Options that are written are read**, behind others and whatever follows them. -/
theorem read_options (hg : g.IsPlain) (os : List (String × String))
    (hfits : Fits g write (os ++ os')) (rest : List String) :
    read g ⟨⟨os, operands⟩, none, false⟩ (os'.map write ++ rest) =
      read g ⟨⟨os ++ os', operands⟩, none, false⟩ rest := by
  induction os' generalizing os with
  | nil => simp
  | cons e os' ih =>
      obtain ⟨o, ho, hname, hvalue, hwrite⟩ := hfits.known e (by simp)
      have honce : o.kind.isRepeatable = false → Given.has ⟨os, operands⟩ o.name = false := by
        intro hrepeatable
        have hlength := hfits.once o ho hrepeatable
        rw [List.filter_append, List.filter_cons_of_pos (by simp [hname]), List.length_append,
          List.length_cons] at hlength
        have hnone : os.filter (·.1 == o.name) = [] := List.length_eq_zero_iff.mp (by omega)
        simp [Given.has, Given.values, hnone]
      obtain ⟨cs, hdash⟩ := o.exists_write_eq_cons e.2
      have hfits' : Fits g write (os ++ [e] ++ os') := by rwa [List.append_assoc]
      have hentered : (o.name, e.2) = e := by rw [hname]
      rw [List.map_cons, List.cons_append, hwrite, read_argument (.inr (hg.isWord_of_dash hdash)),
        hg.argument_write (r := ⟨⟨os, operands⟩, none, false⟩) ho rfl,
        Reading.enter_passed hvalue honce, hentered]
      exact (ih (os ++ [e]) hfits').trans (by rw [List.append_assoc]; rfl)

/-- What follows a word is read on the next level. -/
theorem read_word {word : String} (hword : g.words.lookup word = some inner) {rest : List String}
    {levels : Levels} (hrest : read inner .start rest = .ok levels) :
    read g ⟨⟨os, operands⟩, none, false⟩ (word :: rest) =
      .ok ⟨word :: levels.words, ⟨os, operands⟩ :: levels.given⟩ := by
  have hwants : g.wantsWord = true := by
    rw [Grammar.wantsWord]
    cases hwords : g.words with
    | nil => simp [hwords] at hword
    | cons w words => rfl
  have his : g.isWord word = true := by simp [Grammar.isWord, hwants, hword]
  rw [read, his]
  simp only [Reading.awaitsValue, Bool.not_false, Bool.and_self, if_true, hword, hrest]
  rfl

/-- The level that words lead to, if each of them is known on the level before. -/
def Grammar.follow? (g : Grammar) : List String → Option Grammar
  | [] => some g
  | word :: words => (g.words.lookup word).bind (·.follow? words)

/-- What follows words is read on the level that they lead to. -/
theorem read_words {words : List String} (hwords : g.follow? words = some inner)
    {rest : List String} {levels : Levels} (hrest : read inner .start rest = .ok levels) :
    read g .start (words ++ rest) =
      .ok ⟨words ++ levels.words, List.replicate words.length .empty ++ levels.given⟩ := by
  induction words generalizing g with
  | nil => exact Option.some.inj hwords ▸ hrest
  | cons word words ih =>
      obtain ⟨next, hword, hwords⟩ := Option.bind_eq_some_iff.mp hwords
      exact read_word hword (ih hwords)

/-- What follows two dashes are operands. -/
theorem read_trailing (before : List String)
    (hroom : (before ++ operands).length ≤ g.operands) :
    read g ⟨⟨os, before⟩, none, true⟩ operands =
      read g ⟨⟨os, before ++ operands⟩, none, true⟩ [] := by
  induction operands generalizing before with
  | nil => rw [List.append_nil]
  | cons text operands ih =>
      rw [List.append_cons] at hroom
      have hlt : before.length < g.operands := by
        simp only [List.length_append, List.length_cons, List.length_nil] at hroom
        omega
      have hargument : Reading.argument g ⟨⟨os, before⟩, none, true⟩ text =
          .ok ⟨⟨os, before ++ [text]⟩, none, true⟩ := by
        change Reading.operand g _ text = _
        rw [Reading.operand, if_pos hlt]
        rfl
      rw [read_argument (.inl rfl), hargument]
      exact (ih (before ++ [text]) hroom).trans (by rw [← List.append_cons])

/-- The ways in which operands are **written**: behind two dashes, which can be left out if there
are no operands. -/
inductive WrittenOperands : List String → List String → Prop where
  | absent : WrittenOperands [] []
  | behindDashes (operands : List String) : WrittenOperands operands ("--" :: operands)

/-- **A level that ends with its operands** is read as it was written, if nothing is missing. -/
theorem read_operands (hg : g.IsPlain) (hleaf : g.words = [])
    (hroom : operands.length ≤ g.operands) (hneeded : g.neededOperands ≤ operands.length)
    (hrequired : ∀ name ∈ g.required, Given.has ⟨os, operands⟩ name = true) {tail : List String}
    (htail : WrittenOperands operands tail) :
    read g ⟨⟨os, []⟩, none, false⟩ tail = .ok ⟨[], [⟨os, operands⟩]⟩ := by
  have hend : ∀ trailing, read g ⟨⟨os, operands⟩, none, trailing⟩ [] =
      .ok ⟨[], [⟨os, operands⟩]⟩ := by
    intro trailing
    have hall : g.required.all (Given.has ⟨os, operands⟩) = true := by simpa using hrequired
    have hwants : g.wantsWord = false := by simp [Grammar.wantsWord, hleaf]
    have hfinish : Reading.finish g ⟨⟨os, operands⟩, none, trailing⟩ = .ok ⟨os, operands⟩ := by
      rw [Reading.finish]
      change (if g.wantsWord = true then _ else _) = _
      rw [hwants, if_neg Bool.false_ne_true]
      change (if (decide (operands.length < g.neededOperands) || _) = true then _ else _) = _
      rw [hall, decide_eq_false (Nat.not_lt.mpr hneeded)]
      rfl
    rw [read, hfinish]
    rfl
  cases htail with
  | absent => exact hend false
  | behindDashes =>
      have hword : g.isWord "--" = false := hg.isWord_of_dash (show _ = ['-', '-'] from rfl)
      have hdashes : Reading.argument g ⟨⟨os, []⟩, none, false⟩ "--" =
          .ok ⟨⟨os, []⟩, none, true⟩ := rfl
      rw [read_argument (.inr hword), hdashes]
      exact (read_trailing [] hroom).trans (hend true)

end Outreach.CommandLine
