import Mathlib
import Outreach.CommandLine
import Outreach.Proofs.CommandLine.WrittenLevels

/-!
# Command Lines That Are Written and Read

Each run of the program is written as arguments: the words of its command, its options with their
values behind equals signs, and its operands behind two dashes. The arguments are read as that run,
in whatever order options of different names stand, and wherever the data directory and the
verbosity are written.

## Main results

* `Invocation.parse_written`: **a run that is written is the run that is read**, with the common
  options in front of the words or behind them.
-/

namespace Outreach

open CommandLine

/-! ### Runs as options -/

/-- The values that are given for the fields of a record, by the names of the options. -/
def RecordSource.named (s : RecordSource) : List (String × List String) :=
  [("record", s.file.toList), ("set", s.assignments)]

/-- The values that are given for a message. The fan offer is polished where that is said. -/
def MessageOptions.named (o : MessageOptions) : List (String × List String) :=
  [("preset", o.preset.toList), ("template", o.template.toList), ("contact", o.contact.toList),
    ("kol", o.kol.toList), ("polish", if o.polish then [""] else [])] ++ o.source.named

namespace Command

/-- The words that lead to a command, one or two of them. -/
def words : Command → List String
  | init => ["init"]
  | generate _ => ["generate"]
  | render _ _ => ["render"]
  | presetList => ["preset", "list"]
  | presetShow _ => ["preset", "show"]
  | presetAdd _ _ => ["preset", "add"]
  | presetDelete _ => ["preset", "delete"]
  | templateList => ["template", "list"]
  | templateShow _ => ["template", "show"]
  | templateAdd _ _ => ["template", "add"]
  | templateUpdate _ _ => ["template", "update"]
  | templateDelete _ => ["template", "delete"]
  | templateSelect _ => ["template", "select"]
  | templateReset _ => ["template", "reset"]
  | polish _ => ["polish"]

/-- The values that are given for the options of a command. -/
def named : Command → List (String × List String)
  | generate options => options.named
  | render file source => ("template", [file]) :: source.named
  | presetAdd _ source => source.named
  | templateAdd _ file => [("from", file.toList)]
  | templateUpdate _ file => [("from", [file])]
  | _ => []

/-- The operands of a command, in the order in which they are written. An id that may be left out
is one operand or none. -/
def operands : Command → List String
  | presetShow id | presetDelete id | templateUpdate id _ | templateDelete id
  | templateSelect id => [id]
  | presetAdd name _ | templateAdd name _ => [name]
  | templateShow id | templateReset id => id.toList
  | polish text => [text]
  | _ => []

/-- The files that a command names, none of which may have an empty path. -/
def paths : Command → List String
  | generate options => options.source.file.toList
  | render file source => file :: source.file.toList
  | presetAdd _ source => source.file.toList
  | templateAdd _ file => file.toList
  | templateUpdate _ file => [file]
  | _ => []

end Command

/-- The values that are given for the options of every level. -/
def Invocation.named (i : Invocation) : List (String × List String) :=
  [("data-dir", i.dataDirectory.toList), ("verbose", List.replicate i.verbosity "")]

/-- The names of the options of every level, which a run is written with in front of the words or
behind them. -/
def commonNames : List String :=
  ["data-dir", "verbose"]

/-- A run is **well formed** if no path that it names is empty and its verbosity has not grown too
far. -/
structure Invocation.IsWellFormed (i : Invocation) : Prop where
  paths : ∀ path ∈ i.dataDirectory.toList ++ i.command.paths, path ≠ ""
  verbosity : i.verbosity ≤ verbosityLimit

namespace CommandLine

/-! ### Writing options -/

/-- An option as a text: the verbosity by its letter, the wish to polish by its name, and any other
with its value. -/
def optionText (e : String × String) : String :=
  if e.1 = "verbose" then "-v"
  else if e.1 = "polish" then "--polish"
  else "--" ++ e.1 ++ "=" ++ e.2

/-! ### Levels of commands -/

/-- An option that is found by its name is one of the level and has that name. -/
theorem byName?_eq_some {g : Grammar} {name : String} {o : OptionSpec}
    (h : g.byName? name = some o) : o ∈ g.options ∧ o.name = name :=
  ⟨List.mem_of_find?_eq_some h, by simpa using List.find?_some h⟩

/-- The grammar of the program is plain, which is checked once on the grammar itself. -/
theorem isPlain_grammar : grammar.IsPlain := by
  decide

/-- The values of an option that is written with them are taken. -/
theorem takes_of_takesValue {g : Grammar} {name : String} {o : OptionSpec} {values : List String}
    (ho : g.byName? name = some o) (htakes : o.kind.takesValue = true)
    (hname : name ≠ "verbose" ∧ name ≠ "polish") (hvalues : ∀ v ∈ values, o.kind.Admits v)
    (honce : o.kind.isRepeatable = false → values.length ≤ 1) :
    g.Takes optionText (name, values) := by
  obtain ⟨hmem, rfl⟩ := byName?_eq_some ho
  refine ⟨o, hmem, rfl, fun value hvalue => ⟨hvalues value hvalue, ?_⟩, honce⟩
  obtain ⟨name, letter, kind⟩ := o
  cases kind <;> simp_all [optionText, OptionSpec.write, OptionKind.takesValue]

/-- A value that can be left out is taken. -/
theorem takes_toList {g : Grammar} {name : String} {o : OptionSpec} (value : Option String)
    (ho : g.byName? name = some o) (htakes : o.kind.takesValue = true)
    (hname : name ≠ "verbose" ∧ name ≠ "polish") (hvalue : ∀ v ∈ value.toList, o.kind.Admits v) :
    g.Takes optionText (name, value.toList) :=
  takes_of_takesValue ho htakes hname hvalue fun _ => Option.length_toList_le

/-- Values that are written without a text are taken. -/
theorem takes_replicate {g : Grammar} {name : String} {o : OptionSpec} {n : Nat}
    (ho : g.byName? name = some o) (hvalue : o.kind.Admits "")
    (hwrite : optionText (name, "") = o.write "") (honce : o.kind.isRepeatable = false → n ≤ 1) :
    g.Takes optionText (name, List.replicate n "") := by
  obtain ⟨hmem, hname⟩ := byName?_eq_some ho
  refine ⟨o, hmem, hname, fun value hmem => ?_, by simpa using honce⟩
  rw [List.eq_of_mem_replicate hmem]
  exact ⟨hvalue, hwrite⟩

end CommandLine

/-- A level with the options for the fields of a record takes their values. -/
theorem RecordSource.takes_named {s : RecordSource} {g : Grammar}
    (hrecord : g.byName? "record" = some ⟨"record", none, .path⟩)
    (hset : g.byName? "set" = some ⟨"set", none, .texts⟩)
    (hpath : ∀ path ∈ s.file.toList, path ≠ "") : ∀ e ∈ s.named, g.Takes optionText e := by
  simp only [named, List.forall_mem_cons]
  refine ⟨takes_toList _ hrecord rfl (by decide) hpath, ?_, fun e he => absurd he List.not_mem_nil⟩
  exact takes_of_takesValue hset rfl (by decide) (fun _ _ => trivial)
    (fun h => absurd h (by decide))

/-- A level with the common options takes their values. -/
theorem Invocation.takes_named {i : Invocation} {g : Grammar}
    (hdata : g.byName? "data-dir" = some ⟨"data-dir", none, .path⟩)
    (hverbose : g.byName? "verbose" = some ⟨"verbose", some 'v', .count⟩)
    (hpath : ∀ path ∈ i.dataDirectory.toList, path ≠ "") :
    ∀ e ∈ i.named, g.Takes optionText e := by
  simp only [named, List.forall_mem_cons]
  refine ⟨takes_toList _ hdata rfl (by decide) hpath, ?_, fun e he => absurd he List.not_mem_nil⟩
  exact takes_replicate hverbose rfl (by decide) (fun h => absurd h (by decide))

namespace Command

/-- The words of all commands, as one list on which facts about the grammar can be checked. -/
def allWords : List (List String) :=
  [["init"], ["generate"], ["render"], ["preset", "list"], ["preset", "show"], ["preset", "add"],
    ["preset", "delete"], ["template", "list"], ["template", "show"], ["template", "add"],
    ["template", "update"], ["template", "delete"], ["template", "select"], ["template", "reset"],
    ["polish"]]

/-- The words of a command are among those that the grammar is checked for. -/
theorem words_mem_allWords (c : Command) : c.words ∈ allWords := by
  cases c <;> simp [words, allWords]

/-- The level on which a command is given, found by its words in the grammar of the program. -/
def level (c : Command) : Grammar :=
  (grammar.follow? c.words).getD default

/-- The words of a command lead through the grammar to the level of the command. -/
theorem follow?_words (c : Command) : grammar.follow? c.words = some c.level := by
  cases c <;> rfl

/-- The level of each command is plain. -/
theorem isPlain_level (c : Command) : c.level.IsPlain := by
  have hall : ∀ words ∈ allWords, ((grammar.follow? words).getD default).IsPlain := by
    decide
  exact hall c.words c.words_mem_allWords

/-- The level that the words of a command lead to has no further words. -/
theorem words_level (c : Command) : c.level.words = [] := by
  cases c <;> rfl

/-- Every level has the two common options, of the same kind at each. -/
theorem byName?_level_common (c : Command) :
    c.level.byName? "data-dir" = some ⟨"data-dir", none, .path⟩ ∧
      c.level.byName? "verbose" = some ⟨"verbose", some 'v', .count⟩ := by
  cases c <;> exact ⟨rfl, rfl⟩

/-- A command has as many operands as its level asks for. -/
theorem length_operands (c : Command) :
    c.level.neededOperands ≤ c.operands.length ∧ c.operands.length ≤ c.level.operands := by
  cases c with
  | templateShow id | templateReset id => exact ⟨Nat.zero_le _, Option.length_toList_le⟩
  | _ => exact ⟨Nat.le_refl _, Nat.le_refl _⟩

/-- A command names what its level requires. -/
theorem lookup_required (c : Command) : ∀ name ∈ c.level.required,
    name ∉ commonNames ∧ (c.named.lookup name).getD [] ≠ [] := by
  cases c with
  | render | templateUpdate =>
      intro name hname
      rw [List.mem_singleton.mp hname]
      exact ⟨by decide, List.cons_ne_nil _ _⟩
  | _ => exact fun name hname => absurd hname List.not_mem_nil

/-- The level of a command takes the values for its options. -/
theorem takes_named (c : Command) (hpaths : ∀ path ∈ c.paths, path ≠ "") :
    ∀ e ∈ c.named, c.level.Takes optionText e := by
  cases c with
  | generate options =>
      have hsource : ∀ e ∈ options.source.named, (generate options).level.Takes optionText e :=
        RecordSource.takes_named rfl rfl hpaths
      simp only [named, MessageOptions.named, List.cons_append, List.nil_append,
        List.forall_mem_cons]
      refine ⟨takes_toList _ rfl rfl (by decide) fun _ _ => trivial,
        takes_toList _ rfl rfl (by decide) fun _ _ => trivial,
        takes_toList _ rfl rfl (by decide) fun _ _ => trivial,
        takes_toList _ rfl rfl (by decide) fun _ _ => trivial, ?_, hsource⟩
      cases options.polish with
      | true => exact takes_replicate (n := 1) rfl rfl (by decide) fun _ => Nat.le_refl 1
      | false => exact takes_replicate (n := 0) rfl rfl (by decide) fun _ => Nat.zero_le 1
  | render file source =>
      obtain ⟨hfile, hpath⟩ := List.forall_mem_cons.mp hpaths
      refine List.forall_mem_cons.mpr ⟨?_, RecordSource.takes_named rfl rfl hpath⟩
      exact takes_toList (some file) rfl rfl (by decide)
        fun value hvalue => List.mem_singleton.mp hvalue ▸ hfile
  | presetAdd name source => exact RecordSource.takes_named rfl rfl hpaths
  | templateAdd name file =>
      exact List.forall_mem_singleton.mpr (takes_toList _ rfl rfl (by decide) hpaths)
  | templateUpdate id file =>
      exact List.forall_mem_singleton.mpr
        (takes_toList (some file) rfl rfl (by decide) hpaths)
  | _ => exact fun e he => absurd he List.not_mem_nil

/-- The names of the options of a command and of every level are told apart. -/
theorem nodup_named (c : Command) (i : Invocation) : ((c.named ++ i.named).map Prod.fst).Nodup := by
  cases c <;> simp [named, MessageOptions.named, RecordSource.named, Invocation.named]

/-- A command gives no values for the common options, which belong to the run. -/
theorem lookup_named_common (c : Command) : ∀ name ∈ commonNames, c.named.lookup name = none := by
  cases c <;> simp [commonNames, named, MessageOptions.named, RecordSource.named, List.lookup]

/-- The values that stand for a command give that command. -/
theorem commandOf?_words (c : Command) {g : Given}
    (hvalues : ∀ name ∉ commonNames, g.values name = (c.named.lookup name).getD [])
    (hoperands : g.operands = c.operands) : commandOf? c.words g = some c := by
  have hvalue : ∀ name ∉ commonNames, g.value? name = ((c.named.lookup name).getD []).head? :=
    fun name hname => by rw [Given.value?, hvalues name hname]
  cases c with
  | generate o =>
      have hpolish : g.has "polish" = o.polish := by
        rw [Given.has, hvalues "polish" (by decide)]
        change (!(if o.polish then [""] else []).isEmpty) = o.polish
        cases o.polish <;> rfl
      have hsource : g.source = o.source := by
        rw [Given.source, hvalue "record" (by decide), hvalues "set" (by decide)]
        simp [named, MessageOptions.named, RecordSource.named, List.lookup]
      simp [commandOf?, words, Given.messageOptions, hpolish, hsource, hvalue, named,
        MessageOptions.named, List.lookup, commonNames]
  | _ =>
      simp [commandOf?, words, hoperands, operands, Given.source, hvalue, hvalues, named,
        RecordSource.named, List.lookup, commonNames]

end Command

namespace CommandLine

/-! ### Innermost levels -/

/-- The values of an option on the innermost level on which it stands. -/
def innermostValues (levels : List Given) (name : String) : List String :=
  (innermost? levels name).elim [] (·.values name)

/-- Of two levels that give values for an option, the inner one counts. -/
theorem innermostValues_append (levels : List Given) (inner : Given) (name : String) :
    innermostValues (levels ++ [inner]) name =
      if inner.values name = [] then innermostValues levels name else inner.values name := by
  have hinner : innermost? (levels ++ [inner]) name =
      if inner.has name then some inner else innermost? levels name := by
    rw [innermost?, List.reverse_append, List.reverse_singleton, List.singleton_append,
      List.find?_cons]
    cases inner.has name <;> rfl
  rw [innermostValues, hinner, innermostValues, Given.has]
  cases h : inner.values name <;> simp [h]

/-- The values stand on the last level or, if they do not, on the first. -/
theorem innermostValues_ends (front inner : Given) (n : Nat) (name : String) :
    innermostValues (front :: (List.replicate n .empty ++ [inner])) name =
      if inner.values name = [] then front.values name else inner.values name := by
  have hfront : innermostValues (front :: List.replicate n .empty) name = front.values name := by
    induction n with
    | zero => exact (innermostValues_append [] front name).trans (by split <;> simp [*]; rfl)
    | succ n ih =>
        rw [List.replicate_succ', ← List.cons_append, innermostValues_append, ih]
        exact if_pos rfl
  rw [← List.cons_append, innermostValues_append, hfront]

/-- Arguments that are read to the levels of a command are parsed to a run of it, with the common
options taken from the innermost level that gives them. -/
theorem parse_of_read {arguments : List String} {levels : Levels} {c : Command}
    (hread : read grammar .start arguments = .ok levels)
    (hcommand : commandOf? levels.words (levels.given.getLast?.getD .empty) = some c) :
    parse arguments = .ok {
      dataDirectory := (innermostValues levels.given "data-dir").head?
      verbosity := min verbosityLimit (innermostValues levels.given "verbose").length
      command := c } := by
  simp only [parse, hread, bind, Except.bind, hcommand]
  unfold innermostValues
  cases innermost? levels.given "data-dir" <;> cases innermost? levels.given "verbose" <;> rfl

end CommandLine

/-! ### Reading what is written -/

/-- For any option that is not common, the run itself gives no values. -/
theorem Invocation.lookup_named_own (i : Invocation) : ∀ name ∉ commonNames,
    i.named.lookup name = none := by
  intro name hname
  rw [List.lookup_eq_none_iff, named, List.forall_mem_cons]
  simpa [commonNames] using hname

section

variable {c : Command} {i : Invocation} {front options : List (String × String)}
  {tail : List String}

/-- A command with its options and operands is read as its levels. -/
theorem Command.read_written (hfront : Fits grammar optionText front)
    (hoptions : Fits c.level optionText options)
    (hvalues : ∀ name ∉ commonNames,
      Given.values ⟨options, c.operands⟩ name = (c.named.lookup name).getD [])
    (htail : WrittenOperands c.operands tail) :
    read grammar .start (front.map optionText ++ (c.words ++ (options.map optionText ++ tail))) =
      .ok ⟨c.words, ⟨front, []⟩ ::
        (List.replicate (c.words.length - 1) .empty ++ [⟨options, c.operands⟩])⟩ := by
  obtain ⟨hneeded, hroom⟩ := c.length_operands
  have hrequired : ∀ name ∈ c.level.required,
      Given.has ⟨options, c.operands⟩ name = true := by
    intro name hname
    obtain ⟨hcommon, hne⟩ := c.lookup_required name hname
    simpa [Given.has, hvalues name hcommon] using hne
  have hlevel : read c.level .start (options.map optionText ++ tail) =
      .ok ⟨[], [⟨options, c.operands⟩]⟩ :=
    (read_options c.isPlain_level [] hoptions tail).trans
      (read_operands c.isPlain_level c.words_level hroom hneeded hrequired htail)
  have hwords := c.follow?_words
  obtain ⟨word, words, hcons⟩ : ∃ word words, c.words = word :: words := by
    cases c <;> exact ⟨_, _, rfl⟩
  rw [hcons] at hwords ⊢
  obtain ⟨next, hword, hwords⟩ := Option.bind_eq_some_iff.mp hwords
  refine (read_options isPlain_grammar [] hfront _).trans ?_
  rw [List.cons_append, read_word hword (read_words hwords hlevel)]
  simp

/-- A run is read from levels that give its values. -/
theorem Invocation.parse_of_values (hverbosity : i.verbosity ≤ verbosityLimit)
    (hfront : Fits grammar optionText front) (hoptions : Fits i.command.level optionText options)
    (hvalues : ∀ name ∉ commonNames,
      Given.values ⟨options, i.command.operands⟩ name = (i.command.named.lookup name).getD [])
    (hcommon : ∀ name ∈ commonNames,
      (if Given.values ⟨options, i.command.operands⟩ name = [] then Given.values ⟨front, []⟩ name
        else Given.values ⟨options, i.command.operands⟩ name) = (i.named.lookup name).getD [])
    (htail : WrittenOperands i.command.operands tail) :
    parse (front.map optionText ++ (i.command.words ++ (options.map optionText ++ tail))) =
      .ok i := by
  have hcommand : commandOf? i.command.words ((((⟨front, []⟩ : Given) ::
      (List.replicate (i.command.words.length - 1) Given.empty ++
        [⟨options, i.command.operands⟩])).getLast?).getD .empty) = some i.command := by
    rw [← List.cons_append, List.getLast?_concat]
    exact i.command.commandOf?_words hvalues rfl
  rw [parse_of_read (Command.read_written hfront hoptions hvalues htail) hcommand]
  simp only [innermostValues_ends]
  rw [hcommon "data-dir" (by decide), hcommon "verbose" (by decide)]
  obtain ⟨dataDirectory, verbosity, command⟩ := i
  simp [named, List.lookup, hverbosity]

/-- **A run that is written is the run that is read.** Its options stand in any order that leaves
those of one name as they are; the common ones stand together in front of the words or anywhere
among the options of the innermost word. -/
theorem Invocation.parse_written (hi : i.IsWellFormed)
    (htail : WrittenOperands i.command.operands tail) :
    (∀ front options, Reordered front (unfoldNamed i.named) →
      Reordered options (unfoldNamed i.command.named) →
      parse (front.map optionText ++ (i.command.words ++ (options.map optionText ++ tail))) =
        .ok i) ∧
    ∀ options, Reordered options (unfoldNamed (i.command.named ++ i.named)) →
      parse (i.command.words ++ (options.map optionText ++ tail)) = .ok i := by
  obtain ⟨hdata, hpaths⟩ := List.forall_mem_append.mp hi.paths
  have hnames := i.command.nodup_named i
  rw [List.map_append] at hnames
  have hown := i.command.takes_named hpaths
  have hinner : ∀ e ∈ i.named, i.command.level.Takes optionText e :=
    i.takes_named i.command.byName?_level_common.1 i.command.byName?_level_common.2 hdata
  constructor
  · intro front options hfront hoptions
    have hvalues : ∀ name, Given.values ⟨options, i.command.operands⟩ name =
        (i.command.named.lookup name).getD [] := fun name =>
      (hoptions.values_eq name).trans (values_unfoldNamed (List.nodup_append.mp hnames).1 name)
    refine parse_of_values hi.verbosity ?_ ?_ (fun name _ => hvalues name) ?_ htail
    · exact (Fits.unfoldNamed isPlain_grammar (List.nodup_append.mp hnames).2.1
        (i.takes_named rfl rfl hdata)).of_reordered hfront
    · exact (Fits.unfoldNamed i.command.isPlain_level (List.nodup_append.mp hnames).1
        hown).of_reordered hoptions
    · intro name hname
      rw [hvalues name, i.command.lookup_named_common name hname]
      exact (hfront.values_eq name).trans
        (values_unfoldNamed (List.nodup_append.mp hnames).2.1 name)
  · intro options hoptions
    have hvalues : ∀ name, Given.values ⟨options, i.command.operands⟩ name =
        ((i.command.named.lookup name).or (i.named.lookup name)).getD [] := fun name => by
      rw [hoptions.values_eq, values_unfoldNamed (i.command.nodup_named i), List.lookup_append]
    refine parse_of_values hi.verbosity (Fits.nil grammar) ?_ ?_ ?_ htail
    · exact (Fits.unfoldNamed i.command.isPlain_level (i.command.nodup_named i)
        (List.forall_mem_append.mpr ⟨hown, hinner⟩)).of_reordered hoptions
    · intro name hname
      rw [hvalues name, i.lookup_named_own name hname, Option.or_none]
    · intro name hname
      rw [hvalues name, i.command.lookup_named_common name hname, Option.none_or]
      split
      · rename_i hnone
        exact hnone.symm
      · rfl

/-- Values that look like options, words or nothing at all come back as they are. -/
theorem Invocation.parse_written_lookalikes :
    parse ["-v", "--data-dir=--", "-v", "generate", "--set=-v", "--polish", "--kol=", "--set=set=",
        "--contact=generate", "--record=-"] = .ok ⟨some "--", 2, .generate
          ⟨none, none, some "generate", some "", ⟨some "-", ["-v", "set="]⟩, true⟩⟩ ∧
      parse ["preset", "add", "--set=--set=a", "-v", "--data-dir=--", "-v", "--", "--help"] =
        .ok ⟨some "--", 2, .presetAdd "--help" ⟨none, ["--set=a"]⟩⟩ :=
  ⟨(parse_written (i := ⟨some "--", 2, .generate
        ⟨none, none, some "generate", some "", ⟨some "-", ["-v", "set="]⟩, true⟩⟩)
      ⟨by decide, by decide⟩ .absent).1
        [("verbose", ""), ("data-dir", "--"), ("verbose", "")]
        [("set", "-v"), ("polish", ""), ("kol", ""), ("set", "set="), ("contact", "generate"),
          ("record", "-")] (by decide) (by decide),
    (parse_written (i := ⟨some "--", 2, .presetAdd "--help" ⟨none, ["--set=a"]⟩⟩)
      ⟨by decide, by decide⟩ (.behindDashes ["--help"])).2
        [("set", "--set=a"), ("verbose", ""), ("data-dir", "--"), ("verbose", "")] (by decide)⟩

end

end Outreach
