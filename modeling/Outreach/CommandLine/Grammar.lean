/-!
# The Grammar of the Command Line

A command line is a word for a command, perhaps with a word for what to do with it, and around them
options and operands. Each level of words has a grammar: the options that it knows, its operands,
and the words for the next level.
-/

namespace Outreach.CommandLine

/-- What an option takes, how often it may be given, and whether it is answered in place of a
command. -/
inductive OptionKind where
  /-- Nothing, and once at most. -/
  | flag
  /-- Nothing; its occurrences are counted. -/
  | count
  /-- One text, once at most. -/
  | text
  /-- One path, which is not empty, once at most. -/
  | path
  /-- One text at each occurrence. -/
  | texts
  /-- Nothing; help is shown in place of all else. -/
  | help
  /-- Nothing; the version is shown in place of all else. -/
  | version
  deriving DecidableEq, Repr

/-- Whether a value belongs to an option, behind an equals sign or as the next argument. -/
def OptionKind.takesValue : OptionKind → Bool
  | text | path | texts => true
  | _ => false

/-- An **option** with its name behind two dashes and its letter behind one. -/
structure OptionSpec where
  name : String
  letter : Option Char
  kind : OptionKind
  deriving DecidableEq, Repr

/-- The **grammar** of a level: what may be given on it, and which words lead to the next one. -/
inductive Grammar where
  /-- The options, the names of those that must be given, the number of operands, the number of
  those that must be given, and the words for the next level. -/
  | level (options : List OptionSpec) (required : List String) (operands neededOperands : Nat)
      (words : List (String × Grammar))

namespace Grammar

instance : Inhabited Grammar := ⟨level [] [] 0 0 []⟩

/-- The options of a level, those of every level included. -/
def options : Grammar → List OptionSpec
  | level o _ _ _ _ => o

/-- The options that must be given, by their names. -/
def required : Grammar → List String
  | level _ r _ _ _ => r

/-- The number of operands that a level takes at most. -/
def operands : Grammar → Nat
  | level _ _ n _ _ => n

/-- The number of operands that must be given. The others may be left out. -/
def neededOperands : Grammar → Nat
  | level _ _ _ n _ => n

/-- The words for the next level, each with its grammar. -/
def words : Grammar → List (String × Grammar)
  | level _ _ _ _ w => w

/-- Whether a word for the next level has to follow, which is so wherever there are any. -/
def wantsWord (g : Grammar) : Bool :=
  !g.words.isEmpty

/-- The option with a name, as it is given behind two dashes. -/
def byName? (g : Grammar) (name : String) : Option OptionSpec :=
  g.options.find? (·.name == name)

/-- The option with a letter, as it is given behind one dash. -/
def byLetter? (g : Grammar) (letter : Char) : Option OptionSpec :=
  g.options.find? (·.letter == some letter)

/-- The word that asks for help about the words behind it, on every level that has words. -/
def helpWord : String := "help"

/-- Whether a text is a word for the next level, or the one that asks for help. -/
def isWord (g : Grammar) (text : String) : Bool :=
  g.wantsWord && (text == helpWord || (g.words.lookup text).isSome)

end Grammar

/-! ### The grammar of the program -/

/-- The options of every level: data directory, verbosity, help and version. -/
def commonOptions : List OptionSpec :=
  [⟨"data-dir", none, .path⟩, ⟨"verbose", some 'v', .count⟩, ⟨"help", some 'h', .help⟩,
    ⟨"version", some 'V', .version⟩]

/-- The options for the fields of a record: a file, and assignments that may be repeated. -/
def recordOptions : List OptionSpec :=
  [⟨"record", none, .path⟩, ⟨"set", none, .texts⟩]

/-- A level with operands and no further words, at which a command is complete. -/
def leaf (options : List OptionSpec) (required : List String) (operands needed : Nat) : Grammar :=
  .level (options ++ commonOptions) required operands needed []

/-- A level that only leads to others. It takes the common options and no operands. -/
def branch (words : List (String × Grammar)) : Grammar :=
  .level commonOptions [] 0 0 words

/-- The grammar of the program: six words at its first level, two of which lead to a second one. -/
def grammar : Grammar :=
  branch
    [("init", leaf [] [] 0 0),
     ("generate", leaf
       ([⟨"preset", some 'p', .text⟩, ⟨"template", some 't', .text⟩, ⟨"contact", none, .text⟩,
         ⟨"kol", none, .text⟩, ⟨"polish", none, .flag⟩] ++ recordOptions) [] 0 0),
     ("render", leaf (⟨"template", some 't', .path⟩ :: recordOptions) ["template"] 0 0),
     ("preset", branch
       [("list", leaf [] [] 0 0),
        ("show", leaf [] [] 1 1),
        ("add", leaf recordOptions [] 1 1),
        ("delete", leaf [] [] 1 1)]),
     ("template", branch
       [("list", leaf [] [] 0 0),
        ("show", leaf [] [] 1 0),
        ("add", leaf [⟨"from", none, .path⟩] [] 1 1),
        ("update", leaf [⟨"from", none, .path⟩] ["from"] 1 1),
        ("delete", leaf [] [] 1 1),
        ("select", leaf [] [] 1 1),
        ("reset", leaf [] [] 1 0)]),
     ("polish", leaf [] [] 1 1)]

end Outreach.CommandLine
