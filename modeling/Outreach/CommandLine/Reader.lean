import Outreach.CommandLine.Grammar

/-!
# Reading a Command Line

The arguments are read from left to right. An option whose value is the next argument stays open
until something else comes; only then is it entered, so a fault in it shows after a fault in what
closes it. After two dashes alone all arguments are operands.
-/

namespace Outreach.CommandLine

/-- Why a command line gives no command. Asking for help or for the version is one of the reasons.
-/
inductive UsageError where
  | unknownArgument
  | invalidSubcommand
  | missingRequiredArgument
  | missingSubcommand
  | invalidValue
  | argumentConflict
  | tooManyValues
  /-- Help was asked for. -/
  | helpShown
  /-- Nothing was given where a word has to stand, so help is shown. -/
  | helpInsteadOfCommand
  /-- The version was asked for. -/
  | versionShown
  deriving DecidableEq, Repr

/-- The exit code of a process that ends like this. Only what was asked for is a success. -/
def UsageError.exitCode : UsageError → Nat
  | helpShown => 0
  | versionShown => 0
  | _ => 2

/-- What has been given on one level: the options in order, each with its value, and the
operands. -/
structure Given where
  options : List (String × String)
  operands : List String
  deriving DecidableEq, Repr

namespace Given

/-- A level on which nothing has been given. -/
def empty : Given := ⟨[], []⟩

/-- The values of an option, in the order in which they were given. -/
def values (g : Given) (name : String) : List String :=
  (g.options.filter (·.1 == name)).map Prod.snd

/-- Whether an option has been given, with a value or without. -/
def has (g : Given) (name : String) : Bool :=
  !(g.values name).isEmpty

/-- The value of an option that can be given once, if it has been given. -/
def value? (g : Given) (name : String) : Option String :=
  (g.values name).head?

/-- How often an option has been given on the level. -/
def count (g : Given) (name : String) : Nat :=
  (g.values name).length

/-- Enter options of one name behind those that have been given. -/
def add (g : Given) (name : String) (values : List String) : Given :=
  { g with options := g.options ++ values.map (name, ·) }

/-- Enter an option with the values that were given for it, if its kind admits them and it may be
given again. -/
def enter (g : Given) (o : OptionSpec) (values : List String) : Except UsageError Given :=
  match o.kind with
  | .help => .error .helpShown
  | .version => .error .versionShown
  | .count => .ok (g.add o.name [""])
  | .flag => if g.has o.name then .error .argumentConflict else .ok (g.add o.name [""])
  | kind =>
    if values.isEmpty then .error .invalidValue
    else if kind != .texts && g.has o.name then .error .argumentConflict
    else if kind == .path && values.contains "" then .error .invalidValue
    else .ok (g.add o.name values)

end Given

/-- A level that is being read, argument by argument. -/
structure Reading where
  given : Given
  /-- The option that stays open, with its value once that has come. -/
  pending : Option (OptionSpec × Option String)
  /-- Whether two dashes have been passed. -/
  trailing : Bool

namespace Reading

/-- Nothing has been read of a level. -/
def start : Reading := ⟨.empty, none, false⟩

/-- Whether the next argument can be the value of an option, because one stays open without it. -/
def awaitsValue (r : Reading) : Bool :=
  match r.pending with
  | some (_, none) => true
  | _ => false

/-- Enter the option that stays open, with the value that has come for it, if any. -/
def close (r : Reading) : Except UsageError Reading :=
  match r.pending with
  | none => .ok r
  | some (o, value) => do
    let given ← r.given.enter o value.toList
    return { r with given, pending := none }

/-- Enter an option that is complete, once the one that stays open has been entered. -/
def enter (r : Reading) (o : OptionSpec) (values : List String) : Except UsageError Reading := do
  let r ← r.close
  let given ← r.given.enter o values
  return { r with given }

/-- Go on with an option that may wait for its value, unless one is attached to it. -/
def option (r : Reading) (o : OptionSpec) (attached : Option String) : Except UsageError Reading :=
  match attached with
  | some value => r.enter o [value]
  | none =>
    if o.kind.takesValue then do
      let r ← r.close
      return { r with pending := some (o, none) }
    else r.enter o []

/-- An operand, if the grammar has room for one more. What is left over is blamed on the words of
the next level if there are any, but not if it is one of them behind two dashes. -/
def operand (g : Grammar) (r : Reading) (text : String) : Except UsageError Reading :=
  if r.given.operands.length < g.operands then do
    let r ← r.close
    return { r with given := { r.given with operands := r.given.operands ++ [text] } }
  else if !g.wantsWord || (r.trailing && g.isWord text) then .error .unknownArgument
  else .error .invalidSubcommand

/-- An option by its name, perhaps with a value behind an equals sign. -/
def named (g : Grammar) (r : Reading) (cs : List Char) : Except UsageError Reading :=
  let name := cs.takeWhile (· != '=')
  let attached := (cs.dropWhile (· != '=')).tail?.map String.ofList
  match g.byName? (String.ofList name) with
  | none => .error .unknownArgument
  | some o =>
    if attached.isSome && !o.kind.takesValue then .error .tooManyValues
    else r.option o attached

/-- Options by their letters. What follows the letter of an option that takes a value is the value,
an equals sign in front of it aside. -/
def lettered (g : Grammar) (r : Reading) : List Char → Except UsageError Reading
  | [] => .ok r
  | c :: cs =>
    match g.byLetter? c with
    | none => .error .unknownArgument
    | some o =>
      if o.kind.takesValue then
        r.option o <|
          match cs with
          | [] => none
          | '=' :: value => some (String.ofList value)
          | value => some (String.ofList value)
      else do
        let r ← r.enter o []
        lettered g r cs

/-- An argument that is no word for the next level: dashes tell options from operands, until two
dashes alone have passed. -/
def argument (g : Grammar) (r : Reading) (text : String) : Except UsageError Reading :=
  if r.trailing then r.operand g text
  else
    match text.toList with
    | ['-', '-'] => .ok { r with trailing := true }
    | '-' :: '-' :: cs => r.named g cs
    | '-' :: c :: cs => r.lettered g (c :: cs)
    | _ =>
      match r.pending with
      | some (o, none) => .ok { r with pending := some (o, some text) }
      | _ => r.operand g text

/-- The end of a level without a further word. What is missing is reported here. -/
def finish (g : Grammar) (r : Reading) : Except UsageError Given := do
  let r ← r.close
  if g.wantsWord then
    throw (if r.given.options.isEmpty then .helpInsteadOfCommand else .missingSubcommand)
  else if r.given.operands.length < g.neededOperands || !g.required.all r.given.has then
    throw .missingRequiredArgument
  else return r.given

end Reading

/-- The answer to the word for help: help about a command that the words behind it lead to. The word
for help is known on every level that has words, and leads to none. -/
def help (g : Grammar) : List String → UsageError
  | [] => .helpShown
  | text :: texts =>
    match g.words.lookup text with
    | some g => help g texts
    | none =>
      if g.wantsWord && text == Grammar.helpWord && texts.isEmpty then .helpShown
      else .invalidSubcommand

/-- What is given on each level, the outermost first, with the words between them. -/
structure Levels where
  words : List String
  given : List Given
  deriving DecidableEq, Repr

/-- Read the arguments of a level and those further in. A word for the next level is one only where
no option waits for its value. -/
def read (g : Grammar) (r : Reading) : List String → Except UsageError Levels
  | [] => do return ⟨[], [← r.finish g]⟩
  | text :: texts =>
    if !r.trailing && !r.awaitsValue && g.isWord text then
      match g.words.lookup text with
      | none => .error (help g texts)
      | some inner => do
        let levels ← read inner .start texts
        let r ← r.close
        return ⟨text :: levels.words, r.given :: levels.given⟩
    else do
      let r ← r.argument g text
      read g r texts

end Outreach.CommandLine
