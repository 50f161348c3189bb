import Outreach.Yaml.Document
import Outreach.Yaml.Scalar.Resolve

/-!
# YAML Values

The value of a node: plain scalars mean what they spell, tags force or change a meaning, and aliases
stand for the nodes they repeat. Repetition is limited, and so is nesting; no mapping has two equal
keys.
-/

namespace Outreach.Yaml

/-- A **value**: a node with its anchors followed and its scalars resolved. -/
inductive Value where
  | null
  | bool (b : Bool)
  | number (n : Number)
  | string (text : List Char)
  | sequence (items : List Value)
  | mapping (entries : List (Value × Value))
  /-- A value under a name of its own. -/
  | tagged (name : Bytes) (value : Value)

namespace Value

instance : Inhabited Value := ⟨null⟩

/-- Whether two numbers are equal. The two zeros are, and what is not a number equals itself. -/
def sameNumber : Number → Number → Bool
  | .float (.finite _ 0 _), .float (.finite _ 0 _) => true
  | a, b => a == b

mutual

/-- Whether two values are equal. The order of the entries of a mapping does not count. -/
def same : Value → Value → Bool
  | null, null => true
  | bool a, bool b => a == b
  | number a, number b => sameNumber a b
  | string a, string b => a == b
  | sequence as, sequence bs => sameItems as bs
  | mapping as, mapping bs => as.length == bs.length && allIn as bs
  | tagged a x, tagged b y => a == b && x.same y
  | _, _ => false

/-- Whether two lists of values are equal place by place, and of one length. -/
def sameItems : List Value → List Value → Bool
  | [], [] => true
  | a :: as, b :: bs => a.same b && sameItems as bs
  | _, _ => false

/-- Whether every entry of the first list is one of the second. -/
def allIn : List (Value × Value) → List (Value × Value) → Bool
  | [], _ => true
  | (k, v) :: as, bs => bs.any (fun b => k.same b.1 && v.same b.2) && allIn as bs

end

end Value

/-- A step of reading a document, which may fail. The number counts the aliases that have been
followed. -/
abbrev Following := StateT Nat Option

/-- Every mark of a document may be repeated so often, which bounds the size of its value. -/
def repetitionLimit : Nat := 100

/-- Collections nest at most so deep, with those that are repeated counted where they stand. -/
def nestingLimit : Nat := 128

/-- The name that the core tags start with, and one of them behind it. -/
def coreTag (name : String) : Bytes :=
  bytesOf ("tag:yaml.org,2002:" ++ name)

/-- A name without the exclamation mark at its front, unless it is nothing else. -/
def dropMark : Bytes → Bytes
  | [] => []
  | [mark] => [mark]
  | mark :: name => if mark = 0x21 then name else mark :: name

/-- The name that a tag gives a value of its own kind: such a tag starts with an exclamation mark
and is a text. Up to two marks at the front do not count, unless nothing else is left. -/
def ownName? (tag : Option Bytes) : Option Bytes :=
  match tag with
  | some tag =>
    if tag.head? = some 0x21 && (String.fromUTF8? ⟨tag.toArray⟩).isSome then
      some (dropMark (dropMark tag))
    else none
  | none => none

/-- The value of a meaning of a text. What means nothing else is the text itself. -/
def Meaning.value (text : List Char) : Meaning → Value
  | .null => .null
  | .bool b => .bool b
  | .number n => .number n
  | .text => .string text

/-- The value of a plain scalar, by what its text means. `none` for a number that is too large to
be kept. -/
def plainValue? (text : List Char) : Option Value :=
  (meaningOf? text).map (·.value text)

/-- The value of a scalar with a tag of no own name. The core tags force a meaning; under any other
tag a scalar is a text. -/
def scalarValue? (tag : Option Bytes) (style : ScalarStyle) (text : List Char) : Option Value :=
  match tag with
  | none => if style = .plain then plainValue? text else some (.string text)
  | some tag =>
    if tag = coreTag "bool" then (boolOf? text).map .bool
    else if tag = coreTag "int" then ((integerOf? text).bind id).map .number
    else if tag = coreTag "float" then (floatOf? text).map .number
    else if tag = coreTag "null" then (if isNull text then some .null else none)
    else if tag.head? = some 0x21 && style = .plain then plainValue? text
    else some (.string text)

namespace Document

/-- The node that a node stands for. Following an alias counts as a repetition. -/
def follow (d : Document) (node : Node Nat) : Following (Node Nat) :=
  match node with
  | .repeated n => do
    let count ← get
    if repetitionLimit * d.weight ≤ count then failure
    else
      set (count + 1)
      StateT.lift (d.anchored.lookup n)
  | node => pure node

/-- Entries of a mapping one by one, each with the value of its key and then its own; equal keys are
refused. -/
def entriesWith (value : Node Nat → Following Value) :
    List (Value × Value) → List (Node Nat × Node Nat) → Following (List (Value × Value))
  | before, [] => pure before.reverse
  | before, (k, v) :: entries => do
    let key ← value k
    if before.any (·.1.same key) then failure
    else
      let item ← value v
      entriesWith value ((key, item) :: before) entries

/-- The value of a node, given the values of the nodes that a collection holds; without them a
collection has none. -/
def valueWith (d : Document) (inner : Option (Node Nat → Following Value)) (node : Node Nat) :
    Following Value := do
  let node ← d.follow node
  let name := ownName? node.props.tag
  let wrap (v : Value) : Value := name.elim v (.tagged · v)
  match node, inner with
  | .scalar p style text, _ =>
    let tag := if name.isSome then none else p.tag
    return wrap (← StateT.lift (scalarValue? tag style text))
  | .sequence _ items, some value => return wrap (.sequence (← items.mapM value))
  | .mapping _ entries, some value => return wrap (.mapping (← entriesWith value [] entries))
  | _, _ => failure

/-- The value of a node under which collections may nest `depth` deep. -/
def value (d : Document) : Nat → Node Nat → Following Value
  | 0 => d.valueWith none
  | depth + 1 => d.valueWith (some (d.value depth))

/-- The text of a scalar, whatever its tag, with an anchor followed. -/
def scalarText (d : Document) (node : Node Nat) : Following (List Char) := do
  match ← d.follow node with
  | .scalar _ _ text => return text
  | _ => failure

/-- Whether a root can be left out: a plain scalar without text, or nothing. -/
def isLeftOut : Option (Node Nat) → Bool
  | none => true
  | some (.scalar _ .plain []) => true
  | _ => false

/-- The entries of the mapping that a document is, with texts for keys. -/
def topEntries (d : Document) : Following (List (List Char × Value)) :=
  match d.root with
  | some (.mapping _ entries) =>
    entries.mapM fun (k, v) => do return (← d.scalarText k, ← d.value (nestingLimit - 1) v)
  | root => if isLeftOut root then pure [] else failure

end Document

end Outreach.Yaml
