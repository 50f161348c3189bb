import Outreach.Yaml.Node
import Outreach.Yaml.Scan

/-!
# From Tokens to Nodes

The tokens of a text are read as at most one document. Where a node may be left out, the next token
tells whether it is.
-/

namespace Outreach.Yaml

/-- The full names that the handles of tags stand for, the latest declaration first. -/
abbrev Handles := List (List Char × Bytes)

/-- The handles that every document has, unless a directive says otherwise. -/
def standardHandles : Handles :=
  [("!".toList, bytesOf "!"), ("!!".toList, bytesOf "tag:yaml.org,2002:")]

/-- The full name of a tag, if its handle is known. -/
def Handles.resolve? (hs : Handles) (t : TagSpelling) : Option Bytes :=
  if t.handle = [] then some t.suffix
  else (hs.lookup t.handle).map (· ++ t.suffix)

/-- A node with names for anchors, as it is read, before they are numbered. -/
abbrev Tree := Node (List Char)

/-- Where a node is read, which tells what may stand there. -/
inductive NodePlace where
  /-- In a block collection. A sequence in a mapping need not be indented. -/
  | block (indentless : Bool)
  /-- Within brackets. -/
  | flow
  deriving DecidableEq, Repr

/-- The properties at the front of tokens, in either order, with the rest. -/
def readProperties? (hs : Handles) : List Token → Option (Properties (List Char) × List Token)
  | .anchor a :: .tag t :: ts => (hs.resolve? t).map fun tag => (⟨some a, some tag⟩, ts)
  | .tag t :: .anchor a :: ts => (hs.resolve? t).map fun tag => (⟨some a, some tag⟩, ts)
  | .anchor a :: ts => some (⟨some a, none⟩, ts)
  | .tag t :: ts => (hs.resolve? t).map fun tag => (⟨none, some tag⟩, ts)
  | ts => some (.empty, ts)

/-- What ends a node that is left out in a block sequence. -/
def endsBlockEntry : List Token → Bool
  | .blockEntry :: _ | .blockEnd :: _ => true
  | _ => false

/-- What ends a node that is left out in a sequence that is not indented. -/
def endsIndentlessEntry : List Token → Bool
  | .blockEntry :: _ | .key :: _ | .value :: _ | .blockEnd :: _ => true
  | _ => false

/-- What ends a key or value that is left out in a block mapping. -/
def endsBlockPart : List Token → Bool
  | .key :: _ | .value :: _ | .blockEnd :: _ => true
  | _ => false

/-- What ends a key that is left out in a flow mapping. -/
def endsFlowKey : List Token → Bool
  | .value :: _ | .flowEntry :: _ | .flowMappingEnd :: _ => true
  | _ => false

/-- What ends a value that is left out in a flow mapping. -/
def endsFlowValue : List Token → Bool
  | .flowEntry :: _ | .flowMappingEnd :: _ => true
  | _ => false

/-- What ends a key that is left out in an entry of a flow sequence. -/
def endsPairKey : List Token → Bool
  | .value :: _ | .flowEntry :: _ | .flowSequenceEnd :: _ => true
  | _ => false

/-- What ends a value that is left out in an entry of a flow sequence. -/
def endsPairValue : List Token → Bool
  | .flowEntry :: _ | .flowSequenceEnd :: _ => true
  | _ => false

mutual

/-- A node, with the tokens behind it. The number bounds the steps. -/
def readNode? (hs : Handles) (steps : Nat) (place : NodePlace) (ts : List Token) :
    Option (Tree × List Token) :=
  match steps with
  | 0 => none
  | steps + 1 =>
    match ts with
    | .repeated name :: ts => some (.repeated name, ts)
    | _ => do
      let (props, ts) ← readProperties? hs ts
      match place, ts with
      | .block true, .blockEntry :: _ =>
        let (items, ts) ← readIndentless? hs steps ts
        return (.sequence props items, ts)
      | _, .scalar style text :: ts => return (.scalar props style text, ts)
      | _, .flowSequenceStart :: ts =>
        let (items, ts) ← readFlowSequence? hs steps true ts
        return (.sequence props items, ts)
      | _, .flowMappingStart :: ts =>
        let (entries, ts) ← readFlowMapping? hs steps true ts
        return (.mapping props entries, ts)
      | .block _, .blockSequenceStart :: ts =>
        let (items, ts) ← readBlockSequence? hs steps ts
        return (.sequence props items, ts)
      | .block _, .blockMappingStart :: ts =>
        let (entries, ts) ← readBlockMapping? hs steps ts
        return (.mapping props entries, ts)
      | _, _ => if props = .empty then none else return (.scalar props .plain [], ts)

/-- A node that may be left out, with the tokens behind it. -/
def readOptional? (hs : Handles) (steps : Nat) (place : NodePlace) (isLeftOut : List Token → Bool)
    (ts : List Token) : Option (Tree × List Token) :=
  match steps with
  | 0 => none
  | steps + 1 => if isLeftOut ts then some (.empty, ts) else readNode? hs steps place ts

/-- The further items of a block sequence, and the tokens behind its end. -/
def readBlockSequence? (hs : Handles) (steps : Nat) (ts : List Token) :
    Option (List Tree × List Token) :=
  match steps with
  | 0 => none
  | steps + 1 =>
    match ts with
    | .blockEntry :: ts => do
      let (item, ts) ← readOptional? hs steps (.block false) endsBlockEntry ts
      let (items, ts) ← readBlockSequence? hs steps ts
      return (item :: items, ts)
    | .blockEnd :: ts => some ([], ts)
    | _ => none

/-- The further items of a sequence that is not indented, which ends where no dash follows. -/
def readIndentless? (hs : Handles) (steps : Nat) (ts : List Token) :
    Option (List Tree × List Token) :=
  match steps with
  | 0 => none
  | steps + 1 =>
    match ts with
    | .blockEntry :: ts => do
      let (item, ts) ← readOptional? hs steps (.block false) endsIndentlessEntry ts
      let (items, ts) ← readIndentless? hs steps ts
      return (item :: items, ts)
    | _ => some ([], ts)

/-- The further entries of a block mapping, and the tokens behind its end. -/
def readBlockMapping? (hs : Handles) (steps : Nat) (ts : List Token) :
    Option (List (Tree × Tree) × List Token) :=
  match steps with
  | 0 => none
  | steps + 1 =>
    match ts with
    | .key :: ts => do
      let (key, ts) ← readOptional? hs steps (.block true) endsBlockPart ts
      let (value, ts) ←
        match ts with
        | .value :: ts => readOptional? hs steps (.block true) endsBlockPart ts
        | _ => some (.empty, ts)
      let (entries, ts) ← readBlockMapping? hs steps ts
      return ((key, value) :: entries, ts)
    | .blockEnd :: ts => some ([], ts)
    | _ => none

/-- The further items of a flow sequence, and the tokens behind its end. An item with a colon is a
mapping of one entry; if its key is left out, the token behind it is passed over. -/
def readFlowSequence? (hs : Handles) (steps : Nat) (first : Bool) (ts : List Token) :
    Option (List Tree × List Token) :=
  match steps with
  | 0 => none
  | steps + 1 =>
    match ts with
    | .flowSequenceEnd :: ts => some ([], ts)
    | _ => do
      let ts ←
        match first, ts with
        | true, ts => some ts
        | false, .flowEntry :: ts => some ts
        | false, _ => none
      match ts with
      | .flowSequenceEnd :: ts => return ([], ts)
      | .key :: ts =>
        let (key, ts) ←
          if endsPairKey ts then some (Node.empty, ts.drop 1) else readNode? hs steps .flow ts
        let (value, ts) ←
          match ts with
          | .value :: ts => readOptional? hs steps .flow endsPairValue ts
          | _ => some (.empty, ts)
        let (items, ts) ← readFlowSequence? hs steps false ts
        return (.mapping .empty [(key, value)] :: items, ts)
      | ts =>
        let (item, ts) ← readNode? hs steps .flow ts
        let (items, ts) ← readFlowSequence? hs steps false ts
        return (item :: items, ts)

/-- The further entries of a flow mapping, and the tokens behind its end. An entry without a colon
is a key alone. -/
def readFlowMapping? (hs : Handles) (steps : Nat) (first : Bool) (ts : List Token) :
    Option (List (Tree × Tree) × List Token) :=
  match steps with
  | 0 => none
  | steps + 1 =>
    match ts with
    | .flowMappingEnd :: ts => some ([], ts)
    | _ => do
      let ts ←
        match first, ts with
        | true, ts => some ts
        | false, .flowEntry :: ts => some ts
        | false, _ => none
      match ts with
      | .flowMappingEnd :: ts => return ([], ts)
      | .key :: ts =>
        let (key, ts) ← readOptional? hs steps .flow endsFlowKey ts
        let (value, ts) ←
          match ts with
          | .value :: ts => readOptional? hs steps .flow endsFlowValue ts
          | _ => some (.empty, ts)
        let (entries, ts) ← readFlowMapping? hs steps false ts
        return ((key, value) :: entries, ts)
      | ts =>
        let (key, ts) ← readNode? hs steps .flow ts
        let (entries, ts) ← readFlowMapping? hs steps false ts
        return ((key, .empty) :: entries, ts)

end

/-- The directives at the front of tokens, with the rest. There may be none. -/
def readDirectives : List Token → List Directive × List Token
  | .directive d :: ts =>
    let (ds, rest) := readDirectives ts
    (d :: ds, rest)
  | ts => ([], ts)

/-- Whether a version can be read: 1.1 and 1.2 only. Other directives have no version. -/
def isKnownVersion : Directive → Bool
  | .version major minor => major == 1 && (minor == 1 || minor == 2)
  | .tag .. => true

/-- The handles that directives declare. A version may be given once, each handle may be declared
once, and the standard handles may be declared anew. -/
def handlesOf? (ds : List Directive) : Option Handles :=
  let handles := ds.filterMap fun
    | .tag handle name => some (handle, name)
    | .version .. => none
  let names := handles.map Prod.fst
  if 1 < ds.length - handles.length || !ds.all isKnownVersion || !decide names.Nodup then none
  else some (handles ++ standardHandles)

/-- Whether a document ends in front of tokens: at a mark of its bounds, a directive, or the end
of all. -/
def endsDocument : List Token → Bool
  | [] => true
  | .directive _ :: _ | .documentStart :: _ | .documentEnd :: _ => true
  | _ => false

/-- The root of the one document that tokens hold; no root if they hold none. -/
def rootOf? (ts : List Token) : Option (Option Tree) :=
  match ts with
  | [] => some none
  | _ => do
    let (ds, rest) := readDirectives ts
    let handles ← handlesOf? ds
    let isMarked := rest.head? == some .documentStart
    if !ds.isEmpty && !isMarked then none
    else
      let rest := if isMarked then rest.drop 1 else rest
      let steps := 4 * rest.length + 4
      let (root, rest) ←
        if isMarked && endsDocument rest then some (Node.empty, rest)
        else readNode? handles steps (.block false) rest
      if rest.all (· == .documentEnd) then return some root else none

end Outreach.Yaml
