import Outreach.Yaml.Grammar

/-!
# YAML Documents

In a document every anchor has a number. A name may be given to several nodes; an alias repeats the
one that had it last. The number of an anchor counts the different names so far, so a name that is
given anew may share its number with the next one; the number then stands for the later node.
-/

namespace Outreach.Yaml

/-- The numbers of the anchors so far, by name. A name that is used again stands for its latest
anchor. -/
abbrev AnchorNumbers := List (List Char × Nat)

/-- The number for an anchor, and all numbers so far. A node without an anchor gets none. -/
def AnchorNumbers.declare (ns : AnchorNumbers) : Option (List Char) → Option Nat × AnchorNumbers
  | none => (none, ns)
  | some name => (some ns.length, (name, ns.length) :: ns.filter (·.1 != name))

mutual

/-- A tree with numbers for the names of its anchors. It fails on an alias of no anchor. -/
def number? (ns : AnchorNumbers) : Tree → Option (Node Nat × AnchorNumbers)
  | .scalar p style text =>
    let (anchor, ns) := ns.declare p.anchor
    some (.scalar ⟨anchor, p.tag⟩ style text, ns)
  | .sequence p items => do
    let (anchor, ns) := ns.declare p.anchor
    let (items, ns) ← numberItems? ns items
    return (.sequence ⟨anchor, p.tag⟩ items, ns)
  | .mapping p entries => do
    let (anchor, ns) := ns.declare p.anchor
    let (entries, ns) ← numberEntries? ns entries
    return (.mapping ⟨anchor, p.tag⟩ entries, ns)
  | .repeated name => (ns.lookup name).map fun n => (.repeated n, ns)

/-- The items of a sequence with numbers for the names of their anchors. -/
def numberItems? (ns : AnchorNumbers) : List Tree → Option (List (Node Nat) × AnchorNumbers)
  | [] => some ([], ns)
  | item :: items => do
    let (item, ns) ← number? ns item
    let (items, ns) ← numberItems? ns items
    return (item :: items, ns)

/-- The entries of a mapping with numbers for the names of their anchors. -/
def numberEntries? (ns : AnchorNumbers) :
    List (Tree × Tree) → Option (List (Node Nat × Node Nat) × AnchorNumbers)
  | [] => some ([], ns)
  | (key, value) :: entries => do
    let (key, ns) ← number? ns key
    let (value, ns) ← number? ns value
    let (entries, ns) ← numberEntries? ns entries
    return ((key, value) :: entries, ns)

end

/-- A **document**: its root, the nodes that can be repeated, and a measure for how often. -/
structure Document where
  /-- The root; a text of comments alone has none. -/
  root : Option (Node Nat)
  /-- The nodes with anchors, the last one first. -/
  anchored : List (Nat × Node Nat)
  /-- The size of the document, by which repetitions are limited. -/
  weight : Nat

namespace Document

/-- The document of a root, with its anchored nodes collected and its size counted. -/
def ofRoot (root : Option (Node Nat)) : Document :=
  let nodes := root.elim [] Node.nodes
  { root
    anchored := (nodes.filterMap fun n => n.props.anchor.map (·, n)).reverse
    weight := nodes.foldl (fun weight n => weight + n.weight) 0 }

/-- The document of a text, if it is one. A text of blanks and comments alone is a document
without a root. -/
def ofText? (text : String) : Option Document := do
  match ← rootOf? (← tokens? text.toList) with
  | none => return ofRoot none
  | some tree => return ofRoot (some (← number? [] tree).1)

/-- The node that a node stands for: itself, or the one with its anchor. -/
def follow? (d : Document) : Node Nat → Option (Node Nat)
  | .repeated n => d.anchored.lookup n
  | node => some node

end Document

end Outreach.Yaml
