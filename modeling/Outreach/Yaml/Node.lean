import Outreach.Yaml.Token

/-!
# YAML Nodes

A document is a tree of scalars, sequences and mappings. A node may carry a tag, and an anchor by
which later nodes repeat it. Anchors are names at first; later they are numbers.
-/

namespace Outreach.Yaml

/-- The **properties** of a node: its anchor, and the full name of its tag. -/
structure Properties (ρ : Type) where
  anchor : Option ρ
  tag : Option Bytes
  deriving DecidableEq, Repr

/-- No properties: neither an anchor nor a tag. -/
def Properties.empty {ρ : Type} : Properties ρ := ⟨none, none⟩

/-- A **node**, with anchors of type `ρ`: names while it is read, numbers in a document. -/
inductive Node (ρ : Type) where
  | scalar (props : Properties ρ) (style : ScalarStyle) (text : List Char)
  | sequence (props : Properties ρ) (items : List (Node ρ))
  | mapping (props : Properties ρ) (entries : List (Node ρ × Node ρ))
  /-- The node with an anchor once more. -/
  | repeated (anchor : ρ)

namespace Node

variable {ρ : Type}

/-- The plain scalar without text, which stands where a node is left out. -/
def empty : Node ρ :=
  scalar .empty .plain []

instance : Inhabited (Node ρ) := ⟨empty⟩

/-- The properties of a node; a repeated one has none of its own. -/
def props : Node ρ → Properties ρ
  | scalar p _ _ => p
  | sequence p _ => p
  | mapping p _ => p
  | repeated _ => .empty

mutual

/-- The nodes of a tree, each in front of what it holds. -/
def nodes : Node ρ → List (Node ρ)
  | sequence p items => sequence p items :: nodesOfItems items
  | mapping p entries => mapping p entries :: nodesOfEntries entries
  | node => [node]

/-- The nodes of the items of a sequence, each item before those within it. -/
def nodesOfItems : List (Node ρ) → List (Node ρ)
  | [] => []
  | item :: items => item.nodes ++ nodesOfItems items

/-- The nodes of the keys and values of a mapping, in the order in which they stand. -/
def nodesOfEntries : List (Node ρ × Node ρ) → List (Node ρ)
  | [] => []
  | (key, value) :: entries => key.nodes ++ value.nodes ++ nodesOfEntries entries

end

/-- What a node adds to the size of a document: a collection has a start and an end. -/
def weight : Node ρ → Nat
  | sequence .. => 2
  | mapping .. => 2
  | _ => 1

end Node

end Outreach.Yaml
