import PropDoc.Syntax.Node

/-!
# Outlines of syntax trees

An outline lists the nodes of a tree in pre-order, each with its depth. It is how a tree is handed
over by a parser: the parent of a node is the nearest earlier one whose depth is one less.
-/

namespace PropDoc.Syntax

/-- The nodes of a tree in pre-order with their depths. -/
abbrev Outline := List (Nat × Label)

namespace Outline

/-- Put a node before later trees: those that lie deeper become its children. -/
def adopt (entry : Nat × Label) (later : List (Nat × Node)) : List (Nat × Node) :=
  let deeper := later.takeWhile fun tree ↦ decide (entry.1 < tree.1)
  (entry.1, .mk entry.2 (deeper.map Prod.snd)) ::
    later.dropWhile fun tree ↦ decide (entry.1 < tree.1)

/-- The trees of an outline with their depths. -/
def forest (outline : Outline) : List (Nat × Node) := outline.foldr adopt []

end Outline

mutual

/-- The outline of a tree whose root has a given depth. -/
def Node.outline (depth : Nat) : Node → Outline
  | .mk label children => (depth, label) :: Node.outlineAll (depth + 1) children

/-- The outlines of some trees, one after the other. -/
def Node.outlineAll (depth : Nat) : List Node → Outline
  | [] => []
  | node :: nodes => Node.outline depth node ++ Node.outlineAll depth nodes

end

/-- The first tree of an outline. -/
def Node.ofOutline? (outline : Outline) : Option Node := (outline.forest.head?).map Prod.snd

end PropDoc.Syntax
