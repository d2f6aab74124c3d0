import Mathlib.Data.List.Basic
import PropDoc.Proofs.List
import PropDoc.Syntax.Node

/-!
# Laws of nodes in their place

A child of a node in its place is told by its position, and its parent is that node. The siblings
before it are the children before that position, nearest first.
-/

namespace PropDoc.Syntax.Focus

variable {focus child : Focus}

/-- A child is the node at some position, and the way down to it is the way down to its parent and
one step more. -/
theorem mem_children_iff :
    child ∈ focus.children ↔ ∃ position,
      focus.node.children[position]? = some child.node ∧
        child.above = (focus.node, position) :: focus.above := by
  obtain ⟨node, above⟩ := child
  simp only [children, List.mem_map, Prod.exists, List.mem_zipIdx_iff_getElem?, Focus.child,
    Focus.mk.injEq]
  constructor
  · rintro ⟨node', position, hget, rfl, rfl⟩
    exact ⟨position, hget, rfl⟩
  · rintro ⟨position, hget, rfl⟩
    exact ⟨node, position, hget, rfl, rfl⟩

/-- The parent of a child is the node it is a child of. -/
theorem parent?_of_mem_children (h : child ∈ focus.children) : child.parent? = some focus := by
  obtain ⟨position, -, habove⟩ := mem_children_iff.mp h
  rw [parent?, habove]

/-- The children in their place are the children of the node. -/
theorem map_node_children (focus : Focus) :
    focus.children.map Focus.node = focus.node.children := by
  rw [children, List.map_map]
  exact List.zipIdx_map_fst 0 focus.node.children

/-- The node of a field is a field of the node. -/
theorem map_node_field? (focus : Focus) (name : String) :
    (focus.field? name).map Focus.node = focus.node.field? name := by
  rw [field?, Node.field?, ← map_node_children, List.find?_map]
  rfl

/-- A field of a node is a child. -/
theorem mem_children_of_field? {name : String} (h : focus.field? name = some child) :
    child ∈ focus.children :=
  List.mem_of_find?_eq_some h

/-- A named child is a child. -/
theorem mem_children_of_mem_namedChildren (h : child ∈ focus.namedChildren) :
    child ∈ focus.children :=
  (List.mem_filter.mp h).1

/-- The siblings before a child are the children before it, nearest first. -/
theorem exists_siblings (h : child ∈ focus.children) :
    ∃ before after, focus.children = before ++ child :: after ∧
      child.earlierSiblings = before.reverse := by
  obtain ⟨position, hget, habove⟩ := mem_children_iff.mp h
  have hchild : focus.children[position]? = some child := by
    obtain ⟨node, above⟩ := child
    cases habove
    simp [children, Focus.child, List.getElem?_zipIdx, hget]
  obtain ⟨hlt, heq⟩ := List.getElem?_eq_some_iff.mp hchild
  refine ⟨focus.children.take position, focus.children.drop (position + 1), ?_, ?_⟩
  · rw [← heq, ← List.drop_eq_getElem_cons hlt, List.take_append_drop]
  · rw [earlierSiblings, habove]

end PropDoc.Syntax.Focus
