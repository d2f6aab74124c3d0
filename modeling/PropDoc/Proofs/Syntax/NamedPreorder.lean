import Mathlib.Data.List.Flatten
import PropDoc.Proofs.Syntax.Preorder

/-!
# Pre-order over named children

The pre-order that skips punctuation and keywords, together with all that lies below them. It has
the nodes that are reached through named children alone, and it is a part of the whole pre-order, so
it lists them by their paths.
-/

namespace PropDoc.Syntax

namespace Focus

variable {focus below deeper : Focus}

/-- A node is reached from one above it if all steps on the way go to named children. -/
inductive Reaches : Focus → Focus → Prop where
  | self {focus : Focus} : Reaches focus focus
  | step {focus child below : Focus} :
      child ∈ focus.namedChildren → Reaches child below → Reaches focus below

/-- The node and all below it in pre-order, of the children the named ones only. -/
def namedPreorder (focus : Focus) : List Focus :=
  focus :: focus.namedChildren.attach.flatMap fun ⟨child, _⟩ ↦ child.namedPreorder
termination_by sizeOf focus.node
decreasing_by
  next hmem => exact sizeOf_lt_of_mem_children (mem_children_of_mem_namedChildren hmem)

/-- The named pre-order of a node is the node, then those of its named children. -/
theorem namedPreorder_eq (focus : Focus) :
    focus.namedPreorder = focus :: focus.namedChildren.flatMap namedPreorder := by
  rw [namedPreorder, List.cons.injEq]
  refine ⟨rfl, ?_⟩
  conv_rhs => rw [← List.attach_map_subtype_val focus.namedChildren, List.flatMap_map]

/-- It is a part of the whole pre-order. -/
theorem namedPreorder_sublist (focus : Focus) : focus.namedPreorder.Sublist focus.preorder := by
  induction focus using childInduction with
  | step focus ih =>
    rw [namedPreorder_eq, preorder_eq]
    refine List.Sublist.cons_cons focus ?_
    have hbelow := List.Sublist.flatMap_right focus.namedChildren fun child hchild ↦
      ih child (mem_children_of_mem_namedChildren hchild)
    exact hbelow.trans (List.filter_sublist.flatMap preorder)

/-- Paths grow along the named pre-order. -/
theorem pairwise_path_namedPreorder (focus : Focus) :
    focus.namedPreorder.Pairwise fun first second ↦ first.path < second.path :=
  (pairwise_path_preorder focus).sublist focus.namedPreorder_sublist

/-- What is reached from what is reached is reached. -/
theorem Reaches.trans (h : Reaches focus below) (hdeeper : Reaches below deeper) :
    Reaches focus deeper := by
  induction h with
  | self => exact hdeeper
  | step hchild _ ih => exact .step hchild (ih hdeeper)

/-- What is reached from a node lies in it. -/
theorem Reaches.mem_preorder (h : Reaches focus below) : below ∈ focus.preorder := by
  induction h with
  | self => exact mem_preorder_self _
  | step hchild _ ih => exact mem_preorder_of_child (mem_children_of_mem_namedChildren hchild) ih

/-- The nodes listed are those that are reached. -/
theorem mem_namedPreorder_iff : below ∈ focus.namedPreorder ↔ Reaches focus below := by
  constructor
  · intro h
    induction focus using childInduction with
    | step focus ih =>
      rw [namedPreorder_eq, List.mem_cons, List.mem_flatMap] at h
      rcases h with rfl | ⟨child, hchild, hbelow⟩
      · exact .self
      · exact .step hchild (ih child (mem_children_of_mem_namedChildren hchild) hbelow)
  · intro h
    induction h with
    | self =>
      rw [namedPreorder_eq]
      exact List.mem_cons_self
    | step hchild _ ih =>
      rw [namedPreorder_eq]
      exact List.mem_cons_of_mem _ (List.mem_flatMap.mpr ⟨_, hchild, ih⟩)

end Focus

end PropDoc.Syntax
