import Mathlib.Data.List.Infix
import PropDoc.Proofs.Syntax.Focus

/-!
# Laws of pre-order

The pre-order of a node in its place is the node followed by the pre-orders of its children. Every
node of it lies in or below the first, the paths from the root grow along it, so that no two of its
nodes have the same address, and none lies below two children of the first. A tree is well placed if
its nodes lie in the source as they lie in the tree; then the nodes start in pre-order.
-/

namespace PropDoc.Syntax

variable {focus child below deeper : Focus}

namespace Focus

private theorem preorderBelow_eq_flatMap (parent : Node) (above : List (Node × Nat))
    (position : Nat) (nodes : List Node) :
    preorderBelow parent above position nodes =
      (nodes.zipIdx position).flatMap fun numbered ↦
        preorderFrom ((parent, numbered.2) :: above) numbered.1 := by
  induction nodes generalizing position with
  | nil => rfl
  | cons node nodes ih => rw [preorderBelow, ih, List.zipIdx_cons, List.flatMap_cons]

/-- The pre-order of a node is the node, then the pre-orders of its children. -/
theorem preorder_eq (focus : Focus) :
    focus.preorder = focus :: focus.children.flatMap preorder := by
  obtain ⟨⟨label, children⟩, above⟩ := focus
  rw [preorder, preorderFrom, preorderBelow_eq_flatMap, Focus.children, List.flatMap_map]
  rfl

/-- A node is in its own pre-order. -/
theorem mem_preorder_self (focus : Focus) : focus ∈ focus.preorder := by
  rw [preorder_eq]
  exact List.mem_cons_self

/-- What is in the pre-order of a child is in that of the parent. -/
theorem mem_preorder_of_child (hchild : child ∈ focus.children) (h : below ∈ child.preorder) :
    below ∈ focus.preorder := by
  rw [preorder_eq]
  exact List.mem_cons_of_mem _ (List.mem_flatMap.mpr ⟨child, hchild, h⟩)

/-- The way down to a child is the way down to its parent and one step more. -/
theorem exists_position (h : child ∈ focus.children) :
    child.node ∈ focus.node.children ∧
      ∃ position, child.above = (focus.node, position) :: focus.above := by
  obtain ⟨position, hget, habove⟩ := mem_children_iff.mp h
  exact ⟨List.mem_of_getElem? hget, position, habove⟩

/-- A child is smaller than its parent. -/
theorem sizeOf_lt_of_mem_children (h : child ∈ focus.children) :
    sizeOf child.node < sizeOf focus.node := by
  have hnode : child.node ∈ focus.node.children := (exists_position h).1
  obtain ⟨⟨label, children⟩, above⟩ := focus
  have hlt : sizeOf child.node < sizeOf children := List.sizeOf_lt_of_mem hnode
  simp only [Node.mk.sizeOf_spec]
  omega

/-- What holds of a node in its place if it holds of its children holds everywhere. -/
@[elab_as_elim] theorem childInduction {P : Focus → Prop}
    (step : ∀ focus : Focus, (∀ child ∈ focus.children, P child) → P focus) (focus : Focus) :
    P focus :=
  step focus fun child _ ↦ childInduction step child
termination_by sizeOf focus.node
decreasing_by
  next hmem => exact sizeOf_lt_of_mem_children hmem

/-- What is below a node of a pre-order is in the pre-order. -/
theorem mem_preorder_trans (h : below ∈ focus.preorder) (hdeeper : deeper ∈ below.preorder) :
    deeper ∈ focus.preorder := by
  induction focus using childInduction with
  | step focus ih =>
    rw [preorder_eq, List.mem_cons, List.mem_flatMap] at h
    rcases h with rfl | ⟨child, hchild, hbelow⟩
    · exact hdeeper
    · exact mem_preorder_of_child hchild (ih child hchild hbelow)

/-- The children of a node of a pre-order are in it. -/
theorem mem_preorder_of_mem_children (h : below ∈ focus.preorder)
    (hchild : child ∈ below.children) : child ∈ focus.preorder :=
  mem_preorder_trans h (mem_preorder_of_child hchild child.mem_preorder_self)

/-- Every node of a pre-order but the first is a child of another node of it. -/
theorem exists_parent_of_mem_preorder (h : below ∈ focus.preorder) :
    below = focus ∨ ∃ parent ∈ focus.preorder, below ∈ parent.children := by
  induction focus using childInduction with
  | step focus ih =>
    rw [preorder_eq, List.mem_cons, List.mem_flatMap] at h
    rcases h with rfl | ⟨child, hchild, hbelow⟩
    · exact .inl rfl
    · right
      rcases ih child hchild hbelow with rfl | ⟨parent, hparent, hmem⟩
      · exact ⟨focus, focus.mem_preorder_self, hchild⟩
      · exact ⟨parent, mem_preorder_of_child hchild hparent, hmem⟩

/-- The way down to a node of a pre-order goes through the first node of it. -/
theorem above_suffix (h : below ∈ focus.preorder) : focus.above <:+ below.above := by
  induction focus using childInduction with
  | step focus ih =>
    rw [preorder_eq, List.mem_cons, List.mem_flatMap] at h
    rcases h with rfl | ⟨child, hchild, hbelow⟩
    · exact List.suffix_rfl
    · obtain ⟨-, position, hposition⟩ := exists_position hchild
      have hsuffix := ih child hchild hbelow
      rw [hposition] at hsuffix
      exact (List.suffix_cons _ _).trans hsuffix

/-- No node lies below two children of a node. -/
theorem eq_of_mem_preorder {first second : Focus} (hfirst : first ∈ focus.children)
    (hsecond : second ∈ focus.children) (h : below ∈ first.preorder)
    (h' : below ∈ second.preorder) : first = second := by
  obtain ⟨position, hget, habove⟩ := mem_children_iff.mp hfirst
  obtain ⟨position', hget', habove'⟩ := mem_children_iff.mp hsecond
  have hlength : first.above.length = second.above.length := by simp [habove, habove']
  have hsuffix : first.above <:+ second.above :=
    List.suffix_of_suffix_length_le (above_suffix h) (above_suffix h') hlength.le
  have heq : first.above = second.above := hsuffix.eq_of_length hlength
  obtain rfl : position = position' := by
    rw [habove, habove', List.cons.injEq, Prod.mk.injEq] at heq
    exact heq.1.2
  have hnode : first.node = second.node := by
    rw [hget, Option.some.injEq] at hget'
    exact hget'
  obtain ⟨node, above⟩ := first
  obtain ⟨node', above'⟩ := second
  cases heq
  cases hnode
  rfl

/-- The address of a child is one longer than that of its parent. -/
theorem length_address (h : child ∈ focus.children) :
    child.address.length = focus.address.length + 1 := by
  obtain ⟨-, position, hposition⟩ := exists_position h
  simp [address, hposition]

/-- The address of a node starts, read from the root, with that of any node above. -/
theorem address_suffix (h : below ∈ focus.preorder) : focus.address <:+ below.address :=
  (above_suffix h).map Prod.snd

/-- The positions of the children taken, from the first node on. -/
def path (focus : Focus) : List Nat := focus.address.reverse

private theorem path_child (node : Node) (position : Nat) :
    (focus.child position node).path = focus.path ++ [position] := by
  simp [path, address, child]

private theorem path_prefix (h : below ∈ focus.preorder) : focus.path <+: below.path :=
  List.reverse_prefix.mpr (address_suffix h)

/-- What lies below a node has a later path, in lexicographic order. -/
theorem path_lt_of_mem_preorder (hchild : child ∈ focus.children) (h : below ∈ child.preorder) :
    focus.path < below.path := by
  obtain ⟨rest, hrest⟩ := path_prefix h
  obtain ⟨-, position, hposition⟩ := exists_position hchild
  have hpath : child.path = focus.path ++ [position] := by
    simp [path, address, hposition]
  rw [← hrest, hpath, List.append_assoc]
  nth_rewrite 1 [← List.append_nil focus.path]
  exact List.append_left_lt (List.nil_lt_cons _ _)

/-- What lies below an earlier child has an earlier path, however deep it lies. -/
theorem pairwise_path_children (focus : Focus) :
    focus.children.Pairwise fun first second ↦
      ∀ below ∈ first.preorder, ∀ below' ∈ second.preorder, below.path < below'.path := by
  rw [children, List.pairwise_map]
  have hpositions : (focus.node.children.zipIdx.map Prod.snd).Pairwise (· < ·) := by
    rw [List.zipIdx_map_snd]
    exact List.pairwise_lt_range'
  refine (List.pairwise_map.mp hpositions).imp ?_
  intro first second hlt below hbelow below' hbelow'
  obtain ⟨rest, hrest⟩ := path_prefix hbelow
  obtain ⟨rest', hrest'⟩ := path_prefix hbelow'
  rw [← hrest, ← hrest', path_child, path_child, List.append_assoc, List.append_assoc]
  exact List.append_left_lt (List.cons_lt_cons_iff.mpr (.inl hlt))

/-- Pre-order is the lexicographic order of the paths. -/
theorem pairwise_path_preorder (focus : Focus) :
    focus.preorder.Pairwise fun first second ↦ first.path < second.path := by
  induction focus using childInduction with
  | step focus ih =>
    rw [preorder_eq, List.pairwise_cons, List.pairwise_flatMap]
    refine ⟨?_, ih, pairwise_path_children focus⟩
    intro below hbelow
    obtain ⟨child, hchild, hbelow⟩ := List.mem_flatMap.mp hbelow
    exact path_lt_of_mem_preorder hchild hbelow

private theorem address_ne_of_path_lt {first second : Focus} (h : first.path < second.path) :
    first.address ≠ second.address := by
  intro heq
  rw [path, heq, ← path] at h
  exact List.lt_irrefl _ h

/-- No two nodes of a pre-order have the same address. -/
theorem pairwise_preorder (focus : Focus) :
    focus.preorder.Pairwise fun first second ↦ first.address ≠ second.address :=
  (pairwise_path_preorder focus).imp address_ne_of_path_lt

/-- No child of a node stands in two places. -/
theorem nodup_children (focus : Focus) : focus.children.Nodup := by
  refine (pairwise_path_children focus).imp ?_
  rintro first _ hlt rfl
  exact List.lt_irrefl _ (hlt first first.mem_preorder_self first first.mem_preorder_self)

end Focus

/-! ### Places in the source -/

/-- A node ends no earlier than it starts, its children lie inside it, and each of them ends before
the next one starts. -/
structure Node.WellPlaced (node : Node) : Prop where
  extent : node.start ≤ node.stop
  inside : ∀ child ∈ node.children, node.start ≤ child.start ∧ child.stop ≤ node.stop
  apart : node.children.Pairwise fun first second ↦ first.stop ≤ second.start

instance (node : Node) : Decidable node.WellPlaced :=
  decidable_of_iff (node.start ≤ node.stop ∧
      (∀ child ∈ node.children, node.start ≤ child.start ∧ child.stop ≤ node.stop) ∧
      node.children.Pairwise fun first second ↦ first.stop ≤ second.start)
    ⟨fun h ↦ ⟨h.1, h.2.1, h.2.2⟩, fun h ↦ ⟨h.extent, h.inside, h.apart⟩⟩

namespace Focus

/-- A node and all below it are well placed. -/
def WellPlaced (focus : Focus) : Prop := ∀ below ∈ focus.preorder, below.node.WellPlaced

instance (focus : Focus) : Decidable focus.WellPlaced :=
  inferInstanceAs (Decidable (∀ below ∈ focus.preorder, below.node.WellPlaced))

/-- What is in a well-placed node is well placed. -/
theorem WellPlaced.of_mem (h : focus.WellPlaced) (hbelow : below ∈ focus.preorder) :
    below.WellPlaced :=
  fun _ hdeeper ↦ h _ (mem_preorder_trans hbelow hdeeper)

/-- A well-placed node does not end before it starts. -/
theorem WellPlaced.start_le_stop (h : focus.WellPlaced) : focus.node.start ≤ focus.node.stop :=
  (h focus focus.mem_preorder_self).extent

/-- What lies in or below a node lies inside it. -/
theorem WellPlaced.inside (h : focus.WellPlaced) (hbelow : below ∈ focus.preorder) :
    focus.node.start ≤ below.node.start ∧ below.node.stop ≤ focus.node.stop := by
  induction focus using childInduction with
  | step focus ih =>
    rw [preorder_eq, List.mem_cons, List.mem_flatMap] at hbelow
    rcases hbelow with rfl | ⟨child, hchild, hbelow⟩
    · exact ⟨le_rfl, le_rfl⟩
    · have hmem : child ∈ focus.preorder :=
        mem_preorder_of_mem_children focus.mem_preorder_self hchild
      obtain ⟨hstart, hstop⟩ :=
        (h focus focus.mem_preorder_self).inside child.node (exists_position hchild).1
      obtain ⟨hstart', hstop'⟩ := ih child hchild (h.of_mem hmem) hbelow
      exact ⟨hstart.trans hstart', hstop'.trans hstop⟩

/-- Each child ends before the next one starts. -/
theorem WellPlaced.children_apart (h : focus.WellPlaced) :
    focus.children.Pairwise fun first second ↦ first.node.stop ≤ second.node.start := by
  have hapart := (h focus focus.mem_preorder_self).apart
  rw [← map_node_children, List.pairwise_map] at hapart
  exact hapart

/-- Nodes start in pre-order. -/
theorem WellPlaced.pairwise_start (h : focus.WellPlaced) :
    focus.preorder.Pairwise fun first second ↦ first.node.start ≤ second.node.start := by
  induction focus using childInduction with
  | step focus ih =>
    have hchildren : ∀ child ∈ focus.children, child.WellPlaced := fun child hchild ↦
      h.of_mem (mem_preorder_of_mem_children focus.mem_preorder_self hchild)
    rw [preorder_eq, List.pairwise_cons, List.pairwise_flatMap]
    refine ⟨?_, fun child hchild ↦ ih child hchild (hchildren child hchild), ?_⟩
    · intro below hbelow
      obtain ⟨child, hchild, hbelow⟩ := List.mem_flatMap.mp hbelow
      exact (h.inside (mem_preorder_of_child hchild hbelow)).1
    · refine h.children_apart.imp_of_mem ?_
      intro first second hfirst hsecond hapart below hbelow below' hbelow'
      calc below.node.start
        _ ≤ below.node.stop := ((hchildren first hfirst).of_mem hbelow).start_le_stop
        _ ≤ first.node.stop := ((hchildren first hfirst).inside hbelow).2
        _ ≤ second.node.start := hapart
        _ ≤ below'.node.start := ((hchildren second hsecond).inside hbelow').1

end Focus

end PropDoc.Syntax
