import PropDoc.Proofs.List
import PropDoc.Proofs.Signature.Flat

/-!
# Comments in types

A comment may stand between any two children of a node. It is a leaf and no field of its parent, so
that taking all comments out of a tree leaves the other nodes with their fields, places and texts.
Main statement: a node without the comments below it has the same reading as before.
-/

namespace PropDoc

namespace Syntax

namespace Node

/-- The node without the comments below it. -/
def withoutComments (node : Node) : Node :=
  node.fold fun node below ↦ .mk node.label (below.filter fun child ↦ !child.isComment)

/-- The node and all below it, in pre-order. -/
def nodes (node : Node) : List Node := node.fold fun node below ↦ node :: below.flatten

/-- Every comment in or below the node is a leaf and no field of its parent. -/
def PlainComments (node : Node) : Prop :=
  (node.all fun node ↦ !node.isComment || node.children.isEmpty && node.field == "") = true

instance (node : Node) : Decidable node.PlainComments := inferInstanceAs (Decidable (_ = true))

variable {node child : Node} {name : String} {source : Source}

/-- The nodes of a tree are the root and the nodes below its children. -/
theorem nodes_eq (node : Node) : node.nodes = node :: node.children.flatMap nodes := by
  rw [nodes, fold_eq, ← List.flatMap_def]
  rfl

/-! ### What is left of a node -/

@[simp] theorem label_withoutComments (node : Node) : node.withoutComments.label = node.label := by
  rw [withoutComments, fold_eq]
  rfl

@[simp] theorem kind_withoutComments (node : Node) : node.withoutComments.kind = node.kind := by
  rw [kind, kind, label_withoutComments]

@[simp] theorem field_withoutComments (node : Node) : node.withoutComments.field = node.field := by
  rw [field, field, label_withoutComments]

@[simp] theorem named_withoutComments (node : Node) : node.withoutComments.named = node.named := by
  rw [named, named, label_withoutComments]

@[simp] theorem text_withoutComments (source : Source) (node : Node) :
    node.withoutComments.text source = node.text source := by
  rw [text, text, start, start, stop, stop, label_withoutComments]

@[simp] theorem isComment_withoutComments (node : Node) :
    node.withoutComments.isComment = node.isComment := by
  rw [isComment, isComment, kind_withoutComments]

@[simp] theorem isPart_withoutComments (node : Node) :
    node.withoutComments.isPart = node.isPart := by
  rw [isPart, isPart, named_withoutComments, isComment_withoutComments]

@[simp] theorem isParameter_withoutComments (node : Node) :
    node.withoutComments.isParameter = node.isParameter := by
  rw [isParameter, isParameter, kind_withoutComments]

@[simp] theorem isMember_withoutComments (node : Node) :
    node.withoutComments.isMember = node.isMember := by
  rw [isMember, isMember, kind_withoutComments]

@[simp] theorem isTypeClause_withoutComments (node : Node) :
    node.withoutComments.isTypeClause = node.isTypeClause := by
  rw [isTypeClause, isTypeClause, kind_withoutComments]

/-- The children that are left are those that are no comments. -/
theorem children_withoutComments (node : Node) :
    node.withoutComments.children =
      (node.children.filter fun child ↦ !child.isComment).map withoutComments := by
  have hchildren : node.withoutComments.children =
      (node.children.map withoutComments).filter fun child ↦ !child.isComment := by
    rw [withoutComments, fold_eq]
    rfl
  rw [hchildren, List.filter_map]
  simp only [Function.comp_def, isComment_withoutComments]

namespace PlainComments

/-- The comments below a child are plain. -/
theorem of_mem (h : node.PlainComments) (hmem : child ∈ node.children) : child.PlainComments :=
  (all_iff.mp h).2 child hmem

/-- The comments below any node of a tree are plain. -/
theorem of_mem_nodes {below : Node} (h : node.PlainComments) (hmem : below ∈ node.nodes) :
    below.PlainComments := by
  induction node using childInduction with
  | step node ih =>
    rw [nodes_eq, List.mem_cons, List.mem_flatMap] at hmem
    rcases hmem with rfl | ⟨child, hchild, hbelow⟩
    · exact h
    · exact ih child hchild (h.of_mem hchild) hbelow

private theorem children_eq_nil (h : node.PlainComments) (hcomment : node.isComment = true) :
    node.children = [] := by
  have hplain := (all_iff.mp h).1
  simp only [hcomment, Bool.not_true, Bool.false_or, Bool.and_eq_true] at hplain
  exact List.isEmpty_iff.mp hplain.1

/-- A plain comment is no field. -/
theorem field_eq (h : node.PlainComments) (hcomment : node.isComment = true) :
    node.field = "" := by
  have hplain := (all_iff.mp h).1
  simp only [hcomment, Bool.not_true, Bool.false_or, Bool.and_eq_true] at hplain
  exact beq_iff_eq.mp hplain.2

end PlainComments

/-- What is left of a tree is every node that is no comment, in the same order. -/
theorem nodes_withoutComments (h : node.PlainComments) (hnode : node.isComment = false) :
    node.withoutComments.nodes =
      (node.nodes.filter fun below ↦ !below.isComment).map withoutComments := by
  induction node using childInduction with
  | step node ih =>
    rw [nodes_eq, nodes_eq, List.filter_cons_of_pos (by simp [hnode]), List.map_cons,
      children_withoutComments, List.flatMap_map, List.filter_flatMap, List.map_flatMap]
    congr 1
    apply flatMap_filter_eq
    · intro child hchild hkeep
      exact ih child hchild (h.of_mem hchild) (by simpa using hkeep)
    · intro child hchild hdrop
      have hcomment : child.isComment = true := by simpa using hdrop
      rw [nodes_eq, (h.of_mem hchild).children_eq_nil hcomment]
      simp [hcomment]

/-! ### Parts, fields and marks -/

/-- Taking comments out leaves the parts. -/
theorem parts_withoutComments (node : Node) :
    node.withoutComments.parts = node.parts.map withoutComments := by
  rw [parts_eq_filter, parts_eq_filter, children_withoutComments, List.filter_map,
    List.filter_filter]
  congr 1
  apply List.filter_congr
  intro child _
  cases hcomment : child.isComment <;> simp [isPart, hcomment]

/-- A parameter is no comment. -/
theorem isComment_of_isParameter (h : node.isParameter = true) : node.isComment = false := by
  rw [isParameter, Bool.or_eq_true, beq_iff_eq, beq_iff_eq] at h
  rcases h with hkind | hkind <;> simp [isComment, hkind]

/-- Taking comments out leaves the other named children. -/
theorem namedChildren_withoutComments (node : Node) :
    node.withoutComments.namedChildren =
      (node.namedChildren.filter fun child ↦ !child.isComment).map withoutComments := by
  rw [namedChildren, namedChildren, children_withoutComments, List.filter_map, List.filter_filter,
    List.filter_filter]
  simp only [Function.comp_def, named_withoutComments, Bool.and_comm]

/-- A named child of a kind that comments are not of is found as before. -/
theorem find?_namedChildren_withoutComments {p : Node → Bool}
    (hp : ∀ child, p child.withoutComments = p child)
    (hcomment : ∀ child, p child = true → child.isComment = false) (node : Node) :
    node.withoutComments.namedChildren.find? p =
      (node.namedChildren.find? p).map withoutComments := by
  rw [namedChildren_withoutComments, List.find?_map]
  simp only [Function.comp_def, hp]
  rw [find?_filter_of_imp fun child _ hchild ↦ by simp [hcomment child hchild]]

/-- A field is what is left of the field before. -/
theorem field?_withoutComments (h : node.PlainComments) (hname : name ≠ "") :
    node.withoutComments.field? name = (node.field? name).map withoutComments := by
  rw [field?, field?, children_withoutComments, List.find?_map]
  simp only [Function.comp_def, field_withoutComments]
  rw [find?_filter_of_imp]
  intro child hchild hfield
  by_contra hcomment
  have hempty := (h.of_mem hchild).field_eq (by simpa using hcomment)
  exact hname ((beq_iff_eq.mp hfield).symm.trans hempty)

/-- Taking comments out leaves a member as optional as it was. -/
theorem isOptional_withoutComments (node : Node) :
    node.withoutComments.isOptional = node.isOptional := by
  rw [isOptional, isOptional, children_withoutComments, List.any_map, List.any_filter]
  congr 1
  funext child
  simp only [Function.comp_apply, named_withoutComments, kind_withoutComments, isComment]
  by_cases hmark : child.kind = "?" <;> simp [hmark]

/-- Taking plain comments out leaves the key of a member. -/
theorem memberKey?_withoutComments (h : node.PlainComments) :
    node.withoutComments.memberKey? source = node.memberKey? source := by
  rw [memberKey?, memberKey?, field?_withoutComments h (by decide), Option.bind_map]
  simp only [Function.comp_def, kind_withoutComments, text_withoutComments]

/-- The text of a field stays. -/
theorem fieldText_withoutComments (source : Source) (h : node.PlainComments) (hname : name ≠ "") :
    (node.withoutComments.field? name).map (text source) =
      (node.field? name).map (text source) := by
  rw [field?_withoutComments h hname, Option.map_map]
  simp only [Function.comp_def, text_withoutComments]

end Node

end Syntax

open PropDoc.Syntax

namespace Signature

/-! ### Readings -/

namespace Reading

/-- The reading with its node without comments. -/
def uncommented (reading : Reading) : Reading :=
  { reading with node := reading.node.withoutComments }

/-- The readings of what is left of some children. -/
def uncommentedAll (below : List Reading) : List Reading :=
  (below.filter fun reading ↦ !reading.node.isComment).map uncommented

variable {source : Source} {node : Node} {below : List Reading} {name : String}

private theorem parts_uncommentedAll (below : List Reading) :
    parts (uncommentedAll below) = (parts below).map uncommented := by
  rw [parts, parts, uncommentedAll, List.filter_map, List.filter_filter]
  congr 1
  apply List.filter_congr
  intro reading _
  cases hcomment : reading.node.isComment <;> simp [uncommented, hcomment]

private theorem alternativesOf_uncommentedAll (below : List Reading) :
    alternativesOf (uncommentedAll below) = alternativesOf below := by
  rw [alternativesOf, parts_uncommentedAll, List.flatMap_map]
  rfl

private theorem elementsOf_uncommentedAll (below : List Reading) :
    elementsOf (uncommentedAll below) = elementsOf below := by
  rw [elementsOf, elementsOf, parts_uncommentedAll, List.map_map]
  simp only [Function.comp_def, uncommented, Node.isParameter_withoutComments]

section

variable (h : ∀ reading ∈ below, reading.node.PlainComments)

include h

private theorem field?_uncommentedAll (hname : name ≠ "") :
    field? (uncommentedAll below) name = (field? below name).map uncommented := by
  rw [field?, field?, uncommentedAll, List.find?_map]
  simp only [Function.comp_def, uncommented, Node.field_withoutComments]
  rw [find?_filter_of_imp]
  intro reading hreading hfield
  by_contra hcomment
  have hempty := (h reading hreading).field_eq (by simpa using hcomment)
  exact hname ((beq_iff_eq.mp hfield).symm.trans hempty)

private theorem annotatedField_uncommentedAll (hname : name ≠ "") :
    annotatedField (uncommentedAll below) name = annotatedField below name := by
  rw [annotatedField, field?_uncommentedAll h hname, Option.bind_map]
  rfl

private theorem argumentsOf_uncommentedAll :
    argumentsOf (uncommentedAll below) = argumentsOf below := by
  rw [argumentsOf, field?_uncommentedAll h (by decide), Option.map_map]
  rfl

private theorem resultOf_uncommentedAll : resultOf (uncommentedAll below) = resultOf below := by
  rw [resultOf, field?_uncommentedAll h (by decide), parts_uncommentedAll, List.getLast?_map,
    ← Option.map_or, Option.map_map]
  rfl

private theorem parametersOf_uncommentedAll :
    parametersOf source (uncommentedAll below) = parametersOf source below := by
  have hparameters :
      (uncommentedAll below).filter (fun reading ↦ reading.node.named && reading.node.isParameter) =
        (below.filter fun reading ↦ reading.node.named && reading.node.isParameter).map
          uncommented := by
    rw [uncommentedAll, List.filter_map, List.filter_filter]
    congr 1
    apply List.filter_congr
    intro reading _
    cases hparameter : reading.node.isParameter with
    | false => simp [uncommented, hparameter]
    | true => simp [uncommented, hparameter, Node.isComment_of_isParameter hparameter]
  rw [parametersOf, parametersOf, hparameters, List.map_map]
  apply List.map_congr_left
  intro reading hreading
  have hplain := h reading (List.mem_filter.mp hreading).1
  simp only [Function.comp_apply, uncommented]
  rw [Node.fieldText_withoutComments source hplain (by decide)]

private theorem memberOf_uncommentedAll :
    memberOf node.withoutComments (uncommentedAll below) = memberOf node below := by
  rw [memberOf, memberOf, Node.kind_withoutComments, argumentsOf_uncommentedAll h,
    annotatedField_uncommentedAll h (by decide), annotatedField_uncommentedAll h (by decide)]

private theorem typeOf_uncommentedAll :
    typeOf source node.withoutComments (uncommentedAll below) = typeOf source node below := by
  rw [typeOf, typeOf, Node.kind_withoutComments, Node.text_withoutComments,
    alternativesOf_uncommentedAll, elementsOf_uncommentedAll, argumentsOf_uncommentedAll h,
    resultOf_uncommentedAll h, parts_uncommentedAll, List.head?_map, List.filterMap_map,
    Option.map_map, Option.map_map]
  rfl

private theorem propertyOf_uncommentedAll (hnode : node.PlainComments) :
    propertyOf source node.withoutComments (uncommentedAll below) =
      propertyOf source node below := by
  have hindex : (node.withoutComments.field? "index_type").map (fun index ↦
        (⟨.index (index.text source), true, annotatedField below "type"⟩ : Property Signature)) =
      (node.field? "index_type").map fun index ↦
        ⟨.index (index.text source), true, annotatedField below "type"⟩ := by
    rw [Node.field?_withoutComments hnode (by decide), Option.map_map]
    simp only [Function.comp_def, Node.text_withoutComments]
  rw [propertyOf, propertyOf, Node.isMember_withoutComments, Node.kind_withoutComments,
    Node.memberKey?_withoutComments hnode, Node.isOptional_withoutComments,
    memberOf_uncommentedAll h, annotatedField_uncommentedAll h (by decide), hindex]

/-- One step: the reading of a node from those of its children does not change with the comments. -/
theorem step_uncommentedAll (hnode : node.PlainComments) :
    step source node.withoutComments (uncommentedAll below) =
      (step source node below).uncommented := by
  rw [step, step, uncommented]
  congr 1
  · exact typeOf_uncommentedAll h
  · rw [Node.kind_withoutComments, alternativesOf_uncommentedAll, typeOf_uncommentedAll h]
  · rw [Node.isTypeClause_withoutComments, typeOf_uncommentedAll h, parts_uncommentedAll,
      List.head?_map, Option.map_map]
    rfl
  · exact annotatedField_uncommentedAll h (by decide)
  · exact parametersOf_uncommentedAll h
  · exact memberOf_uncommentedAll h
  · exact propertyOf_uncommentedAll h hnode

end

/-- The reading of a node does not change with the comments below it. -/
theorem ofNode_withoutComments (h : node.PlainComments) :
    ofNode source node.withoutComments = (ofNode source node).uncommented := by
  induction node using Node.childInduction with
  | step node ih =>
    have hchildren : Reading.below source node.withoutComments =
        uncommentedAll (Reading.below source node) := by
      rw [Reading.below, Reading.below, uncommentedAll, Node.children_withoutComments, List.map_map,
        List.filter_map, List.map_map]
      simp only [Function.comp_def, node_ofNode]
      apply List.map_congr_left
      intro child hchild
      have hmem := (List.mem_filter.mp hchild).1
      exact ih child hmem (h.of_mem hmem)
    have hplain : ∀ reading ∈ Reading.below source node, reading.node.PlainComments := by
      intro reading hreading
      obtain ⟨child, hchild, rfl⟩ := List.mem_map.mp hreading
      rw [node_ofNode]
      exact h.of_mem hchild
    rw [ofNode_eq_step, ofNode_eq_step, hchildren, step_uncommentedAll hplain h]

end Reading

/-- A member has the same signature without the comments below it. -/
theorem ofMember_withoutComments {source : Source} {member : Node} (h : member.PlainComments) :
    ofMember source member.withoutComments = ofMember source member := by
  rw [ofMember, Reading.ofNode_withoutComments h]
  rfl

end Signature

end PropDoc
