import PropDoc.Proofs.List
import PropDoc.Signature.Basic

/-!
# Places in types

A place in a tree is given by the nodes above it, each with a hole where the way goes down. What a
node in some place is read as depends on the way: a type, a member of a union, an annotation, a
parameter, a member of an object type. Main statement: putting one node for another in a place
changes what is read above exactly if it changes what is read in the place, unless a member on the
way is left out because it has no fixed name.
-/

namespace PropDoc

namespace Syntax

/-- Whether a node is named and no comment. -/
def Node.isPart (node : Node) : Bool := node.named && !node.isComment

/-- The parts of a node are the children that are parts. -/
theorem Node.parts_eq_filter (node : Node) : node.parts = node.children.filter isPart := by
  rw [parts, namedChildren, List.filter_filter]
  exact List.filter_congr fun child _ ↦ Bool.and_comm ..

/-- A node with a hole among its children. -/
structure Frame where
  label : Label
  before : List Node := []
  after : List Node := []

namespace Frame

/-- The node that has another one in the hole. -/
def plug (frame : Frame) (node : Node) : Node :=
  .mk frame.label (frame.before ++ node :: frame.after)

/-- The outermost of some nodes with holes, the first holding the second and so on, and the last a
given node. -/
def plugAll (frames : List Frame) (node : Node) : Node := frames.foldr plug node

/-- The kind of the node with the hole. -/
def kind (frame : Frame) : String := frame.label.kind

/-- What is in the hole is the first child that is a field. -/
def FirstField (frame : Frame) (name : String) (child : Node) : Prop :=
  child.field = name ∧ ∀ earlier ∈ frame.before, earlier.field ≠ name

/-- What is in the hole is the first part. -/
def FirstPart (frame : Frame) (child : Node) : Prop :=
  child.isPart = true ∧ ∀ earlier ∈ frame.before, earlier.isPart = false

/-- What is in the hole is the last part. -/
def LastPart (frame : Frame) (child : Node) : Prop :=
  child.isPart = true ∧ ∀ later ∈ frame.after, later.isPart = false

@[simp] theorem kind_plug (frame : Frame) (node : Node) : (frame.plug node).kind = frame.kind := rfl

@[simp] theorem children_plug (frame : Frame) (node : Node) :
    (frame.plug node).children = frame.before ++ node :: frame.after := rfl

variable {frame : Frame} {node child : Node} {name : String}

/-- What is plugged in as the first of a field is that field. -/
theorem FirstField.field?_plug (h : frame.FirstField name child) :
    (frame.plug child).field? name = some child := by
  have hbefore : frame.before.find? (fun node ↦ node.field == name) = none := by simpa using h.2
  simp [Node.field?, List.find?_append, hbefore, h.1]

/-- A field that is not in the hole does not depend on what is. -/
theorem field?_plug_of_ne (h : child.field ≠ name) :
    (frame.plug child).field? name =
      (frame.before ++ frame.after).find? fun node ↦ node.field == name := by
  simp [Node.field?, List.find?_append, h]

/-- What is plugged in as the first part is the first part. -/
theorem FirstPart.head?_parts (h : frame.FirstPart child) :
    (frame.plug child).parts.head? = some child := by
  have hbefore : frame.before.filter Node.isPart = [] := by simpa using h.2
  simp [Node.parts_eq_filter, hbefore, h.1]

private theorem LastPart.getLast?_parts (h : frame.LastPart child) :
    (frame.plug child).parts.getLast? = some child := by
  have hafter : frame.after.filter Node.isPart = [] := by simpa using h.2
  simp [Node.parts_eq_filter, hafter, h.1]

private theorem exists_plug_of_children {before after : List Node}
    (h : node.children = before ++ child :: after) :
    ∃ frame : Frame, node = frame.plug child ∧ frame.before = before ∧ frame.after = after := by
  cases node with
  | mk label children => exact ⟨⟨label, before, after⟩, congrArg (Node.mk label) h, rfl, rfl⟩

/-- A child stands in a hole of its parent. -/
theorem exists_plug (h : child ∈ node.children) : ∃ frame : Frame, node = frame.plug child := by
  obtain ⟨before, after, hchildren⟩ := List.append_of_mem h
  obtain ⟨frame, hnode, -⟩ := exists_plug_of_children hchildren
  exact ⟨frame, hnode⟩

/-- A field of a node is plugged into the rest of it. -/
theorem exists_firstField (h : node.field? name = some child) :
    ∃ frame : Frame, node = frame.plug child ∧ frame.FirstField name child := by
  obtain ⟨hfield, before, after, hchildren, hbefore⟩ := List.find?_eq_some_iff_append.mp h
  obtain ⟨frame, hnode, rfl, -⟩ := exists_plug_of_children hchildren
  exact ⟨frame, hnode, by simpa using hfield, by simpa using hbefore⟩

/-- The first part of a node is plugged into the rest of it. -/
theorem exists_firstPart (h : node.parts.head? = some child) :
    ∃ frame : Frame, node = frame.plug child ∧ frame.FirstPart child := by
  rw [Node.parts_eq_filter, List.head?_filter] at h
  obtain ⟨hpart, before, after, hchildren, hbefore⟩ := List.find?_eq_some_iff_append.mp h
  obtain ⟨frame, hnode, rfl, -⟩ := exists_plug_of_children hchildren
  exact ⟨frame, hnode, hpart, by simpa using hbefore⟩

/-- The last part of a node is plugged into the rest of it. -/
theorem exists_lastPart (h : node.parts.getLast? = some child) :
    ∃ frame : Frame, node = frame.plug child ∧ frame.LastPart child := by
  rw [Node.parts_eq_filter, List.getLast?_eq_head?_reverse, ← List.filter_reverse,
    List.head?_filter] at h
  obtain ⟨hpart, after, before, hreverse, hafter⟩ := List.find?_eq_some_iff_append.mp h
  have hchildren : node.children = before.reverse ++ child :: after.reverse := by
    simpa using congrArg List.reverse hreverse
  obtain ⟨frame, hnode, -, hframe⟩ := exists_plug_of_children hchildren
  exact ⟨frame, hnode, hpart, by simpa [hframe] using hafter⟩

end Frame

end Syntax

open PropDoc.Syntax

namespace Signature

/-! ### Roles -/

/-- What a node is read as. -/
inductive Role where
  | type
  /-- A member of a union. -/
  | alternative
  /-- A type after a colon, the colon included. -/
  | annotated
  /-- The list of the parameters of a function. -/
  | parameters
  | parameter
  /-- An element of a tuple with a name of its own. -/
  | labelled
  /-- A member of an object type. -/
  | member
  deriving DecidableEq

/-- Whether what has a role is a type. -/
def Role.isType : Role → Bool
  | type | alternative | annotated => true
  | parameters | parameter | labelled | member => false

/-- What a child of a type is read as. -/
inductive TypeChild (frame : Frame) (child : Node) : Role → Prop where
  | alternative : frame.kind = "union_type" → child.isPart = true →
      TypeChild frame child .alternative
  | element : frame.kind = "array_type" → frame.FirstPart child → TypeChild frame child .type
  | enclosed : frame.kind = "parenthesized_type" → frame.FirstPart child →
      TypeChild frame child .type
  | item : frame.kind = "tuple_type" → child.isPart = true → child.isParameter = false →
      TypeChild frame child .type
  | labelled : frame.kind = "tuple_type" → child.isPart = true → child.isParameter = true →
      TypeChild frame child .labelled
  | parameters : frame.kind = "function_type" → frame.FirstField "parameters" child →
      child.kind = "formal_parameters" → TypeChild frame child .parameters
  | result : frame.kind = "function_type" → frame.FirstField "return_type" child →
      TypeChild frame child .type
  | lastResult : frame.kind = "function_type" → frame.LastPart child →
      (∀ node ∈ frame.before ++ child :: frame.after, node.field ≠ "return_type") →
      child.field ≠ "parameters" → TypeChild frame child .type
  | member : frame.kind = "object_type" → child.isPart = true → TypeChild frame child .member

/-- What a child of a node with some role is read as. -/
inductive Child (frame : Frame) (child : Node) : Role → Role → Prop where
  | ofType {outer inner : Role} : outer.isType = true → TypeChild frame child inner →
      Child frame child outer inner
  | annotated : (frame.plug child).isTypeClause = true → frame.FirstPart child →
      Child frame child .annotated .type
  | parameter : frame.kind = "formal_parameters" → child.named = true →
      child.isParameter = true → Child frame child .parameters .parameter
  | declared {outer : Role} : outer = .parameter ∨ outer = .labelled →
      frame.kind = "required_parameter" ∨ frame.kind = "optional_parameter" →
      frame.FirstField "type" child → Child frame child outer .annotated
  | property : frame.kind = "property_signature" ∨ frame.kind = "index_signature" →
      frame.FirstField "type" child → Child frame child .member .annotated
  | returned : frame.kind = "method_signature" → frame.FirstField "return_type" child →
      Child frame child .member .annotated
  | arguments : frame.kind = "method_signature" → frame.FirstField "parameters" child →
      Child frame child .member .parameters

/-- A node that is put in a place of a node with some role has some role there. -/
inductive Stands : Role → List Frame → Node → Role → Prop where
  | here {role : Role} {node : Node} : Stands role [] node role
  | inside {outer inner role : Role} {frame : Frame} {frames : List Frame} {node : Node} :
      Child frame (Frame.plugAll frames node) outer inner → Stands inner frames node role →
      Stands outer (frame :: frames) node role

/-- A member of an object type is left out: its name is not fixed. -/
def isLeftOut (source : Source) (node : Node) : Bool :=
  if node.isMember then (node.memberKey? source).isNone
  else node.kind == "index_signature" && (node.field? "index_type").isNone

/-- No member on the way to a place is left out. -/
def Kept (source : Source) : List Frame → Node → Prop
  | [], _ => True
  | frame :: frames, node =>
    isLeftOut source (frame.plug (Frame.plugAll frames node)) = false ∧ Kept source frames node

/-- The pattern of a parameter, as written. -/
def patternText (source : Source) (parameter : Node) : String :=
  ((parameter.field? "pattern").map (Node.text source)).getD ""

/-- Two readings agree on what a role asks for. -/
def Role.Agree (source : Source) : Role → Reading → Reading → Prop
  | type, a, b => a.type = b.type
  | alternative, a, b => a.alternatives = b.alternatives
  | annotated, a, b => a.annotated.getD .unknown = b.annotated.getD .unknown
  | parameters, a, b => a.parameters = b.parameters
  | parameter, a, b =>
    patternText source a.node = patternText source b.node ∧ a.declared = b.declared
  | labelled, a, b => a.declared = b.declared
  | member, a, b => a.property = b.property

/-- Two nodes look the same to their parent, as far as it does not ask what they are read as. -/
structure SameFace (a b : Node) : Prop where
  field : a.field = b.field
  named : a.named = b.named
  comment : a.isComment = b.isComment
  parameter : a.isParameter = b.isParameter
  list : a.kind = "formal_parameters" → b.kind = "formal_parameters"
  mark : (!a.named && a.kind == "?") = (!b.named && b.kind == "?")

/-! ### What a parent sees of a child -/

namespace SameFace

variable {a b : Node}

/-- Of two nodes with the same face both are parts or neither is. -/
theorem isPart (h : SameFace a b) : a.isPart = b.isPart := by
  rw [Node.isPart, Node.isPart, h.named, h.comment]

private theorem firstField {frame : Frame} {name : String} (h : SameFace a b)
    (ha : frame.FirstField name a) : frame.FirstField name b :=
  ⟨h.field ▸ ha.1, ha.2⟩

private theorem firstPart {frame : Frame} (h : SameFace a b) (ha : frame.FirstPart a) :
    frame.FirstPart b :=
  ⟨h.isPart ▸ ha.1, ha.2⟩

private theorem lastPart {frame : Frame} (h : SameFace a b) (ha : frame.LastPart a) :
    frame.LastPart b :=
  ⟨h.isPart ▸ ha.1, ha.2⟩

/-- Nodes plugged into one frame have the same face. -/
theorem plug (frame : Frame) (a b : Node) : SameFace (frame.plug a) (frame.plug b) :=
  ⟨rfl, rfl, rfl, rfl, id, rfl⟩

/-- Nodes with the same face keep it within any frames. -/
theorem plugAll (h : SameFace a b) (frames : List Frame) :
    SameFace (Frame.plugAll frames a) (Frame.plugAll frames b) := by
  cases frames with
  | nil => exact h
  | cons frame frames => exact plug frame _ _

end SameFace

section

variable {source : Source} {frame : Frame} {child a b : Node} {name : String}

private theorem isOptional_plug (h : SameFace a b) :
    (frame.plug a).isOptional = (frame.plug b).isOptional := by
  simp only [Node.isOptional, Frame.plug, Node.children, List.any_append, List.any_cons, h.mark]

namespace Reading

@[simp] theorem node_ofNode (source : Source) (node : Node) : (ofNode source node).node = node := by
  rw [ofNode, Node.fold_eq]
  rfl

/-- The readings of the children of a node. -/
def below (source : Source) (node : Node) : List Reading := node.children.map (ofNode source)

/-- A node is read from what is read of its children. -/
theorem ofNode_eq_step (source : Source) (node : Node) :
    ofNode source node = step source node (below source node) :=
  Node.fold_eq (step source) node

/-- The type of a node is decided by what is read of its children. -/
theorem type_ofNode (source : Source) (node : Node) :
    (ofNode source node).type = typeOf source node (below source node) := by
  rw [ofNode_eq_step]
  rfl

/-- The field of what is read is what the field is read as. -/
theorem field?_below (source : Source) (node : Node) (name : String) :
    field? (below source node) name = (node.field? name).map (ofNode source) := by
  simp only [field?, below, Node.field?, List.find?_map, Function.comp_def, node_ofNode]

/-- The parts of what is read are what the parts are read as. -/
theorem parts_below (source : Source) (node : Node) :
    parts (below source node) = node.parts.map (ofNode source) := by
  rw [Node.parts_eq_filter, below, parts, List.filter_map]
  simp only [Function.comp_def, node_ofNode]
  rfl

/-- What is plugged in as the first of a field is read as that field. -/
theorem field?_below_of_first (h : frame.FirstField name child) :
    field? (below source (frame.plug child)) name = some (ofNode source child) := by
  rw [field?_below, h.field?_plug, Option.map_some]

private theorem field?_below_of_ne (h : child.field ≠ name) :
    field? (below source (frame.plug child)) name =
      ((frame.before ++ frame.after).find? fun node ↦ node.field == name).map (ofNode source) := by
  rw [field?_below, Frame.field?_plug_of_ne h]

/-- A part that is plugged in is read between the parts around it. -/
theorem parts_below_plug (h : child.isPart = true) :
    parts (below source (frame.plug child)) =
      (frame.before.filter Node.isPart).map (ofNode source) ++
        ofNode source child :: (frame.after.filter Node.isPart).map (ofNode source) := by
  simp [parts_below, Node.parts_eq_filter, h]

/-- What is plugged in as the first part is read as the first part. -/
theorem head?_parts_below (h : frame.FirstPart child) :
    (parts (below source (frame.plug child))).head? = some (ofNode source child) := by
  rw [parts_below, List.head?_map, h.head?_parts, Option.map_some]

private theorem getLast?_parts_below (h : frame.LastPart child) :
    (parts (below source (frame.plug child))).getLast? = some (ofNode source child) := by
  rw [parts_below, List.getLast?_map, h.getLast?_parts, Option.map_some]

/-- A list of parameters is no type. -/
theorem type_of_parameters (h : child.kind = "formal_parameters") :
    (ofNode source child).type = .unknown := by
  rw [ofNode, Node.fold_eq]
  simp [step, typeOf, h]

private theorem resultOf_below_of_type (h : SameFace a b) (hfield : a.field ≠ "return_type")
    (htype : (ofNode source a).type = (ofNode source b).type) :
    resultOf (below source (frame.plug a)) = resultOf (below source (frame.plug b)) := by
  have hfield' : b.field ≠ "return_type" := h.field ▸ hfield
  have hparts : (parts (below source (frame.plug a))).map type =
      (parts (below source (frame.plug b))).map type := by
    simp only [parts_below, Node.parts_eq_filter, Frame.children_plug, List.filter_append,
      List.filter_cons, h.isPart]
    split <;> simp [htype]
  rw [resultOf, resultOf, field?_below_of_ne hfield, field?_below_of_ne hfield', Option.map_or,
    Option.map_or, ← List.getLast?_map, ← List.getLast?_map, hparts]

private theorem argumentsOf_below_of_ne (h : SameFace a b) (hfield : a.field ≠ "parameters") :
    argumentsOf (below source (frame.plug a)) = argumentsOf (below source (frame.plug b)) := by
  have hfield' : b.field ≠ "parameters" := h.field ▸ hfield
  rw [argumentsOf, argumentsOf, field?_below_of_ne hfield, field?_below_of_ne hfield']

/-- The last part is the result of a function that names none. -/
theorem resultOf_below_of_last (h : frame.LastPart child)
    (hnone : ∀ node ∈ frame.before ++ child :: frame.after, node.field ≠ "return_type") :
    resultOf (below source (frame.plug child)) = (ofNode source child).type := by
  have hfield : field? (below source (frame.plug child)) "return_type" = none := by
    simpa [field?, below, or_imp, forall_and] using hnone
  rw [resultOf, hfield, Option.none_or, getLast?_parts_below h]
  rfl

/-- What a child of a type is read as decides what the type is. -/
theorem type_plug_iff {inner : Role} (h : TypeChild frame a inner) (hface : SameFace a b) :
    (ofNode source (frame.plug a)).type = (ofNode source (frame.plug b)).type ↔
      inner.Agree source (ofNode source a) (ofNode source b) := by
  rw [type_ofNode, type_ofNode]
  cases h with
  | alternative hframe hpart =>
    have hpart' : b.isPart = true := hface.isPart ▸ hpart
    simp [typeOf, hframe, alternativesOf, parts_below_plug hpart, parts_below_plug hpart',
      Role.Agree]
  | element hframe hfirst =>
    have hfirst' := hface.firstPart hfirst
    simp [typeOf, hframe, head?_parts_below hfirst, head?_parts_below hfirst', Role.Agree]
  | enclosed hframe hfirst =>
    have hfirst' := hface.firstPart hfirst
    simp [typeOf, hframe, head?_parts_below hfirst, head?_parts_below hfirst', Role.Agree]
  | item hframe hpart hplain =>
    have hpart' : b.isPart = true := hface.isPart ▸ hpart
    have hplain' : b.isParameter = false := hface.parameter ▸ hplain
    simp [typeOf, hframe, elementsOf, parts_below_plug hpart, parts_below_plug hpart', hplain,
      hplain', Role.Agree]
  | labelled hframe hpart hlabelled =>
    have hpart' : b.isPart = true := hface.isPart ▸ hpart
    have hlabelled' : b.isParameter = true := hface.parameter ▸ hlabelled
    simp [typeOf, hframe, elementsOf, parts_below_plug hpart, parts_below_plug hpart', hlabelled,
      hlabelled', Role.Agree]
  | parameters hframe hfirst hlist =>
    have hfirst' := hface.firstField hfirst
    have htype : (ofNode source a).type = (ofNode source b).type := by
      rw [type_of_parameters hlist, type_of_parameters (hface.list hlist)]
    have hresult : resultOf (below source (frame.plug a)) =
        resultOf (below source (frame.plug b)) :=
      resultOf_below_of_type hface (by simp [hfirst.1]) htype
    simp [typeOf, hframe, argumentsOf, field?_below_of_first hfirst,
      field?_below_of_first hfirst', hresult, Role.Agree]
  | result hframe hfirst =>
    have hfirst' := hface.firstField hfirst
    have harguments : argumentsOf (below source (frame.plug a)) =
        argumentsOf (below source (frame.plug b)) :=
      argumentsOf_below_of_ne hface (by simp [hfirst.1])
    simp [typeOf, hframe, resultOf, field?_below_of_first hfirst,
      field?_below_of_first hfirst', harguments, Role.Agree]
  | lastResult hframe hlast hnone hfield =>
    have hlast' := hface.lastPart hlast
    have harguments : argumentsOf (below source (frame.plug a)) =
        argumentsOf (below source (frame.plug b)) :=
      argumentsOf_below_of_ne hface hfield
    have hnone' : ∀ node ∈ frame.before ++ b :: frame.after, node.field ≠ "return_type" := by
      simpa [or_imp, forall_and, hface.field] using hnone
    have hresult : resultOf (below source (frame.plug a)) = (ofNode source a).type :=
      resultOf_below_of_last hlast hnone
    have hresult' : resultOf (below source (frame.plug b)) = (ofNode source b).type :=
      resultOf_below_of_last hlast' hnone'
    simp [typeOf, hframe, hresult, hresult', harguments, Role.Agree]
  | member hframe hpart =>
    have hpart' : b.isPart = true := hface.isPart ▸ hpart
    simp [typeOf, hframe, parts_below_plug hpart, parts_below_plug hpart', filterMap_cons_inj,
      Role.Agree]

private theorem alternatives_plug_iff :
    (ofNode source (frame.plug a)).alternatives = (ofNode source (frame.plug b)).alternatives ↔
      (ofNode source (frame.plug a)).type = (ofNode source (frame.plug b)).type := by
  rw [ofNode_eq_step, ofNode_eq_step]
  by_cases hunion : frame.kind = "union_type"
  · simp [step, typeOf, hunion]
  · simp [step, hunion]

/-- A node that is no annotation is read as its own type. -/
theorem annotated_of_not_clause (h : child.isTypeClause = false) :
    (ofNode source child).annotated = some (ofNode source child).type := by
  rw [ofNode_eq_step]
  simp [step, h]

/-- No node with a type in it is an annotation. -/
theorem isTypeClause_of_typeChild {inner : Role} (h : TypeChild frame a inner)
    (child : Node) : (frame.plug child).isTypeClause = false := by
  cases h <;> simp [Node.isTypeClause, *]

private theorem isLeftOut_of_kind (h : frame.kind ∉ ["property_signature", "method_signature",
    "index_signature"]) : isLeftOut source (frame.plug child) = false := by
  simp only [List.mem_cons, List.not_mem_nil, or_false, not_or] at h
  simp [isLeftOut, Node.isMember, h]

/-- Only members of object types are left out. -/
theorem isLeftOut_of_child {outer inner : Role} (h : Child frame child outer inner)
    (hrole : outer ≠ .member) : isLeftOut source (frame.plug child) = false := by
  apply isLeftOut_of_kind
  cases h with
  | ofType _ hchild => cases hchild <;> simp [*]
  | annotated hclause _ =>
    simp only [Node.isTypeClause, Frame.kind_plug, List.contains_iff_mem, List.mem_cons,
      List.not_mem_nil, or_false] at hclause
    rcases hclause with h | h | h | h <;> simp [h]
  | parameter hframe => simp [hframe]
  | declared _ hframe => rcases hframe with h | h <;> simp [h]
  | property => exact absurd rfl hrole
  | returned => exact absurd rfl hrole
  | arguments => exact absurd rfl hrole

private theorem annotatedField_below (h : frame.FirstField name child) :
    annotatedField (below source (frame.plug child)) name =
      (ofNode source child).annotated.getD .unknown := by
  rw [annotatedField, field?_below_of_first h, Option.bind_some]

private theorem annotatedField_below_of_ne (h : SameFace a b) (hfield : a.field ≠ name) :
    annotatedField (below source (frame.plug a)) name =
      annotatedField (below source (frame.plug b)) name := by
  have hfield' : b.field ≠ name := h.field ▸ hfield
  rw [annotatedField, annotatedField, field?_below_of_ne hfield, field?_below_of_ne hfield']

private theorem patternText_plug (h : SameFace a b) (hfield : a.field ≠ "pattern") :
    patternText source (frame.plug a) = patternText source (frame.plug b) := by
  have hfield' : b.field ≠ "pattern" := h.field ▸ hfield
  rw [patternText, patternText, Frame.field?_plug_of_ne hfield, Frame.field?_plug_of_ne hfield']

private theorem parameters_plug (hnamed : child.named = true)
    (hparameter : child.isParameter = true) :
    (ofNode source (frame.plug child)).parameters =
      parametersOf source (frame.before.map (ofNode source)) ++
        ⟨patternText source child, (ofNode source child).declared⟩ ::
          parametersOf source (frame.after.map (ofNode source)) := by
  rw [ofNode_eq_step]
  simp [step, parametersOf, below, hnamed, hparameter, patternText]

private theorem property_plug_iff_memberOf (hface : SameFace a b) (hfield : a.field ≠ "name")
    (hmember : (frame.plug a).isMember = true) :
    (ofNode source (frame.plug a)).property = (ofNode source (frame.plug b)).property ↔
      (isLeftOut source (frame.plug a) = false →
        memberOf (frame.plug a) (below source (frame.plug a)) =
          memberOf (frame.plug b) (below source (frame.plug b))) := by
  have hfield' : b.field ≠ "name" := hface.field ▸ hfield
  have hmember' : (frame.plug b).isMember = true := hmember
  have hkey : (frame.plug a).memberKey? source = (frame.plug b).memberKey? source := by
    rw [Node.memberKey?, Node.memberKey?, Frame.field?_plug_of_ne hfield,
      Frame.field?_plug_of_ne hfield']
  rw [ofNode_eq_step, ofNode_eq_step, isLeftOut, if_pos hmember]
  simp only [step, propertyOf, hmember, hmember', if_true, hkey, isOptional_plug hface]
  cases (frame.plug b).memberKey? source <;> simp

private theorem property_plug_iff_annotatedField (hface : SameFace a b)
    (hfield : a.field ≠ "index_type") (hindex : frame.kind = "index_signature") :
    (ofNode source (frame.plug a)).property = (ofNode source (frame.plug b)).property ↔
      (isLeftOut source (frame.plug a) = false →
        annotatedField (below source (frame.plug a)) "type" =
          annotatedField (below source (frame.plug b)) "type") := by
  have hfield' : b.field ≠ "index_type" := hface.field ▸ hfield
  have hkind (child : Node) : (frame.plug child).kind = "index_signature" := hindex
  rw [ofNode_eq_step, ofNode_eq_step]
  simp only [step, propertyOf, isLeftOut, Node.isMember, hkind, Frame.field?_plug_of_ne hfield,
    Frame.field?_plug_of_ne hfield']
  cases (frame.before ++ frame.after).find? fun node ↦ node.field == "index_type" <;> simp

-- What a node is read as where a type stands is decided by what it is as a type.
private theorem agree_type_plug_iff {outer inner : Role} (hrole : outer.isType = true)
    (h : TypeChild frame a inner) :
    outer.Agree source (ofNode source (frame.plug a)) (ofNode source (frame.plug b)) ↔
      (ofNode source (frame.plug a)).type = (ofNode source (frame.plug b)).type := by
  cases outer with
  | type => rfl
  | alternative => exact alternatives_plug_iff
  | annotated => simp [Role.Agree, annotated_of_not_clause (isTypeClause_of_typeChild h _)]
  | parameters => cases hrole
  | parameter => cases hrole
  | labelled => cases hrole
  | member => cases hrole

-- What a child of a member is read as decides what the member is, unless it is left out.
private theorem agree_member_plug_iff {inner : Role} (h : Child frame a .member inner)
    (hface : SameFace a b) :
    Role.member.Agree source (ofNode source (frame.plug a)) (ofNode source (frame.plug b)) ↔
      (isLeftOut source (frame.plug a) = false →
        inner.Agree source (ofNode source a) (ofNode source b)) := by
  simp only [Role.Agree]
  cases h with
  | ofType hrole _ => cases hrole
  | declared hrole _ _ => simp at hrole
  | property hframe hfirst =>
    have hfirst' := hface.firstField hfirst
    rcases hframe with hproperty | hindex
    · have hmember : (frame.plug a).isMember = true := by simp [Node.isMember, hproperty]
      rw [property_plug_iff_memberOf hface (by simp [hfirst.1]) hmember]
      simp [memberOf, hproperty, annotatedField_below hfirst, annotatedField_below hfirst']
    · rw [property_plug_iff_annotatedField hface (by simp [hfirst.1]) hindex,
        annotatedField_below hfirst, annotatedField_below hfirst']
  | returned hframe hfirst =>
    have hfirst' := hface.firstField hfirst
    have hmember : (frame.plug a).isMember = true := by simp [Node.isMember, hframe]
    have harguments : argumentsOf (below source (frame.plug a)) =
        argumentsOf (below source (frame.plug b)) :=
      argumentsOf_below_of_ne hface (by simp [hfirst.1])
    rw [property_plug_iff_memberOf hface (by simp [hfirst.1]) hmember]
    simp [memberOf, hframe, harguments, annotatedField_below hfirst, annotatedField_below hfirst']
  | arguments hframe hfirst =>
    have hfirst' := hface.firstField hfirst
    have hmember : (frame.plug a).isMember = true := by simp [Node.isMember, hframe]
    have hreturn : annotatedField (below source (frame.plug a)) "return_type" =
        annotatedField (below source (frame.plug b)) "return_type" :=
      annotatedField_below_of_ne hface (by simp [hfirst.1])
    rw [property_plug_iff_memberOf hface (by simp [hfirst.1]) hmember]
    simp [memberOf, hframe, hreturn, argumentsOf, field?_below_of_first hfirst,
      field?_below_of_first hfirst']

/-- What a child is read as decides what its parent is read as, unless the parent is left out. -/
theorem agree_plug_iff {outer inner : Role} (h : Child frame a outer inner)
    (hface : SameFace a b) :
    outer.Agree source (ofNode source (frame.plug a)) (ofNode source (frame.plug b)) ↔
      (isLeftOut source (frame.plug a) = false →
        inner.Agree source (ofNode source a) (ofNode source b)) := by
  by_cases hmember : outer = .member
  · subst hmember
    exact agree_member_plug_iff h hface
  rw [isLeftOut_of_child h hmember]
  cases h with
  | ofType hrole hchild => simp [agree_type_plug_iff hrole hchild, type_plug_iff hchild hface]
  | annotated hclause hfirst =>
    have hfirst' := hface.firstPart hfirst
    have hclause' : (frame.plug b).isTypeClause = true := hclause
    rw [ofNode_eq_step, ofNode_eq_step]
    simp [Role.Agree, step, hclause, hclause', head?_parts_below hfirst, head?_parts_below hfirst']
  | parameter hframe hnamed hparameter =>
    have hnamed' : b.named = true := hface.named ▸ hnamed
    have hparameter' : b.isParameter = true := hface.parameter ▸ hparameter
    simp [Role.Agree, parameters_plug hnamed hparameter, parameters_plug hnamed' hparameter']
  | declared hrole hframe hfirst =>
    have hfirst' := hface.firstField hfirst
    have hpattern : patternText source (frame.plug a) = patternText source (frame.plug b) :=
      patternText_plug hface (by simp [hfirst.1])
    have hdeclared (child : Node) : (ofNode source (frame.plug child)).declared =
        annotatedField (below source (frame.plug child)) "type" := by
      rw [ofNode_eq_step]
      rfl
    rcases hrole with rfl | rfl <;>
      simp [Role.Agree, hpattern, hdeclared, annotatedField_below hfirst,
        annotatedField_below hfirst']
  | property => exact absurd rfl hmember
  | returned => exact absurd rfl hmember
  | arguments => exact absurd rfl hmember

/-- What is read in a place decides what is read above, unless a member on the way is left out. -/
theorem agree_plugAll_iff {outer role : Role} {frames : List Frame}
    (h : Stands outer frames a role) (hface : SameFace a b) :
    outer.Agree source (ofNode source (Frame.plugAll frames a))
        (ofNode source (Frame.plugAll frames b)) ↔
      (Kept source frames a → role.Agree source (ofNode source a) (ofNode source b)) := by
  induction h with
  | here => simp [Kept, Frame.plugAll]
  | @inside outer inner role frame frames a hchild _ ih =>
    have hstep : outer.Agree source (ofNode source (frame.plug (Frame.plugAll frames a)))
        (ofNode source (frame.plug (Frame.plugAll frames b))) ↔ _ :=
      agree_plug_iff hchild (hface.plugAll frames)
    rw [Kept, and_imp, ← ih hface]
    exact hstep

end Reading

end

end Signature

end PropDoc
