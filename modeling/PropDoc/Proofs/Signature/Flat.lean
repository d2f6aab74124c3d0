import Mathlib.Data.List.Basic
import PropDoc.Proofs.Signature.Place

/-!
# Flat unions

A union lists its alternatives in source order, and a union among them gives its own alternatives in
its place. A union in parentheses does not: it stays one alternative. Main statement: the signature
of a type has no union directly in a union, at any depth, exactly if no union in parentheses is read
as a member of a union.
-/

namespace PropDoc

namespace Syntax

namespace Node

variable {node child : Node}

/-- The type between a pair of parentheses. -/
def enclosed? (node : Node) : Option Node :=
  if node.kind == "parenthesized_type" then node.parts.head? else none

/-- A node is a union in parentheses, in one pair or in several. -/
inductive WrapsUnion : Node → Prop where
  | union {node inner : Node} : node.enclosed? = some inner → inner.kind = "union_type" →
      WrapsUnion node
  | again {node inner : Node} : node.enclosed? = some inner → WrapsUnion inner → WrapsUnion node

mutual

/-- The members of a union in source order, with the members of a union among them in its place;
any other node alone. -/
def alternatives : Node → List Node
  | mk label children =>
    if label.kind == "union_type" then alternativesAmong children else [mk label children]

/-- The members of a union with given children. -/
def alternativesAmong : List Node → List Node
  | [] => []
  | node :: nodes =>
    if node.isPart then alternatives node ++ alternativesAmong nodes else alternativesAmong nodes

end

/-- What holds of a node if it holds of its children holds of every node. -/
@[elab_as_elim] theorem childInduction {P : Node → Prop}
    (step : ∀ node : Node, (∀ child ∈ node.children, P child) → P node) (node : Node) : P node := by
  cases node with
  | mk label children =>
    apply step
    intro child hmem
    exact childInduction step child
termination_by sizeOf node
decreasing_by
  have hlt : sizeOf child < sizeOf children := List.sizeOf_lt_of_mem hmem
  simp only [mk.sizeOf_spec]
  omega

private theorem alternativesAmong_eq_flatMap (nodes : List Node) :
    alternativesAmong nodes = (nodes.filter isPart).flatMap alternatives := by
  induction nodes with
  | nil => rfl
  | cons node nodes ih =>
    rw [alternativesAmong, ih, List.filter_cons]
    split <;> simp

private theorem alternatives_of_union (h : node.kind = "union_type") :
    node.alternatives = node.parts.flatMap alternatives := by
  cases node with
  | mk label children =>
    have hkind : label.kind = "union_type" := h
    rw [parts_eq_filter, alternatives, alternativesAmong_eq_flatMap]
    simp [hkind, Node.children]

/-- A node that is no union is its only alternative. -/
theorem alternatives_of_ne_union (h : node.kind ≠ "union_type") : node.alternatives = [node] := by
  cases node with
  | mk label children =>
    have hkind : label.kind ≠ "union_type" := h
    simp [alternatives, hkind]

/-- Whether something holds of a node and of all nodes below it. -/
def all (p : Node → Bool) (node : Node) : Bool :=
  node.fold fun node below ↦ p node && below.all id

/-- All nodes of a tree pass exactly if the root does and all below its children do. -/
theorem all_iff {p : Node → Bool} :
    node.all p = true ↔ p node = true ∧ ∀ child ∈ node.children, child.all p = true := by
  rw [all, fold_eq]
  simp [all]

/-- In a tree, whatever is called the parameters is a list of parameters. -/
def ListsParameters (node : Node) : Prop :=
  (node.all fun node ↦ node.field != "parameters" || node.kind == "formal_parameters") = true

instance (node : Node) : Decidable node.ListsParameters := inferInstanceAs (Decidable (_ = true))

namespace ListsParameters

/-- The promise on parameters holds of every child. -/
theorem of_mem (h : node.ListsParameters) (hmem : child ∈ node.children) : child.ListsParameters :=
  (all_iff.mp h).2 child hmem

/-- What is the field of the parameters is a list of parameters. -/
theorem kind_eq (h : node.ListsParameters) (hfield : node.field = "parameters") :
    node.kind = "formal_parameters" := by
  simpa [hfield] using (all_iff.mp h).1

end ListsParameters

/-- A type in parentheses encloses its first part. -/
theorem enclosed?_eq_some_iff {inner : Node} : node.enclosed? = some inner ↔
    node.kind = "parenthesized_type" ∧ node.parts.head? = some inner := by
  simp [enclosed?]

/-- What parentheses enclose is a part of their node. -/
theorem mem_of_enclosed? {inner : Node} (h : node.enclosed? = some inner) :
    inner ∈ node.children ∧ inner.isPart = true := by
  have hmem : inner ∈ node.parts := List.mem_of_head? (enclosed?_eq_some_iff.mp h).2
  rw [parts_eq_filter] at hmem
  exact List.mem_filter.mp hmem

end Node

end Syntax

open PropDoc.Syntax

namespace Signature

/-- Whether a signature is a union. -/
def isUnion : Signature → Bool
  | union _ => true
  | _ => false

/-- No union, at any depth, has a union among its elements. -/
inductive Flat : Signature → Prop where
  | primitive {type : Primitive} : Flat (.primitive type)
  | literal {text : String} : Flat (.literal text)
  | reference {text : String} : Flat (.reference text)
  | union {elements : List Signature} :
      (∀ element ∈ elements, element.isUnion = false) → (∀ element ∈ elements, Flat element) →
        Flat (.union elements)
  | array {element : Signature} : Flat element → Flat (.array element)
  | tuple {elements : List Signature} : (∀ element ∈ elements, Flat element) →
      Flat (.tuple elements)
  | function {arguments : List (Argument Signature)} {returns : Signature} :
      (∀ argument ∈ arguments, Flat argument.type) → Flat returns →
        Flat (.function arguments returns)
  | object {properties : List (Property Signature)} :
      (∀ property ∈ properties, Flat property.type) → Flat (.object properties)
  | unknown : Flat .unknown

section

variable {elements : List Signature} {element returns : Signature}
  {arguments : List (Argument Signature)} {properties : List (Property Signature)}

@[simp] theorem flat_union :
    (union elements).Flat ↔ ∀ element ∈ elements, element.isUnion = false ∧ element.Flat := by
  constructor
  · rintro (_ | _ | _ | ⟨hplain, hflat⟩)
    exact fun element hmem ↦ ⟨hplain element hmem, hflat element hmem⟩
  · intro h
    exact .union (fun element hmem ↦ (h element hmem).1) fun element hmem ↦ (h element hmem).2

@[simp] theorem flat_array : (array element).Flat ↔ element.Flat :=
  ⟨fun | .array h => h, .array⟩

@[simp] theorem flat_tuple : (tuple elements).Flat ↔ ∀ element ∈ elements, element.Flat :=
  ⟨fun | .tuple h => h, .tuple⟩

@[simp] theorem flat_function : (function arguments returns).Flat ↔
    (∀ argument ∈ arguments, argument.type.Flat) ∧ returns.Flat :=
  ⟨fun | .function harguments hreturns => ⟨harguments, hreturns⟩, fun h ↦ .function h.1 h.2⟩

@[simp] theorem flat_object :
    (object properties).Flat ↔ ∀ property ∈ properties, property.type.Flat :=
  ⟨fun | .object h => h, .object⟩

end

/-- What a reading says in a role is flat. A member of a union is also no union itself. -/
def Role.Flat : Role → Reading → Prop
  | type, reading => reading.type.Flat
  | alternative, reading => ∀ type ∈ reading.alternatives, type.isUnion = false ∧ type.Flat
  | annotated, reading => (reading.annotated.getD .unknown).Flat
  | parameters, reading => ∀ argument ∈ reading.parameters, argument.type.Flat
  | parameter, reading => reading.declared.Flat
  | labelled, reading => reading.declared.Flat
  | member, reading => ∀ property ∈ reading.property, property.type.Flat

/-- A node is of a kind that a role asks for. -/
def Role.Fits : Role → Node → Prop
  | parameters, node => node.kind = "formal_parameters"
  | parameter, node => node.isParameter = true
  | labelled, node => node.isParameter = true
  | type, _ | alternative, _ | annotated, _ | member, _ => True

namespace Reading

variable {source : Source} {frame : Frame} {node child : Node} {outer inner role : Role}

private theorem exists_part_of_mem {reading : Reading}
    (h : reading ∈ parts (below source node)) :
    ∃ child ∈ node.children, child.isPart = true ∧ ofNode source child = reading := by
  rw [parts_below, Node.parts_eq_filter] at h
  obtain ⟨child, hchild, hreading⟩ := List.mem_map.mp h
  exact ⟨child, (List.mem_filter.mp hchild).1, (List.mem_filter.mp hchild).2, hreading⟩

/-! ### Alternatives in source order -/

/-- What is no union is read as its only alternative. -/
theorem alternatives_of_ne_union (h : node.kind ≠ "union_type") :
    (ofNode source node).alternatives = [(ofNode source node).type] := by
  rw [ofNode_eq_step]
  simp [step, h]

/-- A union is read as the union of its alternatives. -/
theorem type_of_union (h : node.kind = "union_type") :
    (ofNode source node).type = .union (ofNode source node).alternatives := by
  rw [ofNode_eq_step]
  simp [step, typeOf, h]

/-- The alternatives of a type are those of its node, one by one. -/
theorem alternatives_ofNode (source : Source) (node : Node) :
    (ofNode source node).alternatives = node.alternatives.map (Signature.ofNode source) := by
  induction node using Node.childInduction with
  | step node ih =>
    by_cases hkind : node.kind = "union_type"
    · have halternatives : (ofNode source node).alternatives =
          node.parts.flatMap fun part ↦ (ofNode source part).alternatives := by
        rw [ofNode_eq_step]
        simp [step, hkind, alternativesOf, parts_below, List.flatMap_map]
      rw [halternatives, Node.alternatives_of_union hkind, List.map_flatMap]
      apply List.flatMap_congr
      intro part hpart
      rw [Node.parts_eq_filter] at hpart
      exact ih part (List.mem_filter.mp hpart).1
    · rw [alternatives_of_ne_union hkind, Node.alternatives_of_ne_union hkind]
      rfl

/-! ### Unions in parentheses -/

/-- Parentheses are read as what they enclose. -/
theorem type_of_enclosed? {inner : Node} (h : node.enclosed? = some inner) :
    (ofNode source node).type = (ofNode source inner).type := by
  obtain ⟨hkind, hhead⟩ := Node.enclosed?_eq_some_iff.mp h
  simp [type_ofNode source node, typeOf, hkind, parts_below, hhead]

private theorem isUnion_type_of_wrapsUnion (h : node.WrapsUnion) :
    (ofNode source node).type.isUnion = true := by
  induction h with
  | @union node inner henclosed hkind =>
    rw [type_of_enclosed? henclosed, type_of_union hkind]
    rfl
  | again henclosed _ ih => rw [type_of_enclosed? henclosed, ih]

private theorem isUnion_typeOf {below : List Reading} (hunion : node.kind ≠ "union_type")
    (hparen : node.kind ≠ "parenthesized_type") : (typeOf source node below).isUnion = false := by
  unfold typeOf
  split
  case h_1 => cases Primitive.ofWord? (node.text source) <;> rfl
  case h_6 hkind => exact absurd hkind hunion
  case h_7 => cases (parts below).head? <;> rfl
  case h_11 hkind => exact absurd hkind hparen
  all_goals rfl

/-- A union in parentheses is read as a union, and so is nothing else that is no union. -/
theorem isUnion_type_iff (hkind : node.kind ≠ "union_type") :
    (ofNode source node).type.isUnion = true ↔ node.WrapsUnion := by
  refine ⟨fun h ↦ ?_, isUnion_type_of_wrapsUnion⟩
  induction node using Node.childInduction with
  | step node ih =>
    by_cases hparen : node.kind = "parenthesized_type"
    · cases hhead : node.parts.head? with
      | none =>
        rw [ofNode_eq_step] at h
        simp [step, typeOf, hparen, parts_below, hhead, isUnion] at h
      | some inner =>
        have henclosed : node.enclosed? = some inner :=
          Node.enclosed?_eq_some_iff.mpr ⟨hparen, hhead⟩
        rw [type_of_enclosed? henclosed] at h
        by_cases hunion : inner.kind = "union_type"
        · exact .union henclosed hunion
        · exact .again henclosed (ih inner (Node.mem_of_enclosed? henclosed).1 hunion h)
    · have hplain : (ofNode source node).type.isUnion = false := by
        rw [ofNode_eq_step]
        exact isUnion_typeOf hkind hparen
      exact absurd h (by simp [hplain])

/-! ### From a node to its children -/

private theorem mem_parts_below (h : child.isPart = true) :
    ofNode source child ∈ parts (below source (frame.plug child)) := by
  rw [parts_below_plug h]
  exact List.mem_append_right _ List.mem_cons_self

/-- The children of a flat type are flat as what they are read as. -/
theorem flat_of_typeChild (h : TypeChild frame child inner)
    (hflat : (ofNode source (frame.plug child)).type.Flat) : inner.Flat (ofNode source child) := by
  rw [type_ofNode] at hflat
  cases h with
  | alternative hkind hpart =>
    simp only [typeOf, Frame.kind_plug, hkind, flat_union] at hflat
    intro type hmem
    exact hflat type (List.mem_flatMap.mpr ⟨_, mem_parts_below hpart, hmem⟩)
  | element hkind hfirst =>
    simpa [Role.Flat, typeOf, hkind, head?_parts_below hfirst] using hflat
  | enclosed hkind hfirst =>
    simpa [Role.Flat, typeOf, hkind, head?_parts_below hfirst] using hflat
  | item hkind hpart hplain =>
    simp only [typeOf, Frame.kind_plug, hkind, flat_tuple] at hflat
    apply hflat
    exact List.mem_map.mpr ⟨_, mem_parts_below hpart, by simp [hplain]⟩
  | labelled hkind hpart hlabelled =>
    simp only [typeOf, Frame.kind_plug, hkind, flat_tuple] at hflat
    apply hflat
    exact List.mem_map.mpr ⟨_, mem_parts_below hpart, by simp [hlabelled]⟩
  | parameters hkind hfirst _ =>
    simp only [typeOf, Frame.kind_plug, hkind, flat_function, argumentsOf,
      field?_below_of_first hfirst] at hflat
    exact hflat.1
  | result hkind hfirst =>
    simp only [typeOf, Frame.kind_plug, hkind, flat_function, resultOf,
      field?_below_of_first hfirst] at hflat
    exact hflat.2
  | lastResult hkind hlast hnone _ =>
    simp only [typeOf, Frame.kind_plug, hkind, flat_function,
      resultOf_below_of_last hlast hnone] at hflat
    exact hflat.2
  | member hkind hpart =>
    simp only [typeOf, Frame.kind_plug, hkind, flat_object] at hflat
    intro property hmem
    exact hflat property (List.mem_filterMap.mpr ⟨_, mem_parts_below hpart, hmem⟩)

private theorem flat_alternative_iff : Role.alternative.Flat (ofNode source node) ↔
    (ofNode source node).type.Flat ∧ ¬ node.WrapsUnion := by
  by_cases hkind : node.kind = "union_type"
  · have hplain : ¬ node.WrapsUnion := by
      rintro (⟨henclosed, -⟩ | ⟨henclosed, -⟩) <;> simp [Node.enclosed?, hkind] at henclosed
    rw [type_of_union hkind]
    simp [Role.Flat, hplain]
  · have hwraps : (ofNode source node).type.isUnion = true ↔ node.WrapsUnion :=
      isUnion_type_iff hkind
    rw [← hwraps]
    simp [Role.Flat, alternatives_of_ne_union hkind, and_comm]

private theorem flat_annotated_iff (h : node.isTypeClause = false) :
    Role.annotated.Flat (ofNode source node) ↔ (ofNode source node).type.Flat := by
  rw [Role.Flat, annotated_of_not_clause h, Option.getD_some]

private theorem flat_annotated_iff_of_clause (h : node.isTypeClause = true) :
    Role.annotated.Flat (ofNode source node) ↔
      ∀ inner ∈ node.parts.head?, (ofNode source inner).type.Flat := by
  rw [ofNode_eq_step]
  simp only [Role.Flat, step, h, if_true, parts_below, List.head?_map]
  cases node.parts.head? <;> simp [Flat.unknown]

private theorem flat_parameters_iff : Role.parameters.Flat (ofNode source node) ↔
    ∀ child ∈ node.children, child.named = true → child.isParameter = true →
      (ofNode source child).declared.Flat := by
  rw [ofNode_eq_step]
  simp only [Role.Flat, step, parametersOf, List.forall_mem_map, List.mem_filter]
  simp [below]

private theorem flat_annotatedField_iff {name : String} :
    (annotatedField (below source node) name).Flat ↔
      ∀ child ∈ node.field? name, Role.annotated.Flat (ofNode source child) := by
  rw [annotatedField, field?_below]
  cases node.field? name <;> simp [Flat.unknown, Role.Flat]

private theorem flat_declared_iff : (ofNode source node).declared.Flat ↔
    ∀ child ∈ node.field? "type", Role.annotated.Flat (ofNode source child) := by
  rw [ofNode_eq_step]
  exact flat_annotatedField_iff

private theorem flat_argumentsOf_iff :
    (∀ argument ∈ argumentsOf (below source node), argument.type.Flat) ↔
      ∀ child ∈ node.field? "parameters", Role.parameters.Flat (ofNode source child) := by
  rw [argumentsOf, field?_below]
  cases node.field? "parameters" <;> simp [Role.Flat]

/-- A member that is not left out is flat if what it declares is. -/
theorem flat_member_iff : Role.member.Flat (ofNode source node) ↔
    (isLeftOut source node = false →
      (node.kind = "property_signature" ∨ node.kind = "index_signature" →
        ∀ child ∈ node.field? "type", Role.annotated.Flat (ofNode source child)) ∧
      (node.kind = "method_signature" →
        (∀ child ∈ node.field? "parameters", Role.parameters.Flat (ofNode source child)) ∧
        ∀ child ∈ node.field? "return_type", Role.annotated.Flat (ofNode source child))) := by
  rw [ofNode_eq_step, ← flat_argumentsOf_iff, ← flat_annotatedField_iff, ← flat_annotatedField_iff]
  generalize below source node = readings
  simp only [Role.Flat, step, propertyOf, isLeftOut, memberOf, Node.isMember]
  by_cases hproperty : node.kind = "property_signature"
  · cases node.memberKey? source <;> simp [hproperty]
  by_cases hmethod : node.kind = "method_signature"
  · cases node.memberKey? source <;> simp [hmethod]
  by_cases hindex : node.kind = "index_signature"
  · cases node.field? "index_type" <;> simp [hindex]
  · simp [hproperty, hmethod, hindex]

/-- The children of what is flat in a role are flat as what they are read as. -/
theorem flat_of_child (h : Child frame child outer inner)
    (hkept : isLeftOut source (frame.plug child) = false)
    (hflat : outer.Flat (ofNode source (frame.plug child))) : inner.Flat (ofNode source child) := by
  cases h with
  | ofType hrole hchild =>
    apply flat_of_typeChild hchild
    cases outer with
    | type => exact hflat
    | alternative => exact (flat_alternative_iff.mp hflat).1
    | annotated => exact (flat_annotated_iff (isTypeClause_of_typeChild hchild child)).mp hflat
    | parameters => cases hrole
    | parameter => cases hrole
    | labelled => cases hrole
    | member => cases hrole
  | annotated hclause hfirst =>
    exact (flat_annotated_iff_of_clause hclause).mp hflat child hfirst.head?_parts
  | parameter _ hnamed hparameter =>
    exact flat_parameters_iff.mp hflat child (by simp) hnamed hparameter
  | declared hrole _ hfirst =>
    rcases hrole with rfl | rfl <;> exact flat_declared_iff.mp hflat child hfirst.field?_plug
  | property hkind hfirst =>
    exact ((flat_member_iff.mp hflat hkept).1 hkind) child hfirst.field?_plug
  | returned hkind hfirst =>
    exact ((flat_member_iff.mp hflat hkept).2 hkind).2 child hfirst.field?_plug
  | arguments hkind hfirst =>
    exact ((flat_member_iff.mp hflat hkept).2 hkind).1 child hfirst.field?_plug

/-! ### From the children to a node -/

private theorem flat_resultOf (hlists : node.ListsParameters) (hkind : node.kind = "function_type")
    (h : ∀ {frame child inner}, node = Frame.plug frame child → TypeChild frame child inner →
      inner.Flat (ofNode source child)) :
    (resultOf (below source node)).Flat := by
  rw [resultOf, field?_below, parts_below, List.getLast?_map]
  cases hfield : node.field? "return_type" with
  | some child =>
    obtain ⟨frame, rfl, hfirst⟩ := Frame.exists_firstField hfield
    exact h rfl (.result hkind hfirst)
  | none =>
    cases hlast : node.parts.getLast? with
    | none => exact .unknown
    | some child =>
      obtain ⟨frame, rfl, hpart⟩ := Frame.exists_lastPart hlast
      -- Without a result the last part may be the parameters, and a list of them is no type.
      by_cases hparameters : child.field = "parameters"
      · have hlist : child.kind = "formal_parameters" :=
          (hlists.of_mem (by simp)).kind_eq hparameters
        simp [type_of_parameters hlist, Flat.unknown]
      · have hnone : ∀ node ∈ frame.before ++ child :: frame.after, node.field ≠ "return_type" := by
          simpa [Node.field?, or_imp, forall_and] using hfield
        exact h rfl (.lastResult hkind hpart hnone hparameters)

/-- A type is flat if its children are flat as what they are read as. -/
theorem flat_type_of_children (hlists : node.ListsParameters)
    (h : ∀ {frame child inner}, node = Frame.plug frame child → TypeChild frame child inner →
      inner.Flat (ofNode source child)) : (ofNode source node).type.Flat := by
  rw [ofNode_eq_step]
  simp only [step]
  unfold typeOf
  split
  -- The kinds whose type says nothing of their children come last.
  case h_1 => cases Primitive.ofWord? (node.text source) <;> constructor
  -- The members of a union, each of which may give several elements.
  case h_6 hkind =>
    rw [flat_union]
    intro type hmem
    obtain ⟨reading, hreading, htype⟩ := List.mem_flatMap.mp hmem
    obtain ⟨child, hchild, hpart, rfl⟩ := exists_part_of_mem hreading
    obtain ⟨frame, rfl⟩ := Frame.exists_plug hchild
    exact h rfl (.alternative hkind hpart) type htype
  -- The element of an array.
  case h_7 hkind =>
    rw [parts_below, List.head?_map]
    cases hhead : node.parts.head? with
    | none => exact .unknown
    | some child =>
      obtain ⟨frame, rfl, hfirst⟩ := Frame.exists_firstPart hhead
      exact .array (h rfl (.element hkind hfirst))
  -- The elements of a tuple, with or without a label.
  case h_8 hkind =>
    rw [flat_tuple]
    intro type hmem
    obtain ⟨reading, hreading, rfl⟩ := List.mem_map.mp hmem
    obtain ⟨child, hchild, hpart, rfl⟩ := exists_part_of_mem hreading
    obtain ⟨frame, rfl⟩ := Frame.exists_plug hchild
    rw [node_ofNode]
    split
    next hlabelled => exact h rfl (.labelled hkind hpart hlabelled)
    next hplain => exact h rfl (.item hkind hpart (by simpa using hplain))
  -- The parameters and the result of a function.
  case h_9 hkind =>
    rw [flat_function, flat_argumentsOf_iff]
    refine ⟨fun child hfield ↦ ?_, flat_resultOf hlists hkind h⟩
    obtain ⟨frame, rfl, hfirst⟩ := Frame.exists_firstField hfield
    have hlist : child.kind = "formal_parameters" := (hlists.of_mem (by simp)).kind_eq hfirst.1
    exact h rfl (.parameters hkind hfirst hlist)
  -- The members of an object type.
  case h_10 hkind =>
    rw [flat_object]
    intro property hmem
    obtain ⟨reading, hreading, hproperty⟩ := List.mem_filterMap.mp hmem
    obtain ⟨child, hchild, hpart, rfl⟩ := exists_part_of_mem hreading
    obtain ⟨frame, rfl⟩ := Frame.exists_plug hchild
    exact h rfl (.member hkind hpart) property hproperty
  -- The type in parentheses.
  case h_11 hkind =>
    rw [parts_below, List.head?_map]
    cases hhead : node.parts.head? with
    | none => exact .unknown
    | some child =>
      obtain ⟨frame, rfl, hfirst⟩ := Frame.exists_firstPart hhead
      exact h rfl (.enclosed hkind hfirst)
  all_goals constructor

private theorem fits_of_child (hlists : (frame.plug child).ListsParameters)
    (h : Child frame child outer inner) : inner.Fits child := by
  cases h with
  | ofType _ hchild =>
    cases hchild with
    | labelled _ _ hlabelled => exact hlabelled
    | parameters _ _ hlist => exact hlist
    | _ => trivial
  | parameter _ _ hparameter => exact hparameter
  | arguments _ hfirst => exact (hlists.of_mem (by simp)).kind_eq hfirst.1
  | _ => trivial

/-- What a node is read as is flat if its children are flat as what they are read as and it is no
union in parentheses that is a member of a union. -/
theorem flat_of_children (hlists : node.ListsParameters) (hfits : outer.Fits node)
    (hplain : outer = .alternative → ¬ node.WrapsUnion)
    (h : ∀ {frame child inner}, node = Frame.plug frame child → Child frame child outer inner →
      isLeftOut source node = false → inner.Flat (ofNode source child)) :
    outer.Flat (ofNode source node) := by
  have hread {frame : Frame} {child : Node} {inner : Role} (hrole : outer ≠ .member)
      (hnode : node = frame.plug child) (hchild : Child frame child outer inner) :
      inner.Flat (ofNode source child) :=
    h hnode hchild (hnode ▸ isLeftOut_of_child hchild hrole)
  have htype (hrole : outer.isType = true) : (ofNode source node).type.Flat :=
    flat_type_of_children hlists fun hnode hchild ↦
      hread (by rintro rfl; cases hrole) hnode (.ofType hrole hchild)
  have hdeclared (hrole : outer = .parameter ∨ outer = .labelled)
      (hparameter : node.isParameter = true) : (ofNode source node).declared.Flat := by
    rw [flat_declared_iff]
    intro child hfield
    obtain ⟨frame, hnode, hfirst⟩ := Frame.exists_firstField hfield
    have hkind : frame.kind = "required_parameter" ∨ frame.kind = "optional_parameter" := by
      simpa [hnode, Node.isParameter] using hparameter
    exact hread (by rcases hrole with rfl | rfl <;> simp) hnode (.declared hrole hkind hfirst)
  cases outer with
  | type => exact htype rfl
  | alternative => exact flat_alternative_iff.mpr ⟨htype rfl, hplain rfl⟩
  | annotated =>
    by_cases hclause : node.isTypeClause = true
    · rw [flat_annotated_iff_of_clause hclause]
      intro child hhead
      obtain ⟨frame, rfl, hfirst⟩ := Frame.exists_firstPart hhead
      exact hread (by simp) rfl (.annotated hclause hfirst)
    · exact (flat_annotated_iff (by simpa using hclause)).mpr (htype rfl)
  | parameters =>
    rw [flat_parameters_iff]
    intro child hmem hnamed hparameter
    obtain ⟨frame, rfl⟩ := Frame.exists_plug hmem
    exact hread (by simp) rfl (.parameter hfits hnamed hparameter)
  | parameter => exact hdeclared (.inl rfl) hfits
  | labelled => exact hdeclared (.inr rfl) hfits
  | member =>
    rw [flat_member_iff]
    intro hkept
    refine ⟨fun hkind child hfield ↦ ?_, fun hkind ↦ ⟨fun child hfield ↦ ?_, fun child hfield ↦ ?_⟩⟩
    · obtain ⟨frame, rfl, hfirst⟩ := Frame.exists_firstField hfield
      exact h rfl (.property hkind hfirst) hkept
    · obtain ⟨frame, rfl, hfirst⟩ := Frame.exists_firstField hfield
      exact h rfl (.arguments hkind hfirst) hkept
    · obtain ⟨frame, rfl, hfirst⟩ := Frame.exists_firstField hfield
      exact h rfl (.returned hkind hfirst) hkept

/-! ### Places -/

/-- What stands in a place that is read is flat if the whole is. -/
theorem flat_of_stands {frames : List Frame} (h : Stands outer frames node role)
    (hkept : Kept source frames node)
    (hflat : outer.Flat (ofNode source (Frame.plugAll frames node))) :
    role.Flat (ofNode source node) := by
  induction h with
  | here => exact hflat
  | inside hchild _ ih => exact ih hkept.2 (flat_of_child hchild hkept.1 hflat)

/-- What a node is read as is flat exactly if nowhere in it is a union in parentheses read as a
member of a union. -/
theorem flat_iff (hlists : node.ListsParameters) (hfits : outer.Fits node) :
    outer.Flat (ofNode source node) ↔
      ∀ frames hole, node = Frame.plugAll frames hole → Stands outer frames hole .alternative →
        Kept source frames hole → ¬ hole.WrapsUnion := by
  constructor
  · rintro hflat frames hole rfl hstands hkept
    exact (flat_alternative_iff.mp (flat_of_stands hstands hkept hflat)).2
  · intro h
    induction node using Node.childInduction generalizing outer with
    | step node ih =>
      apply flat_of_children hlists hfits
      · rintro rfl
        exact h [] node rfl .here trivial
      · rintro frame child inner rfl hchild hkept
        apply ih child (by simp) (hlists.of_mem (by simp)) (fits_of_child hlists hchild)
        rintro frames hole rfl hstands hrest
        exact h (frame :: frames) hole rfl (.inside hchild hstands) ⟨hkept, hrest⟩

end Reading

end Signature

end PropDoc
