import Mathlib.Data.List.Forall2
import PropDoc.Proofs.List
import PropDoc.Signature.Basic

/-!
# Types that are written alike

Two nodes are written alike if they differ in nothing but where they lie: what they say about
themselves is the same apart from their place, and so are their texts, each read from a source of
its own, and their children in order. Types that are written alike have the same signature, wherever
they lie in whatever sources.
-/

namespace PropDoc

namespace Syntax

/-- A label without its place. -/
def Label.form (label : Label) : Label := { label with start := 0, stop := 0 }

namespace Node

mutual

/-- Whether two nodes are written alike, the first in one source and the second in another. -/
def alike (here there : Source) : Node → Node → Bool
  | mk label children, mk label' children' =>
    label.form == label'.form &&
      (mk label children).text here == (mk label' children').text there &&
      alikeAll here there children children'

/-- Whether some nodes are written alike, one by one. -/
def alikeAll (here there : Source) : List Node → List Node → Bool
  | [], [] => true
  | node :: nodes, node' :: nodes' =>
    alike here there node node' && alikeAll here there nodes nodes'
  | _, _ => false

end

end Node

end Syntax

open PropDoc.Syntax

/-! ### Nodes -/

namespace Syntax.Node

/-- The first node in its source and the second in its are written alike. -/
def Alike (here there : Source) (a b : Node) : Prop := alike here there a b = true

instance (here there : Source) (a b : Node) : Decidable (Alike here there a b) :=
  inferInstanceAs (Decidable (alike here there a b = true))

variable {here there : Source} {a b : Node}

/-- Lists of nodes are alike exactly if their nodes are, one by one. -/
theorem alikeAll_iff_forall₂ {nodes nodes' : List Node} :
    alikeAll here there nodes nodes' = true ↔ List.Forall₂ (Alike here there) nodes nodes' := by
  induction nodes generalizing nodes' with
  | nil => cases nodes' <;> simp [alikeAll]
  | cons node nodes ih => cases nodes' <;> simp [alikeAll, ih, Alike]

private theorem alike_iff : Alike here there a b ↔
    a.label.form = b.label.form ∧ a.text here = b.text there ∧
      List.Forall₂ (Alike here there) a.children b.children := by
  cases a with
  | mk label children =>
    cases b with
    | mk label' children' =>
      rw [Alike, alike]
      simp [alikeAll_iff_forall₂, Node.label, Node.children, and_assoc]

namespace Alike

private theorem text_eq (h : Alike here there a b) : a.text here = b.text there :=
  (alike_iff.mp h).2.1

/-- Nodes that are alike are of the same kind. -/
theorem kind_eq (h : Alike here there a b) : a.kind = b.kind :=
  (Label.mk.injEq .. ▸ (alike_iff.mp h).1).1

/-- Nodes that are alike are the same field. -/
theorem field_eq (h : Alike here there a b) : a.field = b.field :=
  (Label.mk.injEq .. ▸ (alike_iff.mp h).1).2.1

private theorem named_eq (h : Alike here there a b) : a.named = b.named :=
  (Label.mk.injEq .. ▸ (alike_iff.mp h).1).2.2.1

private theorem rel_field? (h : Alike here there a b) (name : String) :
    Option.Rel (Alike here there) (a.field? name) (b.field? name) :=
  rel_find? (alike_iff.mp h).2.2 fun _ _ hab ↦ by rw [hab.field_eq]

/-- Members that are alike are both optional or both not. -/
theorem isOptional_eq (h : Alike here there a b) : a.isOptional = b.isOptional := by
  have hmarks : a.children.map (fun child ↦ !child.named && child.kind == "?") =
      b.children.map (fun child ↦ !child.named && child.kind == "?") :=
    map_eq_of_forall₂ (alike_iff.mp h).2.2 fun _ _ hab ↦ by rw [hab.named_eq, hab.kind_eq]
  simpa [isOptional, List.any_map] using congrArg (fun marks ↦ marks.any id) hmarks

/-- Members that are alike have the same key. -/
theorem memberKey?_eq (h : Alike here there a b) : a.memberKey? here = b.memberKey? there := by
  apply bind_eq_of_rel (h.rel_field? "name")
  intro name name' hname
  rw [hname.kind_eq, hname.text_eq]

end Alike

/-- Nodes with children that are alike have parts that are alike. -/
theorem forall₂_parts (h : List.Forall₂ (Alike here there) a.children b.children) :
    List.Forall₂ (Alike here there) a.parts b.parts := by
  apply forall₂_filter (forall₂_filter h fun _ _ hab ↦ hab.named_eq)
  intro a b hab
  rw [isComment, isComment, hab.kind_eq]

end Syntax.Node

namespace Signature

/-! ### Readings -/

namespace Reading

/-- Two readings say the same of nodes that are written alike. -/
structure Alike (here there : Source) (a b : Reading) : Prop where
  node : a.node.Alike here there b.node
  type : a.type = b.type
  alternatives : a.alternatives = b.alternatives
  annotated : a.annotated = b.annotated
  declared : a.declared = b.declared
  parameters : a.parameters = b.parameters
  member : a.member = b.member
  property : a.property = b.property

variable {here there : Source} {a b : Node} {below below' : List Reading}

section

variable (h : List.Forall₂ (Alike here there) below below')

include h

private theorem rel_fieldReading (name : String) :
    Option.Rel (Alike here there) (field? below name) (field? below' name) :=
  rel_find? h fun _ _ hab ↦ by rw [hab.node.field_eq]

private theorem forall₂_partReadings :
    List.Forall₂ (Alike here there) (parts below) (parts below') :=
  forall₂_filter h fun _ _ hab ↦ by
    rw [hab.node.named_eq, Node.isComment, Node.isComment, hab.node.kind_eq]

private theorem annotatedField_of_alike (name : String) :
    annotatedField below name = annotatedField below' name := by
  rw [annotatedField, annotatedField,
    bind_eq_of_rel (rel_fieldReading h name) fun _ _ hab ↦ hab.annotated]

private theorem argumentsOf_of_alike : argumentsOf below = argumentsOf below' := by
  rw [argumentsOf, argumentsOf,
    map_eq_of_rel (rel_fieldReading h "parameters") fun _ _ hab ↦ hab.parameters]

private theorem alternativesOf_of_alike : alternativesOf below = alternativesOf below' := by
  rw [alternativesOf, alternativesOf, List.flatMap_def, List.flatMap_def,
    map_eq_of_forall₂ (forall₂_partReadings h) fun _ _ hab ↦ hab.alternatives]

private theorem elementsOf_of_alike : elementsOf below = elementsOf below' :=
  map_eq_of_forall₂ (forall₂_partReadings h) fun _ _ hab ↦ by
    rw [Node.isParameter, Node.isParameter, hab.node.kind_eq, hab.declared, hab.type]

private theorem resultOf_of_alike : resultOf below = resultOf below' := by
  have hresult := map_eq_of_rel (rel_fieldReading h "return_type") fun _ _ hab ↦ hab.type
  have hlast := map_eq_of_rel (rel_getLast? (forall₂_partReadings h)) fun _ _ hab ↦ hab.type
  rw [resultOf, resultOf, Option.map_or, Option.map_or, hresult, hlast]

private theorem parametersOf_of_alike : parametersOf here below = parametersOf there below' := by
  apply map_eq_of_forall₂
  · apply forall₂_filter h
    intro _ _ hab
    rw [hab.node.named_eq, Node.isParameter, Node.isParameter, hab.node.kind_eq]
  · intro _ _ hab
    rw [map_eq_of_rel (hab.node.rel_field? "pattern") fun _ _ hpattern ↦ hpattern.text_eq,
      hab.declared]

private theorem memberOf_of_alike (hnode : a.Alike here there b) :
    memberOf a below = memberOf b below' := by
  rw [memberOf, memberOf, hnode.kind_eq, argumentsOf_of_alike h, annotatedField_of_alike h,
    annotatedField_of_alike h]

private theorem propertyOf_of_alike (hnode : a.Alike here there b) :
    propertyOf here a below = propertyOf there b below' := by
  have hindex := hnode.rel_field? "index_type"
  rw [propertyOf, propertyOf, Node.isMember, Node.isMember, hnode.kind_eq, hnode.memberKey?_eq,
    hnode.isOptional_eq, memberOf_of_alike h hnode, annotatedField_of_alike h,
    map_eq_of_rel hindex fun _ _ hindex ↦ by rw [hindex.text_eq]]

private theorem typeOf_of_alike (hnode : a.Alike here there b) :
    typeOf here a below = typeOf there b below' := by
  have hhead := rel_head? (forall₂_partReadings h)
  have hinner := map_eq_of_rel hhead fun _ _ hab ↦ hab.type
  have helement := map_eq_of_rel hhead fun _ _ hab ↦ congrArg Signature.array hab.type
  have hproperties : (parts below).filterMap property = (parts below').filterMap property :=
    filterMap_eq_of_forall₂ (forall₂_partReadings h) fun _ _ hab ↦ hab.property
  rw [typeOf, typeOf, hnode.kind_eq, hnode.text_eq, alternativesOf_of_alike h, hinner, helement,
    elementsOf_of_alike h, argumentsOf_of_alike h, resultOf_of_alike h, hproperties]

private theorem alike_step (hnode : a.Alike here there b) :
    Alike here there (step here a below) (step there b below') where
  node := hnode
  type := typeOf_of_alike h hnode
  alternatives := by
    rw [step, step, hnode.kind_eq, alternativesOf_of_alike h, typeOf_of_alike h hnode]
  annotated := by
    have hinner := map_eq_of_rel (rel_head? (forall₂_partReadings h)) fun _ _ hab ↦ hab.type
    rw [step, step, Node.isTypeClause, Node.isTypeClause, hnode.kind_eq, hinner,
      typeOf_of_alike h hnode]
  declared := annotatedField_of_alike h "type"
  parameters := parametersOf_of_alike h
  member := memberOf_of_alike h hnode
  property := propertyOf_of_alike h hnode

end

mutual

/-- Nodes that are written alike have readings that say the same. -/
theorem alike_ofNode : ∀ {a b : Node}, a.Alike here there b →
    Alike here there (ofNode here a) (ofNode there b)
  | .mk label children, .mk label' children', h => by
    have hchildren := forall₂_ofNode (Node.alike_iff.mp h).2.2
    rw [ofNode, ofNode, Node.fold_eq, Node.fold_eq]
    exact alike_step hchildren h

private theorem forall₂_ofNode : ∀ {nodes nodes' : List Node},
    List.Forall₂ (Node.Alike here there) nodes nodes' →
      List.Forall₂ (Alike here there) (nodes.map (ofNode here)) (nodes'.map (ofNode there))
  | [], [], _ => .nil
  | node :: nodes, node' :: nodes', h => by
    obtain ⟨hnode, hnodes⟩ := List.forall₂_cons.mp h
    exact .cons (alike_ofNode hnode) (forall₂_ofNode hnodes)
  | [], _ :: _, h => nomatch h
  | _ :: _, [], h => nomatch h

end

end Reading

/-- Types that are written alike have the same signature. -/
theorem ofNode_of_alike {here there : Source} {a b : Node} (h : a.Alike here there b) :
    ofNode here a = ofNode there b :=
  (Reading.alike_ofNode h).type

/-- Properties and methods that are written alike have the same signature. -/
theorem ofMember_of_alike {here there : Source} {a b : Node} (h : a.Alike here there b) :
    ofMember here a = ofMember there b :=
  (Reading.alike_ofNode h).member

end Signature

end PropDoc
