import PropDoc.Proofs.Props.Parameter
import PropDoc.Proofs.Signature.Uncommented

/-!
# Comments in parameters and props types

Taking all comments out of the tree of a file changes neither which parameter of a function comes
first, nor the signature of any type, nor the table of a function's props. An object type with
nothing but comments in it has no members.
-/

namespace PropDoc

open PropDoc.Syntax

/-- The file without the comments in its tree. Its text is kept. -/
def SourceFile.withoutComments (file : SourceFile) : SourceFile :=
  { file with root := file.root.withoutComments }

/-- The members of a props type without the comments below them. -/
def ParameterType.withoutComments : ParameterType → ParameterType
  | inPlace members => .inPlace members.withoutComments
  | declared name members file => .declared name members.withoutComments file.withoutComments

namespace Syntax.Node

variable {function parameter : Node} {name : String}

private theorem PlainComments.of_field? {node child : Node} (h : node.PlainComments)
    (hfield : node.field? name = some child) : child.PlainComments :=
  h.of_mem (List.mem_of_find?_eq_some hfield)

private theorem PlainComments.of_firstParameter? (h : function.PlainComments)
    (hfirst : function.firstParameter? = some parameter) : parameter.PlainComments := by
  obtain ⟨list, hlist, hparameter⟩ := Option.bind_eq_some_iff.mp hfirst
  have hmem := List.mem_of_find?_eq_some hparameter
  exact (h.of_field? hlist).of_mem (List.mem_filter.mp hmem).1

/-- The first parameter is what is left of the first parameter before. -/
theorem firstParameter?_withoutComments (h : function.PlainComments) :
    function.withoutComments.firstParameter? = function.firstParameter?.map withoutComments := by
  rw [firstParameter?, firstParameter?, field?_withoutComments h (by decide), Option.bind_map,
    Option.map_bind]
  congr 1
  funext list
  exact find?_namedChildren_withoutComments isParameter_withoutComments
    (fun _ hparameter ↦ isComment_of_isParameter hparameter) list

/-- A field of the first parameter is what is left of that field before. -/
theorem parameterField?_withoutComments (h : function.PlainComments) (hname : name ≠ "") :
    (function.withoutComments.firstParameter?.bind fun parameter ↦ parameter.field? name) =
      (function.firstParameter?.bind fun parameter ↦ parameter.field? name).map
        withoutComments := by
  rw [firstParameter?_withoutComments h]
  cases hfirst : function.firstParameter? with
  | none => rfl
  | some parameter =>
    exact field?_withoutComments (h.of_firstParameter? hfirst) hname

end Syntax.Node

namespace Destructured

variable {source : Source} {element function : Node}

private theorem initializer_withoutComments (h : element.PlainComments) :
    (((element.withoutComments.field? "value").filter fun value ↦
        value.kind == "assignment_pattern").bind fun value ↦ value.field? "right").map
          (Node.text source) =
      (((element.field? "value").filter fun value ↦
        value.kind == "assignment_pattern").bind fun value ↦ value.field? "right").map
          (Node.text source) := by
  rw [Node.field?_withoutComments h (by decide)]
  cases hvalue : element.field? "value" with
  | none => rfl
  | some value =>
    have hright := Node.fieldText_withoutComments source (h.of_field? hvalue)
      (show "right" ≠ "" by decide)
    by_cases hkind : value.kind = "assignment_pattern"
    · simpa [Option.filter, hkind] using hright
    · simp [Option.filter, hkind]

private theorem ofElement?_withoutComments (h : element.PlainComments) :
    ofElement? source element.withoutComments = ofElement? source element := by
  rw [ofElement?, ofElement?, Node.kind_withoutComments, Node.text_withoutComments]
  split
  · rfl
  · rw [Node.fieldText_withoutComments source h (by decide),
      Node.field?_withoutComments h (by decide), Option.map_map]
    simp only [Function.comp_def, Node.text_withoutComments]
  · simp only [initializer_withoutComments h]
    rw [Node.field?_withoutComments h (by decide), Option.bind_map]
    simp only [Function.comp_def, Node.kind_withoutComments, Node.text_withoutComments]
  · rfl

private theorem ofElement?_of_isComment (h : element.isComment = true) :
    ofElement? source element = none := by
  have hkind : element.kind = "comment" := beq_iff_eq.mp h
  simp [ofElement?, hkind]

private theorem elements_withoutComments (h : function.PlainComments) :
    elements function.withoutComments =
      ((elements function).filter fun element ↦ !element.isComment).map Node.withoutComments := by
  rw [elements, elements, Node.parameterField?_withoutComments h (by decide)]
  cases function.firstParameter?.bind fun parameter ↦ parameter.field? "pattern" with
  | none => rfl
  | some pattern =>
    by_cases hkind : pattern.kind = "object_pattern"
    · simp [Option.filter, hkind, Node.namedChildren_withoutComments]
    · simp [Option.filter, hkind]

private theorem plainComments_of_mem_elements (h : function.PlainComments)
    (hmem : element ∈ elements function) : element.PlainComments := by
  rw [elements] at hmem
  split at hmem
  · next pattern hpattern =>
    obtain ⟨hfield, -⟩ := Option.filter_eq_some_iff.mp hpattern
    obtain ⟨parameter, hfirst, hfield⟩ := Option.bind_eq_some_iff.mp hfield
    have hplain := (h.of_firstParameter? hfirst).of_field? hfield
    exact hplain.of_mem (List.mem_filter.mp hmem).1
  · cases hmem

/-- What a pattern reads does not change with the comments. -/
theorem ofFunction_withoutComments (h : function.PlainComments) :
    ofFunction source function.withoutComments = ofFunction source function := by
  rw [ofFunction_eq_filterMap, ofFunction_eq_filterMap, elements_withoutComments h,
    List.filterMap_map, List.filterMap_filter]
  apply List.filterMap_congr
  intro element hmem
  cases hcomment : element.isComment with
  | true => simp [ofElement?_of_isComment hcomment]
  | false => simp [ofElement?_withoutComments (plainComments_of_mem_elements h hmem)]

end Destructured

namespace PropTable

variable {function : Node} {file : SourceFile} {type : ParameterType}

private theorem ofMember?_withoutComments {source : Source} {read : List Destructured}
    {member : Node} (h : member.PlainComments) :
    ofMember? source read member.withoutComments = ofMember? source read member := by
  rw [ofMember?, ofMember?, Node.isMember_withoutComments, Node.memberKey?_withoutComments h,
    Node.isOptional_withoutComments, Signature.ofMember_withoutComments h]

/-- The table of a function's props does not change with the comments. -/
theorem ofFunction_withoutComments (h : function.PlainComments)
    (hmembers : type.members.PlainComments) :
    ofFunction function.withoutComments file.withoutComments type.withoutComments =
      ofFunction function file type := by
  have hparts : type.withoutComments.members.parts =
      type.members.parts.map Node.withoutComments := by
    cases type <;> exact Node.parts_withoutComments _
  have hsource : type.withoutComments.source file.withoutComments.source =
      type.source file.source := by
    cases type <;> rfl
  have hread : Destructured.ofFunction file.withoutComments.source function.withoutComments =
      Destructured.ofFunction file.source function := Destructured.ofFunction_withoutComments h
  rw [ofFunction, ofFunction, hparts, hsource, hread, List.filterMap_map]
  congr 1
  apply List.filterMap_congr
  intro member hmember
  rw [Node.parts_eq_filter] at hmember
  exact ofMember?_withoutComments (hmembers.of_mem (List.mem_filter.mp hmember).1)

end PropTable

namespace ParameterType

variable {project : Project} {file : SourceFile} {strict : Bool} {function type : Node}

private theorem annotatedType?_withoutComments (node : Node) :
    node.withoutComments.annotatedType? = node.annotatedType?.map Node.withoutComments := by
  rw [Node.annotatedType?, Node.annotatedType?, Node.isTypeClause_withoutComments,
    Node.parts_withoutComments, List.head?_map]
  split <;> rfl

private theorem propsType?_withoutComments (h : function.PlainComments) :
    propsType? function.withoutComments = (propsType? function).map Node.withoutComments := by
  rw [propsType?, propsType?, Node.parameterField?_withoutComments h (by decide), Option.bind_map,
    Option.map_bind]
  congr 1
  funext annotation
  exact annotatedType?_withoutComments annotation

private theorem isEmpty_parts_iff (node : Node) : node.parts.isEmpty = true ↔
    ∀ child ∈ node.children, child.named = true → child.isComment = true := by
  rw [List.isEmpty_iff, Node.parts_eq_filter, List.filter_eq_nil_iff]
  simp [Node.isPart]

private theorem ofFunction_eq_none_iff (htype : propsType? function = some type)
    (hkind : type.kind = "object_type") :
    ofFunction project file strict function = .ok none ↔ type.parts.isEmpty = true := by
  simp only [ofFunction, htype, hkind, beq_self_eq_true, if_true]
  split <;> simp_all

end ParameterType

/-- Comments are not seen. Taking them out of a tree leaves every other node with its label, in the
same order. It changes neither the signature of any node, nor which parameter of a function comes
first, nor the props of a function; and an object type in place has no members exactly if nothing
but comments is named in it, before and after. -/
theorem withoutComments_unseen {root : Node} (h : root.PlainComments)
    (hroot : root.isComment = false) :
    (root.withoutComments.nodes =
      (root.nodes.filter fun node ↦ !node.isComment).map Node.withoutComments) ∧
    (∀ node ∈ root.nodes, node.withoutComments.label = node.label ∧
      ∀ source, Signature.ofNode source node.withoutComments = Signature.ofNode source node) ∧
    (∀ function ∈ root.nodes,
      function.withoutComments.firstParameter? =
        function.firstParameter?.map Node.withoutComments) ∧
    (∀ function ∈ root.nodes, ∀ file type, type.members.PlainComments →
      PropTable.ofFunction function.withoutComments file.withoutComments type.withoutComments =
        PropTable.ofFunction function file type) ∧
    ∀ function ∈ root.nodes, ∀ project file strict type,
      ParameterType.propsType? function = some type → type.kind = "object_type" →
        (ParameterType.ofFunction project file strict function = .ok none ↔
          ∀ child ∈ type.children, child.named = true → child.isComment = true) ∧
        (ParameterType.ofFunction project file strict function.withoutComments = .ok none ↔
          ∀ child ∈ type.children, child.named = true → child.isComment = true) := by
  refine ⟨Node.nodes_withoutComments h hroot, ?_, ?_, ?_, ?_⟩
  · intro node hnode
    refine ⟨node.label_withoutComments, fun source ↦ ?_⟩
    rw [Signature.ofNode, Signature.Reading.ofNode_withoutComments (h.of_mem_nodes hnode)]
    rfl
  · intro function hfunction
    exact Node.firstParameter?_withoutComments (h.of_mem_nodes hfunction)
  · intro function hfunction file type hmembers
    exact PropTable.ofFunction_withoutComments (h.of_mem_nodes hfunction) hmembers
  · intro function hfunction project file strict type htype hkind
    have htype' : ParameterType.propsType? function.withoutComments =
        some type.withoutComments := by
      rw [ParameterType.propsType?_withoutComments (h.of_mem_nodes hfunction), htype,
        Option.map_some]
    have hkind' : type.withoutComments.kind = "object_type" :=
      type.kind_withoutComments.trans hkind
    rw [ParameterType.ofFunction_eq_none_iff htype hkind,
      ParameterType.ofFunction_eq_none_iff htype' hkind', Node.parts_withoutComments,
      List.isEmpty_map, ParameterType.isEmpty_parts_iff]
    exact ⟨Iff.rfl, Iff.rfl⟩

/-- A comment at an offset, five bytes long. -/
def commentAt (n : Nat) : Node := .mk { kind := "comment", start := n, stop := n + 5 } []

/-- The type of a parameter with a comment before the member, before its type and before the bar of
the union. -/
def commentedBody : Node :=
  .mk { kind := "object_type", start := 34, stop := 65 } [
    commentAt 36,
    .mk { kind := "property_signature", start := 42, stop := 63 } [
      .mk { kind := "property_identifier", field := "name", start := 42, stop := 43 } [],
      .mk { kind := "?", named := false, start := 43, stop := 44 } [],
      .mk { kind := "type_annotation", field := "type", start := 44, stop := 63 } [
        commentAt 46,
        .mk { kind := "union_type", start := 52, stop := 63 } [
          .mk { kind := "type_identifier", start := 52, stop := 53 } [],
          commentAt 54,
          .mk { kind := "type_identifier", start := 62, stop := 63 } []]]]]

/-- A function with comments in its parameters, their pattern and their type. -/
def commentedFunction : Node :=
  .mk { kind := "function_declaration", stop := 69 } [
    .mk { kind := "formal_parameters", field := "parameters", start := 10, stop := 66 } [
      commentAt 11,
      .mk { kind := "required_parameter", start := 17, stop := 65 } [
        .mk { kind := "object_pattern", field := "pattern", start := 17, stop := 32 } [
          commentAt 19,
          .mk { kind := "object_assignment_pattern", start := 25, stop := 30 } [
            .mk { kind := "shorthand_property_identifier_pattern", field := "left", start := 25,
                  stop := 26 } [],
            .mk { kind := "number", field := "right", start := 29, stop := 30 } []]],
        .mk { kind := "type_annotation", field := "type", start := 32, stop := 65 } [
          commentedBody]]]]

/-- The file of that function. -/
def commentedFile : SourceFile where
  path := ⟨"F.tsx"⟩
  source := .ofString ("function F(/*p*/ \x7b /*q*/ a = 1 \x7d: " ++
    "\x7b /*m*/ a?: /*t*/ A /*u*/ | B \x7d) \x7b\x7d\n")
  root := .mk { kind := "program", stop := 70 } [commentedFunction]

/-- Five comments go, and the prop with its default, its type and its mark stays. -/
theorem withoutComments_unseen_everywhere :
    commentedFile.root.PlainComments ∧ commentedBody.PlainComments ∧
    (commentedFile.root.nodes.countP Node.isComment = 5 ∧
      commentedFile.root.withoutComments.nodes.countP Node.isComment = 0) ∧
    ((PropTable.ofFunction commentedFunction.withoutComments commentedFile.withoutComments
      (.inPlace commentedBody.withoutComments)).entries.map fun entry ↦
        (entry.1, entry.2.required, entry.2.default?, entry.2.type.text)) =
      [("a", false, some "1", "A | B")] := by
  have hfile : commentedFile.root.PlainComments := by decide
  have hbody : commentedBody.PlainComments := by decide
  obtain ⟨hnodes, -, -, htable, -⟩ := withoutComments_unseen hfile rfl
  have hfunction : commentedFunction ∈ commentedFile.root.nodes := by
    rw [Node.nodes_eq]
    apply List.mem_cons_of_mem
    refine List.mem_flatMap.mpr ⟨commentedFunction, List.mem_singleton_self _, ?_⟩
    rw [Node.nodes_eq]
    exact List.mem_cons_self
  refine ⟨hfile, hbody, ⟨by decide, ?_⟩, ?_⟩
  · rw [hnodes]
    decide
  · have hsame := htable commentedFunction hfunction commentedFile (.inPlace commentedBody) hbody
    rw [ParameterType.withoutComments] at hsame
    rw [hsame]
    decide +kernel

end PropDoc
