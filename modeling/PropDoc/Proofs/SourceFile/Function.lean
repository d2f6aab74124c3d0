import PropDoc.Component
import PropDoc.Proofs.Syntax.NamedPreorder

/-!
# The function behind a variable

The function behind an exported variable is looked for in its initializer. It is the first function
value in pre-order over named children, so the one with the least path: a function comes before
those inside it, and those in an earlier child before those in a later one, however deep either
lies. A search that keeps the nodes still to visit on a stack finds the same.
-/

namespace PropDoc

open PropDoc.Syntax

namespace Syntax

/-! ### Searches -/

namespace Node

private theorem firstFunctionIn?_eq_findSome? (nodes : List Node) :
    firstFunctionIn? nodes = (nodes.filter named).findSome? firstFunction? := by
  induction nodes with
  | nil => rfl
  | cons node nodes ih =>
    rw [firstFunctionIn?, ih]
    split
    · next hnamed =>
      rw [List.filter_cons_of_pos hnamed, List.findSome?_cons]
      cases firstFunction? node <;> rfl
    · next hnamed => rw [List.filter_cons_of_neg hnamed]

private theorem firstFunction?_eq (node : Node) :
    firstFunction? node = if node.isFunctionValue then some node
      else node.namedChildren.findSome? firstFunction? := by
  obtain ⟨label, children⟩ := node
  rw [firstFunction?, firstFunctionIn?_eq_findSome?]
  rfl

end Node

namespace Focus

variable {focus value function other : Focus}

private theorem map_node_namedChildren (focus : Focus) :
    focus.namedChildren.map Focus.node = focus.node.namedChildren := by
  rw [namedChildren, Node.namedChildren, ← map_node_children, List.filter_map]
  rfl

/-- Whether a node is a function that can be a value. -/
def isFunctionValue (focus : Focus) : Bool := focus.node.isFunctionValue

/-- The first function value in a node, in pre-order over named children. -/
def firstFunction? (focus : Focus) : Option Focus := focus.namedPreorder.find? isFunctionValue

/-- A search for a function value that keeps the nodes still to visit on a stack. A node that is
none gives way to its named children, the first of them on top. -/
def searchStack? : List Focus → Option Focus
  | [] => none
  | focus :: waiting =>
    if focus.isFunctionValue then some focus else searchStack? (focus.namedChildren ++ waiting)
termination_by stack => (stack.flatMap namedPreorder).length
decreasing_by
  rw [List.flatMap_append, List.flatMap_cons, namedPreorder_eq]
  simp

/-- The nodes still to be visited are those below the nodes on the stack, the topmost first. -/
theorem searchStack?_eq_find? (stack : List Focus) :
    searchStack? stack = (stack.flatMap namedPreorder).find? isFunctionValue := by
  fun_induction searchStack? stack with
  | case1 => rfl
  | case2 focus waiting hfunction =>
    rw [List.flatMap_cons, namedPreorder_eq, List.cons_append, List.find?_cons_of_pos hfunction]
  | case3 focus waiting hother ih =>
    rw [ih, List.flatMap_append, List.flatMap_cons, namedPreorder_eq, List.cons_append,
      List.find?_cons_of_neg hother]

/-- The search of the nodes alone finds the node of the first function. -/
theorem map_node_firstFunction? (focus : Focus) :
    focus.firstFunction?.map Focus.node = focus.node.firstFunction? := by
  induction focus using childInduction with
  | step focus ih =>
    have hsame : focus.node.isFunctionValue = focus.isFunctionValue := rfl
    rw [firstFunction?, namedPreorder_eq, Node.firstFunction?_eq, hsame]
    by_cases hfunction : focus.isFunctionValue = true
    · rw [List.find?_cons_of_pos hfunction, if_pos hfunction, Option.map_some]
    · rw [List.find?_cons_of_neg hfunction, if_neg hfunction, List.find?_flatMap,
        List.map_findSome?, ← map_node_namedChildren, List.findSome?_map]
      apply findSome?_congr
      intro child hchild
      exact ih child (mem_children_of_mem_namedChildren hchild)

/-! ### The first function -/

/-- A function value is the first of those reached from a node: its path is the least. -/
structure FirstFunction (value function : Focus) : Prop where
  reached : Reaches value function
  isFunction : function.isFunctionValue = true
  least : ∀ other, Reaches value other → other.isFunctionValue = true →
    other = function ∨ function.path < other.path

private theorem firstFunction_of_eq_some (h : value.firstFunction? = some function) :
    FirstFunction value function := by
  obtain ⟨hfunction, before, after, hsplit, hbefore⟩ := List.find?_eq_some_iff_append.mp h
  refine ⟨mem_namedPreorder_iff.mp (by simp [hsplit]), hfunction, ?_⟩
  intro other hreach hother
  have hmem := mem_namedPreorder_iff.mpr hreach
  have hpaths := value.pairwise_path_namedPreorder
  rw [hsplit, List.pairwise_append, List.pairwise_cons] at hpaths
  rw [hsplit, List.mem_append, List.mem_cons] at hmem
  rcases hmem with hmem | heq | hmem
  · simpa [hother] using hbefore other hmem
  · exact .inl heq
  · exact .inr (hpaths.2.1.1 other hmem)

private theorem firstFunction?_eq_none_iff :
    value.firstFunction? = none ↔ ∀ other, Reaches value other → other.isFunctionValue = false := by
  simp [firstFunction?, mem_namedPreorder_iff]

namespace FirstFunction

private theorem unique (h : FirstFunction value function) (h' : FirstFunction value other) :
    other = function := by
  rcases h.least other h'.reached h'.isFunction with heq | hlt
  · exact heq
  · rcases h'.least function h.reached h.isFunction with heq | hlt'
    · exact heq.symm
    · exact absurd hlt' (List.lt_asymm hlt)

/-- It does not lie inside another function. -/
theorem eq_of_mem_preorder (h : FirstFunction value function) (hreach : Reaches value other)
    (hother : other.isFunctionValue = true) (hinside : function ∈ other.preorder) :
    function = other := by
  rw [preorder_eq, List.mem_cons, List.mem_flatMap] at hinside
  rcases hinside with heq | ⟨child, hchild, hbelow⟩
  · exact heq
  · rcases h.least other hreach hother with heq | hlt
    · exact heq.symm
    · exact absurd hlt (List.lt_asymm (path_lt_of_mem_preorder hchild hbelow))

/-- There is no function in an earlier child of a node than the one it lies in. -/
theorem not_isFunctionValue (h : FirstFunction value function) {parent earlier later : Focus}
    (hparent : Reaches value parent) (horder : [earlier, later].Sublist parent.namedChildren)
    (hinside : function ∈ later.preorder) (hother : Reaches earlier other) :
    other.isFunctionValue = false := by
  have hpaths := ((pairwise_path_children parent).sublist List.filter_sublist).sublist horder
  have hlt : other.path < function.path :=
    List.pairwise_pair.mp hpaths other hother.mem_preorder function hinside
  have hearlier : earlier ∈ parent.namedChildren := horder.mem List.mem_cons_self
  rw [← Bool.not_eq_true]
  intro hfunction
  rcases h.least other (hparent.trans (.step hearlier hother)) hfunction with rfl | hlt'
  · exact List.lt_irrefl _ hlt
  · exact List.lt_asymm hlt hlt'

end FirstFunction

private theorem firstFunction?_eq_some_iff :
    value.firstFunction? = some function ↔ FirstFunction value function := by
  refine ⟨firstFunction_of_eq_some, fun h ↦ ?_⟩
  cases hfound : value.firstFunction? with
  | none =>
    have hnone := firstFunction?_eq_none_iff.mp hfound function h.reached
    rw [h.isFunction] at hnone
    cases hnone
  | some other => rw [h.unique (firstFunction_of_eq_some hfound)]

end Focus

end Syntax

/-- The initializer of an exported variable. -/
def Export.initializer? (item : Export) : Option Focus := item.focus.field? "value"

namespace SourceFile

open Focus

variable {file : SourceFile} {item : Export}

private theorem functionOf_eq (hkind : item.kind = .binding) :
    file.functionOf item =
      match item.initializer?.bind firstFunction? with
      | some function => .ok function.node
      | none => .error (.missingFunction file.path ((file.exportName? item).getD "")) := by
  have hfound : (item.focus.node.field? "value").bind Node.firstFunction? =
      (item.initializer?.bind firstFunction?).map Focus.node := by
    rw [Export.initializer?, ← map_node_field?]
    cases item.focus.field? "value" with
    | none => rfl
    | some value => exact (map_node_firstFunction? value).symm
  rw [functionOf, hkind]
  dsimp only
  rw [hfound]
  cases item.initializer?.bind firstFunction? <;> rfl

private theorem functionOf_eq_ok_iff (hkind : item.kind = .binding) (node : Node) :
    file.functionOf item = .ok node ↔
      ∃ value function, item.initializer? = some value ∧
        value.firstFunction? = some function ∧ function.node = node := by
  rw [functionOf_eq hkind]
  cases hvalue : item.initializer? with
  | none => simp
  | some value => cases hfound : value.firstFunction? <;> simp [hfound]

private theorem functionOf_eq_error_iff (hkind : item.kind = .binding) (error : Error) :
    file.functionOf item = .error error ↔
      error = .missingFunction file.path ((file.exportName? item).getD "") ∧
        ∀ value, item.initializer? = some value →
          ∀ other, Reaches value other → other.isFunctionValue = false := by
  simp only [← firstFunction?_eq_none_iff]
  rw [functionOf_eq hkind]
  cases hvalue : item.initializer? with
  | none => simp [eq_comm]
  | some value => cases hfound : value.firstFunction? <;> simp [hfound, eq_comm]

/-- Behind an exported variable stands the first function value of its initializer in pre-order over
named children, and without one the variable is refused. A search with a stack finds the same. The
first function has the least path of all that are reached, so it does not lie inside another one,
and no earlier child than the one it lies in has a function. -/
theorem functionOf_binding (hkind : item.kind = .binding) :
    (∀ node, file.functionOf item = .ok node ↔
      ∃ value function, item.initializer? = some value ∧
        value.firstFunction? = some function ∧ function.node = node) ∧
    (∀ error, file.functionOf item = .error error ↔
      error = .missingFunction file.path ((file.exportName? item).getD "") ∧
        ∀ value, item.initializer? = some value →
          ∀ other, Reaches value other → other.isFunctionValue = false) ∧
    ∀ value, item.initializer? = some value →
      value.firstFunction? = searchStack? [value] ∧
      ∀ function, value.firstFunction? = some function ↔ FirstFunction value function ∧
        (∀ other, Reaches value other → other.isFunctionValue = true →
          function ∈ other.preorder → function = other) ∧
        ∀ parent earlier later, Reaches value parent →
          [earlier, later].Sublist parent.namedChildren → function ∈ later.preorder →
            ∀ other, Reaches earlier other → other.isFunctionValue = false := by
  refine ⟨functionOf_eq_ok_iff hkind, functionOf_eq_error_iff hkind,
    fun value _ ↦ ⟨?_, fun function ↦ ?_⟩⟩
  · rw [searchStack?_eq_find?, firstFunction?, List.flatMap_singleton]
  · rw [firstFunction?_eq_some_iff]
    refine ⟨fun hfirst ↦ ⟨hfirst, ?_, ?_⟩, And.left⟩
    · exact fun _ ↦ hfirst.eq_of_mem_preorder
    · exact fun _ _ _ hparent horder hinside _ ↦
        hfirst.not_isFunctionValue hparent horder hinside

/-- A function with another one inside it. -/
def outerFunction : Node :=
  .mk { kind := "function_expression", start := 27, stop := 55 } [
    .mk { kind := "function", named := false, start := 27, stop := 35 } [],
    .mk { kind := "formal_parameters", field := "parameters", start := 35, stop := 37 } [],
    .mk { kind := "statement_block", field := "body", start := 38, stop := 55 } [
      .mk { kind := "return_statement", start := 40, stop := 53 } [
        .mk { kind := "return", named := false, start := 40, stop := 46 } [],
        .mk { kind := "arrow_function", start := 47, stop := 53 } []]]]

/-- A file with a variable whose value is a function in two calls, the outer one of which has
another function as its second argument. -/
def wrappedFunction : SourceFile where
  path := ⟨"A.tsx"⟩
  source := .ofString "export const A = memo(wrap(function() { return f => 1 }), f => 2)\n"
  root := .mk { kind := "program", stop := 66 } [
    .mk { kind := "export_statement", stop := 65 } [
      .mk { kind := "export", named := false, stop := 6 } [],
      .mk { kind := "lexical_declaration", field := "declaration", start := 7, stop := 65 } [
        .mk { kind := "const", field := "kind", named := false, start := 7, stop := 12 } [],
        .mk { kind := "variable_declarator", start := 13, stop := 65 } [
          .mk { kind := "identifier", field := "name", start := 13, stop := 14 } [],
          .mk { kind := "=", named := false, start := 15, stop := 16 } [],
          .mk { kind := "call_expression", field := "value", start := 17, stop := 65 } [
            .mk { kind := "identifier", field := "function", start := 17, stop := 21 } [],
            .mk { kind := "arguments", field := "arguments", start := 21, stop := 65 } [
              .mk { kind := "(", named := false, start := 21, stop := 22 } [],
              .mk { kind := "call_expression", start := 22, stop := 56 } [
                .mk { kind := "identifier", field := "function", start := 22, stop := 26 } [],
                .mk { kind := "arguments", field := "arguments", start := 26, stop := 56 } [
                  .mk { kind := "(", named := false, start := 26, stop := 27 } [],
                  outerFunction,
                  .mk { kind := ")", named := false, start := 55, stop := 56 } []]],
              .mk { kind := ",", named := false, start := 56, stop := 57 } [],
              .mk { kind := "arrow_function", start := 58, stop := 64 } [],
              .mk { kind := ")", named := false, start := 64, stop := 65 } []]]]]]]

/-- Of the three functions the outer one of the first argument is taken, although it lies deeper
than the second argument. -/
theorem functionOf_binding_wrapped :
    ∃ item ∈ wrappedFunction.exports, item.kind = .binding ∧
      wrappedFunction.functionOf item = .ok outerFunction ∧
      ∃ value function, item.initializer? = some value ∧
        FirstFunction value function ∧ function.node = outerFunction := by
  have hexports : wrappedFunction.exports.map
      (fun item ↦ (item.kind, wrappedFunction.functionOf item)) =
        [(.binding, .ok outerFunction)] := rfl
  obtain ⟨item, hitem, hseen⟩ := List.map_eq_singleton_iff.mp hexports
  obtain ⟨hkind, hfound⟩ := Prod.mk.inj hseen
  obtain ⟨hok, -, hfirst⟩ := @functionOf_binding wrappedFunction item hkind
  obtain ⟨value, function, hvalue, hfunction, hnode⟩ := (hok outerFunction).mp hfound
  exact ⟨item, by simp [hitem], hkind, hfound, value, function, hvalue,
    (((hfirst value hvalue).2 function).mp hfunction).1, hnode⟩

end SourceFile

end PropDoc
