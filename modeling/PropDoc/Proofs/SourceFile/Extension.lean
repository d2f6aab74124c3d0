import Mathlib.Data.List.Find
import Mathlib.Data.List.ModifyLast
import PropDoc.Proofs.SourceFile.Anchor

/-!
# Exporting again

A statement at the end of a file that exports names of the file declares nothing, so every name of
the file means what it meant before. If what the names stand for is exported already, the exports of
the file stay as they are: the same declarations at the same places, in the same order.
-/

namespace PropDoc

open PropDoc.Syntax

/-! ### Trees with another root -/

namespace Syntax.Focus

/-- The same place in a tree with another root. -/
def under (root : Node) (focus : Focus) : Focus :=
  ⟨focus.node, focus.above.modifyLast fun step ↦ (root, step.2)⟩

variable {root : Node} {focus child : Focus}

@[simp] theorem node_under (root : Node) (focus : Focus) : (focus.under root).node = focus.node :=
  rfl

@[simp] theorem kind_under (root : Node) (focus : Focus) : (focus.under root).kind = focus.kind :=
  rfl

@[simp] theorem address_under (root : Node) (focus : Focus) :
    (focus.under root).address = focus.address := by
  obtain ⟨node, above⟩ := focus
  rcases List.eq_nil_or_concat above with rfl | ⟨steps, last, rfl⟩
  · rfl
  · rw [List.concat_eq_append, address, under, List.modifyLast_concat]
    simp [address]

/-- A node below the root has the same children under another root. -/
theorem children_under (h : focus.above ≠ []) :
    (focus.under root).children = focus.children.map (under root) := by
  rw [children, children, List.map_map]
  apply List.map_congr_left
  rintro ⟨node, position⟩ -
  have hsteps := List.modifyLast_append_of_right_ne_nil (fun step ↦ (root, step.2))
    [(focus.node, position)] focus.above h
  exact congrArg (Focus.mk node) hsteps.symm

private theorem namedChildren_under (h : focus.above ≠ []) :
    (focus.under root).namedChildren = focus.namedChildren.map (under root) := by
  rw [namedChildren, namedChildren, children_under h, List.filter_map]
  rfl

private theorem field?_under (h : focus.above ≠ []) (name : String) :
    (focus.under root).field? name = (focus.field? name).map (under root) := by
  rw [field?, field?, children_under h, List.find?_map]
  rfl

private theorem above_ne_nil_of_mem_children (h : child ∈ focus.children) : child.above ≠ [] := by
  obtain ⟨position, -, habove⟩ := mem_children_iff.mp h
  rw [habove]
  exact List.cons_ne_nil _ _

end Syntax.Focus

namespace Export

/-- The same export in a tree with another root. -/
def under (root : Node) (item : Export) : Export := { item with focus := item.focus.under root }

variable {root : Node} {focus : Focus}

private theorem ofFunction_under (h : focus.above ≠ []) :
    ofFunction (focus.under root) = (ofFunction focus).under root := by
  simp [ofFunction, under, Focus.field?_under h]

private theorem ofVariable_under (h : focus.above ≠ []) :
    ofVariable (focus.under root) = (ofVariable focus).under root := by
  simp [ofVariable, under, Focus.field?_under h, Function.comp_def]

@[simp] theorem isFunction_under (root : Node) (focus : Focus) :
    isFunction (focus.under root) = isFunction focus := rfl

@[simp] theorem isVariables_under (root : Node) (focus : Focus) :
    isVariables (focus.under root) = isVariables focus := rfl

private theorem declaredVariables_under (h : focus.above ≠ []) :
    declaredVariables (focus.under root) = (declaredVariables focus).map (Focus.under root) := by
  rw [declaredVariables, declaredVariables, Focus.namedChildren_under h, List.filter_map]
  rfl

private theorem above_ne_nil_of_mem_declaredVariables {declarator : Focus}
    (h : declarator ∈ declaredVariables focus) : declarator.above ≠ [] :=
  Focus.above_ne_nil_of_mem_children
    (Focus.mem_children_of_mem_namedChildren (List.mem_filter.mp h).1)

private theorem ofDeclaration_under (h : focus.above ≠ []) :
    ofDeclaration (focus.under root) = (ofDeclaration focus).map (under root) := by
  have hvariables : (declaredVariables focus).map (ofVariable ∘ Focus.under root) =
      (declaredVariables focus).map (under root ∘ ofVariable) :=
    List.map_congr_left fun declarator hdeclarator ↦
      ofVariable_under (above_ne_nil_of_mem_declaredVariables hdeclarator)
  rw [ofDeclaration, ofDeclaration, isFunction_under, isVariables_under, ofFunction_under h,
    declaredVariables_under h, List.map_map, hvariables]
  cases isFunction focus with
  | true => rfl
  | false =>
    cases isVariables focus with
    | true => exact List.map_map.symm
    | false => rfl

/-! ### Keeping the first -/

private theorem distinct_map_under (root : Node) (items : List Export) :
    distinct (items.map (under root)) = (distinct items).map (under root) := by
  induction items with
  | nil => rfl
  | cons first rest ih =>
    rw [List.map_cons, distinct, distinct, ih, List.map_cons, List.filter_map]
    simp [under, Function.comp_def]

/-- Of further exports those are kept that declare at new places. -/
theorem distinct_append (items more : List Export) :
    distinct (items ++ more) = distinct items ++ (distinct more).filter fun later ↦
      decide (∀ known ∈ items, later.focus.address ≠ known.focus.address) := by
  induction items with
  | nil => simp [distinct]
  | cons first rest ih =>
    rw [List.cons_append, distinct, distinct, ih, List.filter_append, List.filter_filter,
      List.cons_append]
    simp [Bool.decide_and]

/-- Exports that declare at places that are known add nothing. -/
theorem distinct_append_of_known {items more : List Export}
    (h : ∀ later ∈ more, ∃ known ∈ items, known.focus.address = later.focus.address) :
    distinct (items ++ more) = distinct items := by
  rw [distinct_append, List.filter_eq_nil_iff.mpr, List.append_nil]
  intro later hlater
  obtain ⟨known, hknown, haddress⟩ := h later (mem_of_mem_distinct hlater)
  simp only [decide_eq_true_eq, not_forall, Decidable.not_not]
  exact ⟨known, hknown, haddress.symm⟩

end Export

/-! ### Longer sources -/

namespace Syntax.Source

variable {bytes more : ByteArray} {start stop offset : Nat}

private theorem slice_append (h : stop ≤ bytes.size) :
    (Source.mk (bytes ++ more)).slice start stop = (Source.mk bytes).slice start stop := by
  have hextract : (bytes ++ more).extract start stop = bytes.extract start stop := by
    have hmore : more.extract (start - bytes.size) (stop - bytes.size) = ByteArray.empty :=
      ByteArray.extract_eq_empty_iff.mpr (by omega)
    rw [ByteArray.extract_append, hmore, ByteArray.append_empty]
  rw [slice, slice, hextract]

private theorem before_append (h : offset ≤ bytes.size) :
    (Source.mk (bytes ++ more)).before offset = (Source.mk bytes).before offset := by
  rw [before, before, ByteArray.data_append, Array.toList_append]
  exact List.take_append_of_le_length h

private theorem span_append (h : start ≤ bytes.size) :
    (Source.mk (bytes ++ more)).span start stop = (Source.mk bytes).span start stop := by
  simp only [span, row, column, before_append h]

end Syntax.Source

namespace Syntax.Node

/-- A statement exports names of its own file: in a list, or one of them as the default. -/
structure ExportsNames (statement : Node) : Prop where
  kind : statement.kind = "export_statement"
  source : statement.field? "source" = none
  declaration : statement.field? "declaration" = none
  value : ∀ value, statement.field? "value" = some value → value.kind = "identifier"

/-- The names in a list in braces, before they are renamed. -/
def listedNames (source : Source) (clause : Node) : List String :=
  (clause.namedChildren.filter fun child ↦ child.kind == "export_specifier").filterMap
    fun specifier ↦ (specifier.field? "name").map (text source)

/-- The names that a statement exports: its default value, or else those in its list. -/
def exportedNames (source : Source) (statement : Node) : List String :=
  match statement.field? "value" with
  | some value => [value.text source]
  | none =>
    ((statement.namedChildren.find? fun child ↦ child.kind == "export_clause").map
      (listedNames source)).getD []

end Syntax.Node

namespace SourceFile

open Export

/-- The file with more text and one more statement at its end. Its root spans more than before. -/
def extend (file : SourceFile) (more : Source) (label : Label) (statement : Node) :
    SourceFile where
  path := file.path
  source := ⟨file.source.bytes ++ more.bytes⟩
  root := .mk label (file.root.children ++ [statement])

/-- Every node of a file lies in its source. -/
def Bounded (file : SourceFile) : Prop :=
  ∀ focus ∈ file.rootFocus.preorder,
    focus.node.start ≤ file.source.bytes.size ∧ focus.node.stop ≤ file.source.bytes.size

instance (file : SourceFile) : Decidable file.Bounded :=
  inferInstanceAs (Decidable (∀ focus ∈ file.rootFocus.preorder,
    focus.node.start ≤ file.source.bytes.size ∧ focus.node.stop ≤ file.source.bytes.size))

/-- What names of a file stand for is exported already, if they stand for anything. -/
def KnowsNames (file : SourceFile) (names : List String) : Prop :=
  ∀ name ∈ names, ∀ item ∈ file.declaration? name,
    ∃ known ∈ file.exports, known.focus.address = item.focus.address

instance (file : SourceFile) (names : List String) : Decidable (file.KnowsNames names) :=
  inferInstanceAs (Decidable (∀ name ∈ names, ∀ item ∈ file.declaration? name,
    ∃ known ∈ file.exports, known.focus.address = item.focus.address))

/-- Every node of one file reads the same in another, and lies in the same place. -/
structure ReadsIn (file other : SourceFile) : Prop where
  text : ∀ focus ∈ file.rootFocus.preorder, other.text focus.node = file.text focus.node
  span : ∀ focus ∈ file.rootFocus.preorder, other.span focus.node = file.span focus.node

/-- A node of a file below its root. -/
structure Inner (file : SourceFile) (focus : Focus) : Prop where
  mem : focus ∈ file.rootFocus.preorder
  below : focus.above ≠ []

variable {file other : SourceFile} {root : Node} {focus child : Focus}

/-- Nodes within a file are read the same when more is put at its end. -/
theorem readsIn_extend (h : file.Bounded) (more : Source) (label : Label) (statement : Node) :
    file.ReadsIn (file.extend more label statement) where
  text focus hfocus := Source.slice_append (h focus hfocus).2
  span focus hfocus := Source.span_append (h focus hfocus).1

/-- A child of an inner node is inner. -/
theorem Inner.of_child (h : file.Inner focus) (hchild : child ∈ focus.children) :
    file.Inner child :=
  ⟨Focus.mem_preorder_of_mem_children h.mem hchild, Focus.above_ne_nil_of_mem_children hchild⟩

private theorem inner_of_mem_statements (h : focus ∈ file.statements) : file.Inner focus := by
  have hchild := Focus.mem_children_of_mem_namedChildren h
  exact ⟨Focus.mem_preorder_of_mem_children file.rootFocus.mem_preorder_self hchild,
    Focus.above_ne_nil_of_mem_children hchild⟩

/-- What a file exports lies within it. -/
theorem inner_of_mem_exports {item : Export} (h : item ∈ file.exports) :
    file.Inner item.focus := by
  obtain ⟨statement, hstatement, hheld⟩ := exists_heldBy_of_mem_exports h
  have hinner := inner_of_mem_statements hstatement
  refine ⟨Focus.mem_preorder_trans hinner.mem hheld.mem_preorder, ?_⟩
  intro hnil
  have hsuffix := Focus.above_suffix hheld.mem_preorder
  rw [hnil, List.suffix_nil] at hsuffix
  exact hinner.below hsuffix

/-! ### Names in a longer file -/

private theorem inner_of_declarationIn? {statement declaration : Focus}
    (hstatement : file.Inner statement) (h : declarationIn? statement = some declaration) :
    file.Inner declaration := by
  unfold declarationIn? at h
  split at h
  · exact hstatement.of_child (Focus.mem_children_of_field? h)
  · exact Option.some.inj h ▸ hstatement

private theorem declarationIn?_under {statement : Focus} (h : statement.above ≠ []) :
    declarationIn? (statement.under root) = (declarationIn? statement).map (Focus.under root) := by
  rw [declarationIn?, declarationIn?, Focus.kind_under, Focus.field?_under h]
  cases statement.kind == "export_statement" <;> rfl

/-- What is found out about a field is the same under another root if it is so for every node. -/
theorem map_field?_under {α : Type} {f g : Focus → α} (h : file.Inner focus)
    (hsame : ∀ found, file.Inner found → g (found.under root) = f found) (name : String) :
    ((focus.under root).field? name).map g = (focus.field? name).map f := by
  rw [Focus.field?_under h.below, Option.map_map]
  apply Option.map_congr
  intro found hfound
  exact hsame found (h.of_child (Focus.mem_children_of_field? hfound))

private theorem isNamed_under (hreads : file.ReadsIn other) (h : file.Inner focus)
    (name : String) : other.isNamed name (focus.under root) = file.isNamed name focus := by
  rw [isNamed, isNamed, map_field?_under h]
  intro found hfound
  rw [Focus.node_under, hreads.text found hfound.mem]

private theorem isVariableNamed_under (hreads : file.ReadsIn other) (h : file.Inner focus)
    (name : String) :
    other.isVariableNamed name (focus.under root) = file.isVariableNamed name focus := by
  rw [isVariableNamed, isVariableNamed, map_field?_under h]
  intro found hfound
  rw [Focus.kind_under, Focus.node_under, hreads.text found hfound.mem]

private theorem inner_of_mem_declaredVariables {declarator : Focus} (h : file.Inner focus)
    (hdeclarator : declarator ∈ declaredVariables focus) : file.Inner declarator :=
  h.of_child (Focus.mem_children_of_mem_namedChildren (List.mem_filter.mp hdeclarator).1)

private theorem declared?_under (hreads : file.ReadsIn other) {statement : Focus}
    (h : file.Inner statement) (name : String) :
    other.declared? name (statement.under root) =
      (file.declared? name statement).map (Export.under root) := by
  rw [declared?, declared?, declarationIn?_under h.below]
  cases hdeclaration : declarationIn? statement with
  | none => rfl
  | some declaration =>
    have hinner := inner_of_declarationIn? h hdeclaration
    have hvariables : (declaredVariables declaration).find?
        (other.isVariableNamed name ∘ Focus.under root) =
          (declaredVariables declaration).find? (file.isVariableNamed name) :=
      List.find?_congr fun declarator hdeclarator ↦
        isVariableNamed_under hreads (inner_of_mem_declaredVariables hinner hdeclarator) name
    simp only [Option.map_some, Option.bind_some, isFunction_under, isVariables_under,
      isNamed_under hreads hinner, ofFunction_under hinner.below,
      declaredVariables_under hinner.below, List.find?_map, hvariables]
    cases isFunction declaration with
    | true => cases file.isNamed name declaration <;> rfl
    | false =>
      cases isVariables declaration with
      | false => rfl
      | true =>
        cases hfound : (declaredVariables declaration).find? (file.isVariableNamed name) with
        | none => rfl
        | some declarator =>
          have hmem := List.mem_of_find?_eq_some hfound
          exact congrArg some (ofVariable_under (above_ne_nil_of_mem_declaredVariables hmem))

section Extended

variable {more : Source} {label : Label} {statement : Node}

/-- The statement that was added, in its place. -/
def added (file : SourceFile) (more : Source) (label : Label) (statement : Node) : Focus :=
  (file.extend more label statement).rootFocus.child file.root.children.length statement

private theorem children_extend (file : SourceFile) (more : Source) (label : Label)
    (statement : Node) :
    (file.extend more label statement).rootFocus.children =
      file.rootFocus.children.map (Focus.under (file.extend more label statement).root) ++
        [file.added more label statement] := by
  change ((file.root.children ++ [statement]).zipIdx.map fun numbered ↦
    (file.extend more label statement).rootFocus.child numbered.2 numbered.1) = _
  rw [List.zipIdx_append, List.map_append, Focus.children, List.map_map, Nat.zero_add]
  rfl

private theorem statements_extend (file : SourceFile) (more : Source) (label : Label)
    (statement : Node) :
    (file.extend more label statement).statements =
      file.statements.map (Focus.under (file.extend more label statement).root) ++
        [file.added more label statement].filter fun child ↦ child.node.named := by
  rw [statements, statements, Focus.namedChildren, Focus.namedChildren, children_extend,
    List.filter_append, List.filter_map]
  rfl

private theorem field?_added (name : String) :
    ((file.added more label statement).field? name).map Focus.node = statement.field? name :=
  Focus.map_node_field? _ name

private theorem field?_added_eq_none {name : String} (h : statement.field? name = none) :
    (file.added more label statement).field? name = none := by
  rwa [← field?_added, Option.map_eq_none_iff] at h

/-- A statement that exports names declares none, so a name means what it meant before. -/
theorem declaration?_extend (hbounded : file.Bounded) (hform : statement.ExportsNames)
    (name : String) :
    (file.extend more label statement).declaration? name =
      (file.declaration? name).map (Export.under (file.extend more label statement).root) := by
  have hreads := readsIn_extend hbounded more label statement
  have hadded : (file.extend more label statement).declared? name
      (file.added more label statement) = none := by
    have hkind : (file.added more label statement).kind = "export_statement" := hform.kind
    rw [declared?, declarationIn?, hkind, if_pos (by simp),
      field?_added_eq_none hform.declaration, Option.bind_none]
  have hold : (file.statements.map (Focus.under (file.extend more label statement).root)).findSome?
      ((file.extend more label statement).declared? name) =
        (file.declaration? name).map (Export.under (file.extend more label statement).root) := by
    rw [declaration?, List.map_findSome?, List.findSome?_map]
    exact findSome?_congr fun old hmem ↦
      declared?_under hreads (inner_of_mem_statements hmem) name
  have hnew : ([file.added more label statement].filter fun child ↦ child.node.named).findSome?
      ((file.extend more label statement).declared? name) = none := by
    rw [List.findSome?_eq_none_iff]
    intro focus hfocus
    rwa [List.mem_singleton.mp (List.mem_filter.mp hfocus).1]
  rw [declaration?, statements_extend, List.findSome?_append, hold, hnew, Option.or_none]

end Extended

/-! ### Exports in a longer file -/

section Exports

variable (hreads : file.ReadsIn other)
  (hnames : ∀ name, other.declaration? name = (file.declaration? name).map (Export.under root))

include hreads hnames

private theorem exportsOfValue_under {value : Focus} (h : file.Inner value) :
    other.exportsOfValue (value.under root) =
      (file.exportsOfValue value).map (Export.under root) := by
  rw [exportsOfValue, exportsOfValue, Focus.kind_under, Focus.node_under, hreads.text value h.mem,
    hnames, Focus.field?_under h.below, ofFunction_under h.below, Option.isSome_map]
  cases value.kind == "identifier" with
  | true => cases file.declaration? (file.text value.node) <;> rfl
  | false =>
    cases value.kind == "function_expression" || value.kind == "function" with
    | true => cases (value.field? "name").isSome <;> rfl
    | false => rfl

private theorem exportsOfClause_under {clause : Focus} (h : file.Inner clause) :
    other.exportsOfClause (clause.under root) =
      (file.exportsOfClause clause).map (Export.under root) := by
  rw [exportsOfClause, exportsOfClause, Focus.namedChildren_under h.below, List.filter_map,
    List.filterMap_map, List.map_filterMap]
  apply List.filterMap_congr
  intro specifier hspecifier
  have hinner : file.Inner specifier :=
    h.of_child (Focus.mem_children_of_mem_namedChildren (List.mem_filter.mp hspecifier).1)
  rw [Function.comp_apply, Focus.field?_under hinner.below]
  cases hname : specifier.field? "name" with
  | none => rfl
  | some name =>
    have htext := hreads.text name (hinner.of_child (Focus.mem_children_of_field? hname)).mem
    simp [htext, hnames]

private theorem exportsOfStatement_under {statement : Focus} (h : file.Inner statement) :
    other.exportsOfStatement (statement.under root) =
      (file.exportsOfStatement statement).map (Export.under root) := by
  have hclause : ((statement.under root).namedChildren.find? fun child ↦
      child.kind == "export_clause") =
        (statement.namedChildren.find? fun child ↦ child.kind == "export_clause").map
          (Focus.under root) := by
    rw [Focus.namedChildren_under h.below, List.find?_map]
    rfl
  rw [exportsOfStatement, exportsOfStatement, Focus.kind_under, hclause]
  simp only [Focus.field?_under h.below, Option.isSome_map]
  cases statement.kind != "export_statement" || (statement.field? "source").isSome with
  | true => rfl
  | false =>
    cases hdeclaration : statement.field? "declaration" with
    | some declaration =>
      exact ofDeclaration_under (h.of_child (Focus.mem_children_of_field? hdeclaration)).below
    | none =>
      cases hvalue : statement.field? "value" with
      | some value =>
        exact exportsOfValue_under hreads hnames
          (h.of_child (Focus.mem_children_of_field? hvalue))
      | none =>
        cases hfound : statement.namedChildren.find? fun child ↦ child.kind == "export_clause" with
        | none => rfl
        | some clause =>
          exact exportsOfClause_under hreads hnames (h.of_child
            (Focus.mem_children_of_mem_namedChildren (List.mem_of_find?_eq_some hfound)))

end Exports

private theorem exportsOfClause_eq (file : SourceFile) (clause : Focus) :
    file.exportsOfClause clause =
      (clause.node.listedNames file.source).filterMap file.declaration? := by
  rw [exportsOfClause, Node.listedNames, Node.namedChildren, ← Focus.map_node_children,
    List.filter_map, List.filter_map, List.filterMap_map, List.filterMap_filterMap]
  apply List.filterMap_congr
  intro specifier _
  rw [Function.comp_apply, ← Focus.map_node_field?]
  cases specifier.field? "name" <;> rfl

/-- A statement that exports names exports what the names stand for. -/
theorem exportsOfStatement_of_exportsNames {statement : Focus}
    (h : statement.node.ExportsNames) :
    file.exportsOfStatement statement =
      (statement.node.exportedNames file.source).filterMap file.declaration? := by
  have hnone : ∀ name, statement.node.field? name = none → statement.field? name = none := by
    intro name hname
    rwa [← Focus.map_node_field?, Option.map_eq_none_iff] at hname
  have hkind : statement.kind = "export_statement" := h.kind
  rw [exportsOfStatement, hkind, hnone _ h.source, hnone _ h.declaration, Node.exportedNames,
    ← Focus.map_node_field?]
  cases hvalue : statement.field? "value" with
  | some value =>
    have hidentifier : value.kind = "identifier" := by
      apply h.value
      rw [← Focus.map_node_field?, hvalue, Option.map_some]
    rw [Option.map_some, List.filterMap_cons, List.filterMap_nil]
    simp only [exportsOfValue, hidentifier]
    change (file.declaration? (value.node.text file.source)).toList = _
    cases file.declaration? (value.node.text file.source) <;> rfl
  | none =>
    have hclause : (statement.namedChildren.find? fun child ↦ child.kind == "export_clause").map
        Focus.node =
          statement.node.namedChildren.find? fun child ↦ child.kind == "export_clause" := by
      rw [Node.namedChildren, ← Focus.map_node_children, List.filter_map, List.find?_map]
      rfl
    simp only [Option.map_none]
    rw [← hclause]
    cases statement.namedChildren.find? fun child ↦ child.kind == "export_clause" with
    | none => rfl
    | some clause => exact file.exportsOfClause_eq clause

private theorem exists_known {more : Source} {label : Label} {statement : Node}
    (hbounded : file.Bounded) (hform : statement.ExportsNames)
    (hknown : file.KnowsNames (statement.exportedNames (file.extend more label statement).source))
    {later : Export} (hlater : later ∈ (file.extend more label statement).exportsOfStatement
      (file.added more label statement)) :
    ∃ known ∈ file.exports, known.focus.address = later.focus.address := by
  have hadded : (file.added more label statement).node.ExportsNames := hform
  rw [exportsOfStatement_of_exportsNames hadded] at hlater
  obtain ⟨name, hname, hitem⟩ := List.mem_filterMap.mp hlater
  rw [declaration?_extend hbounded hform, Option.map_eq_some_iff] at hitem
  obtain ⟨item, hitem, rfl⟩ := hitem
  obtain ⟨known, hmem, haddress⟩ := hknown name hname item hitem
  exact ⟨known, hmem, haddress.trans (Focus.address_under _ _).symm⟩

/-- Exporting names of what is exported already leaves the exports of a file as they are. -/
theorem exports_extend {more : Source} {label : Label} {statement : Node}
    (hbounded : file.Bounded) (hform : statement.ExportsNames)
    (hknown : file.KnowsNames (statement.exportedNames (file.extend more label statement).source)) :
    (file.extend more label statement).exports =
      file.exports.map (Export.under (file.extend more label statement).root) := by
  have hold : (file.statements.map (Focus.under (file.extend more label statement).root)).flatMap
      (file.extend more label statement).exportsOfStatement =
        (file.statements.flatMap file.exportsOfStatement).map
          (Export.under (file.extend more label statement).root) := by
    rw [List.flatMap_map, List.map_flatMap]
    exact List.flatMap_congr fun old hmem ↦ exportsOfStatement_under
      (readsIn_extend hbounded more label statement)
      (declaration?_extend hbounded hform) (inner_of_mem_statements hmem)
  -- The old statements make the old exports; whatever the added one makes is known among them.
  rw [exports, statements_extend, List.flatMap_append, hold, distinct_append_of_known,
    distinct_map_under, exports]
  intro later hlater
  obtain ⟨focus, hfocus, hexported⟩ := List.mem_flatMap.mp hlater
  obtain rfl := List.mem_singleton.mp (List.mem_filter.mp hfocus).1
  obtain ⟨known, hmem, haddress⟩ := exists_known hbounded hform hknown hexported
  refine ⟨known.under _, List.mem_map_of_mem (mem_of_mem_distinct hmem), ?_⟩
  exact (Focus.address_under _ _).trans haddress

end SourceFile

end PropDoc
