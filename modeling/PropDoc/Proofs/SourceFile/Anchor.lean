import PropDoc.Component
import PropDoc.Proofs.Props.Leading
import PropDoc.Proofs.SourceFile.Export

/-!
# Where the comment on an export stands

However a declaration is exported, the statement that its comment precedes is the one statement of
the file that holds it, not one that exports it by name. So the comments on it are children of the
root, and none of them leads another statement.
-/

namespace PropDoc

open PropDoc.Syntax

namespace Export

variable {root statement declaration : Focus} {item : Export}

-- A declaration, or the `export` around it.
private def outermost (declaration : Focus) : Focus :=
  match declaration.parent? with
  | some parent => if parent.kind == "export_statement" then parent else declaration
  | none => declaration

private theorem outermost_of_export (hkind : statement.kind = "export_statement")
    (h : declaration ∈ statement.children) : outermost declaration = statement := by
  rw [outermost, Focus.parent?_of_mem_children h]
  simp [hkind]

private theorem outermost_of_declarationIn? (hroot : root.kind ≠ "export_statement")
    (hstatement : statement ∈ root.children)
    (h : SourceFile.declarationIn? statement = some declaration) :
    outermost declaration = statement := by
  unfold SourceFile.declarationIn? at h
  split at h
  · next hkind => exact outermost_of_export (by simpa using hkind) (Focus.mem_children_of_field? h)
  · obtain rfl := Option.some.inj h
    rw [outermost, Focus.parent?_of_mem_children hstatement]
    simp [hroot]

private theorem mem_children_of_declaredVariables {declarator : Focus}
    (h : declarator ∈ declaredVariables declaration) : declarator ∈ declaration.children :=
  Focus.mem_children_of_mem_namedChildren (List.mem_filter.mp h).1

private theorem DeclaredBy.anchor_eq (h : DeclaredBy declaration item) :
    item.anchor = outermost declaration := by
  cases h with
  | function => rfl
  | binding hvariables hdeclarator =>
    have hparent := Focus.parent?_of_mem_children (mem_children_of_declaredVariables hdeclarator)
    simp only [anchor, ofVariable, hparent, hvariables, if_true]
    rfl

private theorem DeclaredBy.mem_preorder (h : DeclaredBy declaration item) :
    item.focus ∈ declaration.preorder := by
  cases h with
  | function => exact declaration.mem_preorder_self
  | binding _ hdeclarator =>
    exact Focus.mem_preorder_of_mem_children declaration.mem_preorder_self
      (mem_children_of_declaredVariables hdeclarator)

/-- The comment on an export precedes the statement of the file that holds it. -/
theorem HeldBy.anchor_eq (h : HeldBy statement item) (hroot : root.kind ≠ "export_statement")
    (hstatement : statement ∈ root.children) : item.anchor = statement := by
  cases h with
  | declaration hdeclaration hdeclared =>
    rw [hdeclared.anchor_eq]
    exact outermost_of_declarationIn? hroot hstatement hdeclaration
  | named hkind hvalue => exact outermost_of_export hkind (Focus.mem_children_of_field? hvalue)
  | anonymous hkind hvalue => exact outermost_of_export hkind (Focus.mem_children_of_field? hvalue)

/-- An export lies in the statement that holds it. -/
theorem HeldBy.mem_preorder (h : HeldBy statement item) : item.focus ∈ statement.preorder := by
  have hvalue : ∀ value, statement.field? "value" = some value → value ∈ statement.preorder :=
    fun value hvalue ↦ Focus.mem_preorder_of_mem_children statement.mem_preorder_self
      (Focus.mem_children_of_field? hvalue)
  cases h with
  | declaration hdeclaration hdeclared =>
    refine Focus.mem_preorder_trans ?_ hdeclared.mem_preorder
    unfold SourceFile.declarationIn? at hdeclaration
    split at hdeclaration
    · exact Focus.mem_preorder_of_mem_children statement.mem_preorder_self
        (Focus.mem_children_of_field? hdeclaration)
    · obtain rfl := Option.some.inj hdeclaration
      exact statement.mem_preorder_self
  | named _ hfield => exact hvalue _ hfield
  | anonymous _ hfield => exact hvalue _ hfield

private theorem not_comment_of_kind (kinds : List String) (h : statement.kind ∈ kinds)
    (hkinds : "comment" ∉ kinds) : statement.node.isComment = false := by
  apply beq_eq_false_iff_ne.mpr
  rintro (hcomment : statement.kind = "comment")
  exact hkinds (hcomment ▸ h)

private theorem HeldBy.not_comment (h : HeldBy statement item) :
    statement.node.isComment = false := by
  cases h with
  | declaration hdeclaration hdeclared =>
    by_cases hkind : statement.kind = "export_statement"
    · exact not_comment_of_kind _ (List.mem_singleton.mpr hkind) (by decide)
    · rw [SourceFile.declarationIn?, if_neg (by simpa using hkind)] at hdeclaration
      obtain rfl := Option.some.inj hdeclaration
      cases hdeclared with
      | function hfunction =>
        apply not_comment_of_kind ["function_declaration", "generator_function_declaration"] _
          (by decide)
        simpa [isFunction] using hfunction
      | binding hvariables =>
        apply not_comment_of_kind ["lexical_declaration", "variable_declaration"] _ (by decide)
        simpa [isVariables] using hvariables
  | named hkind => exact not_comment_of_kind _ (List.mem_singleton.mpr hkind) (by decide)
  | anonymous hkind => exact not_comment_of_kind _ (List.mem_singleton.mpr hkind) (by decide)

/-- In a file whose root is a program, the comment on an export precedes a child of the root, and
that is the only one in which the declaration lies. The comments considered are siblings before it,
and none of them leads another statement, such as one that exports the declaration by name. -/
theorem anchor_of_mem_exports {file : SourceFile} (hroot : file.root.kind = "program")
    {item : Export} (hitem : item ∈ file.exports) :
    item.anchor ∈ file.rootFocus.children ∧
    (∀ child ∈ file.rootFocus.children, item.focus ∈ child.preorder ↔ child = item.anchor) ∧
    (∃ before after, file.rootFocus.children = before ++ item.anchor :: after ∧
      (leadingComments file.source item.anchor).Sublist before) ∧
    ∀ other ∈ file.rootFocus.children, other.node.isComment = false → other ≠ item.anchor →
      ∀ comment ∈ leadingComments file.source item.anchor,
        comment ∉ leadingComments file.source other := by
  obtain ⟨statement, hstatement, hheld⟩ := SourceFile.exists_heldBy_of_mem_exports hitem
  have hchild : statement ∈ file.rootFocus.children :=
    Focus.mem_children_of_mem_namedChildren hstatement
  have hprogram : file.rootFocus.kind ≠ "export_statement" := by
    change file.root.kind ≠ _
    simp [hroot]
  rw [hheld.anchor_eq hprogram hchild]
  refine ⟨hchild, fun child hother ↦ ⟨fun hbelow ↦ ?_, ?_⟩,
    exists_sublist_leadingComments file.source hchild, ?_⟩
  · exact Focus.eq_of_mem_preorder hother hchild hbelow hheld.mem_preorder
  · rintro rfl
    exact hheld.mem_preorder
  · intro other hother hnotComment hne comment hcomment hcomment'
    exact hne (eq_of_mem_leadingComments hother hchild hnotComment hheld.not_comment hcomment'
      hcomment)

/-- A file with a variable that a later statement exports as the default, each with a comment. -/
def exportedLater : SourceFile where
  path := ⟨"A.tsx"⟩
  source := .ofString "/** Doc */\nconst A = () => 1;\n/** Other */\nexport default A;\n"
  root := .mk { kind := "program", stop := 61 } [
    .mk { kind := "comment", stop := 10 } [],
    .mk { kind := "lexical_declaration", start := 11, stop := 29 } [
      .mk { kind := "const", field := "kind", named := false, start := 11, stop := 16 } [],
      .mk { kind := "variable_declarator", start := 17, stop := 28 } [
        .mk { kind := "identifier", field := "name", start := 17, stop := 18 } [],
        .mk { kind := "=", named := false, start := 19, stop := 20 } [],
        .mk { kind := "arrow_function", field := "value", start := 21, stop := 28 } []],
      .mk { kind := ";", named := false, start := 28, stop := 29 } []],
    .mk { kind := "comment", start := 30, stop := 42 } [],
    .mk { kind := "export_statement", start := 43, stop := 60 } [
      .mk { kind := "export", named := false, start := 43, stop := 49 } [],
      .mk { kind := "default", named := false, start := 50, stop := 57 } [],
      .mk { kind := "identifier", field := "value", start := 58, stop := 59 } [],
      .mk { kind := ";", named := false, start := 59, stop := 60 } []]]

/-- A variable that a later statement exports is anchored where it is declared, and led by the
comment there. -/
theorem anchor_of_mem_exports_exportedLater :
    exportedLater.root.kind = "program" ∧
    ∃ item ∈ exportedLater.exports, item.anchor.node.start = 11 ∧
      item.anchor ∈ exportedLater.rootFocus.children ∧
      (∀ child ∈ exportedLater.rootFocus.children,
        item.focus ∈ child.preorder ↔ child = item.anchor) ∧
      (leadingComments exportedLater.source item.anchor).map (fun comment ↦ comment.node.start) =
        [0] := by
  have hseen : exportedLater.exports.map (fun item ↦ (item.anchor.node.start,
      (leadingComments exportedLater.source item.anchor).map fun comment ↦ comment.node.start)) =
        [(11, [0])] := by
    decide +kernel
  obtain ⟨item, hexports, hitem⟩ := List.map_eq_singleton_iff.mp hseen
  have hmem : item ∈ exportedLater.exports := by simp [hexports]
  obtain ⟨hstart, hcomments⟩ := Prod.mk.inj hitem
  obtain ⟨hchild, hunique, -⟩ := anchor_of_mem_exports rfl hmem
  exact ⟨rfl, item, hmem, hstart, hchild, hunique, hcomments⟩

end Export

end PropDoc
