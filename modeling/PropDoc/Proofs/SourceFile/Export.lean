import PropDoc.SourceFile.Declaration

/-!
# Laws of exported declarations

However a declaration is exported, it is held by a statement of the file: there it is declared, or
it is a function that is the default value. No declaration is exported twice, and a function without
a name is not called by a plain name.
-/

namespace PropDoc

open PropDoc.Syntax

namespace Export

/-- Leaving out repetitions adds nothing. -/
theorem mem_of_mem_distinct {items : List Export} {item : Export} (h : item ∈ distinct items) :
    item ∈ items := by
  induction items with
  | nil => exact h
  | cons first rest ih =>
    rw [distinct, List.mem_cons] at h
    rcases h with rfl | hrest
    · exact List.mem_cons_self
    · exact List.mem_cons_of_mem first (ih (List.mem_filter.mp hrest).1)

/-- The declarations that are kept stand at different places. -/
theorem pairwise_distinct (items : List Export) :
    (distinct items).Pairwise fun first second ↦ first.focus.address ≠ second.focus.address := by
  induction items with
  | nil => exact List.Pairwise.nil
  | cons first rest ih =>
    rw [distinct, List.pairwise_cons]
    refine ⟨?_, ih.filter _⟩
    intro later hlater
    have hne := (List.mem_filter.mp hlater).2
    exact Ne.symm (by simpa using hne)

/-- A function that is exported without a name is not called by one. -/
def Consistent (item : Export) : Prop := item.kind = .anonymousFunction → item.hasName = false

/-- An export is the function that a node declares, or one of the variables. -/
inductive DeclaredBy (declaration : Focus) : Export → Prop where
  | function : isFunction declaration = true → DeclaredBy declaration (ofFunction declaration)
  | binding {declarator : Focus} :
      isVariables declaration = true → declarator ∈ declaredVariables declaration →
      DeclaredBy declaration (ofVariable declarator)

/-- A statement holds an export: it declares it, itself or behind `export`, or its default value is
a function. -/
inductive HeldBy (statement : Focus) : Export → Prop where
  | declaration {declaration : Focus} {item : Export} :
      SourceFile.declarationIn? statement = some declaration → DeclaredBy declaration item →
      HeldBy statement item
  | named {value : Focus} :
      statement.kind = "export_statement" → statement.field? "value" = some value →
      HeldBy statement (ofFunction value)
  | anonymous {value : Focus} :
      statement.kind = "export_statement" → statement.field? "value" = some value →
      HeldBy statement ⟨value, .anonymousFunction, false⟩

private theorem DeclaredBy.consistent {declaration : Focus} {item : Export}
    (h : DeclaredBy declaration item) : item.Consistent := by
  cases h <;> rintro ⟨⟩

private theorem HeldBy.consistent {statement : Focus} {item : Export} (h : HeldBy statement item) :
    item.Consistent := by
  cases h with
  | declaration _ hdeclared => exact hdeclared.consistent
  | named => rintro ⟨⟩
  | anonymous => exact fun _ ↦ rfl

private theorem declaredBy_of_mem_ofDeclaration {declaration : Focus} {item : Export}
    (h : item ∈ ofDeclaration declaration) : DeclaredBy declaration item := by
  unfold ofDeclaration at h
  split at h
  · next hfunction =>
    obtain rfl := List.mem_singleton.mp h
    exact .function hfunction
  · split at h
    · next hvariables =>
      obtain ⟨declarator, hdeclarator, rfl⟩ := List.mem_map.mp h
      exact .binding hvariables hdeclarator
    · cases h

end Export

namespace SourceFile

open Export

variable {file : SourceFile} {item : Export}

private theorem heldBy_of_declared? {name : String} {statement : Focus}
    (h : file.declared? name statement = some item) : HeldBy statement item := by
  obtain ⟨declaration, hdeclaration, hitem⟩ := Option.bind_eq_some_iff.mp h
  apply HeldBy.declaration hdeclaration
  split at hitem
  · next hfunction =>
    split at hitem
    · obtain rfl := Option.some.inj hitem
      exact .function hfunction
    · cases hitem
  · split at hitem
    · next hvariables =>
      obtain ⟨declarator, hfind, rfl⟩ := Option.map_eq_some_iff.mp hitem
      exact .binding hvariables (List.mem_of_find?_eq_some hfind)
    · cases hitem

private theorem exists_heldBy_of_declaration? {name : String}
    (h : file.declaration? name = some item) :
    ∃ statement ∈ file.statements, HeldBy statement item := by
  obtain ⟨statement, hstatement, hdeclared⟩ := List.exists_of_findSome?_eq_some h
  exact ⟨statement, hstatement, heldBy_of_declared? hdeclared⟩

private theorem exists_heldBy_of_mem_exportsOfStatement {statement : Focus}
    (hstatement : statement ∈ file.statements) (h : item ∈ file.exportsOfStatement statement) :
    ∃ holder ∈ file.statements, HeldBy holder item := by
  unfold exportsOfStatement at h
  split at h
  · cases h
  · next hexport =>
    have hkind : statement.kind = "export_statement" := by
      simp only [Bool.or_eq_true, bne_iff_ne, ne_eq, not_or, Decidable.not_not] at hexport
      exact hexport.1
    split at h
    · next declaration hdeclaration =>
      refine ⟨statement, hstatement, .declaration ?_ (declaredBy_of_mem_ofDeclaration h)⟩
      rw [declarationIn?, hkind]
      exact hdeclaration
    · split at h
      · next value hvalue =>
        unfold exportsOfValue at h
        split at h
        · exact exists_heldBy_of_declaration? (Option.mem_toList.mp h)
        · split at h
          · split at h
            · obtain rfl := List.mem_singleton.mp h
              exact ⟨statement, hstatement, .named hkind hvalue⟩
            · obtain rfl := List.mem_singleton.mp h
              exact ⟨statement, hstatement, .anonymous hkind hvalue⟩
          · cases h
      · split at h
        · obtain ⟨specifier, -, hspecifier⟩ := List.mem_filterMap.mp h
          obtain ⟨name, -, hname⟩ := Option.bind_eq_some_iff.mp hspecifier
          exact exists_heldBy_of_declaration? hname
        · cases h

/-- Every export of a file is held by one of its statements, however it is exported. -/
theorem exists_heldBy_of_mem_exports (h : item ∈ file.exports) :
    ∃ statement ∈ file.statements, HeldBy statement item := by
  obtain ⟨statement, hstatement, hitem⟩ := List.mem_flatMap.mp (mem_of_mem_distinct h)
  exact exists_heldBy_of_mem_exportsOfStatement hstatement hitem

/-- Every export of a file is consistent, however it is exported. -/
theorem consistent_of_mem_exports (h : item ∈ file.exports) : item.Consistent := by
  obtain ⟨statement, -, hheld⟩ := exists_heldBy_of_mem_exports h
  exact hheld.consistent

/-- No two exports of a file declare at the same place. -/
theorem pairwise_exports (file : SourceFile) :
    file.exports.Pairwise fun first second ↦ first.focus.address ≠ second.focus.address :=
  pairwise_distinct _

end SourceFile

end PropDoc
