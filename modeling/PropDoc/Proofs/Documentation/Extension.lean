import PropDoc.Proofs.Documentation.Outcome
import PropDoc.Proofs.List
import PropDoc.Proofs.SourceFile.Extension

/-!
# Documentation after exporting again

Which components a file exports, and so whether it is documented at all and whether it has too many
or one without a name, is decided by its exports. Exporting again what is exported changes none of
this, whatever project the file belongs to.
-/

namespace PropDoc

open PropDoc.Syntax

namespace SourceFile

variable {file other : SourceFile} {root : Node} {item : Export}

private theorem exportName?_under (hreads : file.ReadsIn other) (h : file.Inner item.focus) :
    other.exportName? (item.under root) = file.exportName? item := by
  have hname : ((item.under root).focus.field? "name").map (fun name ↦ other.text name.node) =
      (item.focus.field? "name").map fun name ↦ file.text name.node :=
    map_field?_under h (fun name hname ↦ hreads.text name hname.mem) "name"
  rw [exportName?, exportName?, hname]
  rfl

private theorem isComponent_under (hreads : file.ReadsIn other) (hpath : other.path = file.path)
    (h : file.Inner item.focus) :
    other.isComponent (item.under root) = file.isComponent item := by
  have hspan : other.span (item.under root).focus.node = file.span item.focus.node :=
    hreads.span item.focus h.mem
  rw [isComponent, isComponent, exportName?_under hreads h, hspan, hpath]
  rfl

end SourceFile

namespace Project

open SourceFile

/-- Only a file without components has no documentation and no error. -/
theorem documentFile_eq_none_iff (project : Project) (options : DocOptions) (file : SourceFile) :
    project.documentFile options file = .ok none ↔ components file = .ok [] := by
  unfold documentFile
  rcases components file with error | _ | ⟨component, _ | ⟨second, rest⟩⟩
  · simp [bind, Except.bind]
  · simp [bind, Except.bind, pure, Except.pure]
  · cases hdoc : project.documentComponent options file component <;>
      simp [bind, Except.bind, pure, Except.pure, hdoc]
  · simp [bind, Except.bind, throw, throwThe, MonadExceptOf.throw]

/-- An error that concerns no component is one of finding the components, or there are several. -/
theorem documentFile_eq_error_iff_components (project : Project) (options : DocOptions)
    (file : SourceFile) {error : Error} (herror : error.concernsComponent = false) :
    project.documentFile options file = .error error ↔
      components file = .error error ∨
      error = .multipleComponents file.path ∧
        ∃ found, components file = .ok found ∧ 2 ≤ found.length := by
  unfold documentFile
  rcases components file with other | _ | ⟨component, _ | ⟨second, rest⟩⟩
  · simp [bind, Except.bind]
  · simp [bind, Except.bind, pure, Except.pure]
  · have hcomponent : project.documentComponent options file component ≠ .error error := by
      intro h
      rw [concernsComponent_of_documentComponent h] at herror
      cases herror
    cases hdoc : project.documentComponent options file component with
    | error other =>
      rw [hdoc] at hcomponent
      simpa [bind, Except.bind, hdoc] using hcomponent
    | ok doc => simp [bind, Except.bind, pure, Except.pure, hdoc]
  · simp [bind, Except.bind, throw, throwThe, MonadExceptOf.throw, eq_comm]

variable {file : SourceFile} {more : Source} {label : Label} {statement : Node}

/-- The components of a file stay where they were. -/
theorem components_extend (hbounded : file.Bounded) (hform : statement.ExportsNames)
    (hknown : file.KnowsNames (statement.exportedNames (file.extend more label statement).source)) :
    components (file.extend more label statement) =
      (components file).map (List.map (Export.under (file.extend more label statement).root)) := by
  rw [components, components, exports_extend hbounded hform hknown]
  have hreads := readsIn_extend hbounded more label statement
  exact filterM_map fun item hitem ↦ isComponent_under hreads rfl (inner_of_mem_exports hitem)

/-- No file exports a declaration twice. A statement at the end of a file that exports names of what
is exported already, or names that stand for nothing, changes none of the exports: they are the same
nodes in the same places and forms. So the components are the same, or the same one lacks a name,
and a file has no documentation, too many components or one without a name exactly if it had. -/
theorem exports_extend_and_outcome (file : SourceFile) :
    file.exports.Pairwise (fun first second ↦ first.focus.address ≠ second.focus.address) ∧
    ∀ (more : Source) (label : Label) (statement : Node),
      file.Bounded → statement.ExportsNames →
      file.KnowsNames (statement.exportedNames (file.extend more label statement).source) →
      (file.extend more label statement).exports =
        file.exports.map (Export.under (file.extend more label statement).root) ∧
      components (file.extend more label statement) =
        (components file).map (List.map (Export.under (file.extend more label statement).root)) ∧
      ∀ (project project' : Project) (options options' : DocOptions),
        (project'.documentFile options' (file.extend more label statement) = .ok none ↔
          project.documentFile options file = .ok none) ∧
        ∀ error : Error, error.concernsComponent = false →
          (project'.documentFile options' (file.extend more label statement) = .error error ↔
            project.documentFile options file = .error error) := by
  refine ⟨file.pairwise_exports, ?_⟩
  intro more label statement hbounded hform hknown
  have hcomponents : components (file.extend more label statement) = _ :=
    components_extend hbounded hform hknown
  refine ⟨exports_extend hbounded hform hknown, hcomponents, ?_⟩
  intro project project' options options'
  constructor
  · rw [documentFile_eq_none_iff, documentFile_eq_none_iff, hcomponents]
    cases components file <;> simp [Except.map]
  · intro error herror
    rw [documentFile_eq_error_iff_components _ _ _ herror,
      documentFile_eq_error_iff_components _ _ _ herror, hcomponents]
    cases components file <;> simp [Except.map, SourceFile.extend]

/-- A file with a variable that it exports by name. -/
def exportedByName : SourceFile where
  path := ⟨"A.tsx"⟩
  source := .ofString "const A = () => 1;\nexport \x7b A \x7d;\n"
  root := .mk { kind := "program", stop := 33 } [
    .mk { kind := "lexical_declaration", stop := 18 } [
      .mk { kind := "const", field := "kind", named := false, stop := 5 } [],
      .mk { kind := "variable_declarator", start := 6, stop := 17 } [
        .mk { kind := "identifier", field := "name", start := 6, stop := 7 } [],
        .mk { kind := "=", named := false, start := 8, stop := 9 } [],
        .mk { kind := "arrow_function", field := "value", start := 10, stop := 17 } []],
      .mk { kind := ";", named := false, start := 17, stop := 18 } []],
    .mk { kind := "export_statement", start := 19, stop := 32 } [
      .mk { kind := "export", named := false, start := 19, stop := 25 } [],
      .mk { kind := "export_clause", start := 26, stop := 31 } [
        .mk { kind := "export_specifier", start := 28, stop := 29 } [
          .mk { kind := "identifier", field := "name", start := 28, stop := 29 } []]],
      .mk { kind := ";", named := false, start := 31, stop := 32 } []]]

/-- A statement that exports the variable again under another name, and a name without meaning. -/
def exportsAgain : Node :=
  .mk { kind := "export_statement", start := 33, stop := 54 } [
    .mk { kind := "export", named := false, start := 33, stop := 39 } [],
    .mk { kind := "export_clause", start := 40, stop := 53 } [
      .mk { kind := "export_specifier", start := 42, stop := 48 } [
        .mk { kind := "identifier", field := "name", start := 42, stop := 43 } [],
        .mk { kind := "as", named := false, start := 44, stop := 46 } [],
        .mk { kind := "identifier", field := "alias", start := 47, stop := 48 } []],
      .mk { kind := "export_specifier", start := 50, stop := 51 } [
        .mk { kind := "identifier", field := "name", start := 50, stop := 51 } []]],
    .mk { kind := ";", named := false, start := 53, stop := 54 } []]

/-- The file with the statement. -/
def exportedAgain : SourceFile :=
  exportedByName.extend (.ofString "export \x7b A as C, D \x7d;\n")
    { kind := "program", stop := 55 } exportsAgain

/-- A variable that is exported by name, and then again under another name beside a name without
meaning, is exported once. -/
theorem exports_extend_and_outcome_exportedAgain :
    exportsAgain.exportedNames exportedAgain.source = ["A", "D"] ∧
    exportedByName.exports.map (fun item ↦ item.focus.address) = [[1, 0]] ∧
    exportedAgain.exports = exportedByName.exports.map (Export.under exportedAgain.root) ∧
    components exportedAgain =
      (components exportedByName).map (List.map (Export.under exportedAgain.root)) := by
  have hform : exportsAgain.ExportsNames := by
    refine ⟨by decide, by decide, by decide, ?_⟩
    have hvalue : exportsAgain.field? "value" = none := by decide
    simp [hvalue]
  have hall := (exports_extend_and_outcome exportedByName).2
    (.ofString "export \x7b A as C, D \x7d;\n") { kind := "program", stop := 55 } exportsAgain
    (by decide +kernel) hform (by decide +kernel)
  exact ⟨by decide +kernel, by decide +kernel, hall.1, hall.2.1⟩

end Project

end PropDoc
