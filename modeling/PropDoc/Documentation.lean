import PropDoc.Component
import PropDoc.Json
import PropDoc.Props

/-!
# Documentation of files and projects

A file that exports exactly one component is documented by that component. A project is documented
by its targets, under their paths, provided that all its files can be read; the first error ends
the run.
-/

namespace PropDoc

/-- The documentation of a component. -/
structure ComponentDoc where
  description : String
  props : PropTable

/-- The documentation of a project, by path. -/
abbrev ProjectDoc := Table ComponentDoc

/-- What changes the documentation of a project. -/
structure DocOptions where
  tags : Comment.TagSet := .standard
  /-- Whether a props type that nothing declares is an error. -/
  strictTypes : Bool := true

/-- A component's documentation as JSON. -/
def ComponentDoc.toJson (doc : ComponentDoc) : Json :=
  .object [("description", .string doc.description), ("props", doc.props.toJson)]

/-- A project's documentation as JSON. -/
def ProjectDoc.toJson (docs : ProjectDoc) : Json :=
  .object (docs.entries.map fun entry ↦ (entry.1, entry.2.toJson))

/-- A project's documentation as text, indented or on one line. -/
def ProjectDoc.render (docs : ProjectDoc) (indented : Bool) : String := docs.toJson.render indented

namespace Project

/-- The exports of a file that are components. -/
def components (file : SourceFile) : Except Error (List Export) :=
  file.exports.filterM file.isComponent

/-- The props of a function. Without a props type there are none. -/
def propsOf (project : Project) (options : DocOptions) (file : SourceFile)
    (function : Syntax.Node) : Except Error PropTable := do
  match ← ParameterType.ofFunction project file options.strictTypes function with
  | some type => return PropTable.ofFunction function file type
  | none => return Table.empty

/-- The documentation of one component. -/
def documentComponent (project : Project) (options : DocOptions) (file : SourceFile)
    (component : Export) : Except Error ComponentDoc := do
  let function ← file.functionOf component
  let table ← project.propsOf options file function
  let described ← table.bind options.tags file component.anchor
  return ⟨described.summary, described.table⟩

/-- The documentation of the component of a file, if it has one. Two are an error. -/
def documentFile (project : Project) (options : DocOptions) (file : SourceFile) :
    Except Error (Option ComponentDoc) := do
  match ← components file with
  | [] => return none
  | [component] => return some (← project.documentComponent options file component)
  | _ => throw (.multipleComponents file.path)

/-- Add the documentation of a file to what there is. -/
def addFile (project : Project) (options : DocOptions) (docs : ProjectDoc) (file : SourceFile) :
    Except Error ProjectDoc := do
  match ← project.documentFile options file with
  | some doc => return docs.insert (project.relativePath file) doc
  | none => return docs

/-- The documentation of a project. -/
def document (project : Project) (options : DocOptions) : Except Error ProjectDoc := do
  project.checkSyntax
  project.targets.foldlM (project.addFile options) Table.empty

end Project

end PropDoc
