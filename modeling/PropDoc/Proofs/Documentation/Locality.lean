import PropDoc.Documentation
import PropDoc.Proofs.List
import PropDoc.Proofs.Project.Closure
import PropDoc.Proofs.Project.TypeLookup
import PropDoc.Snapshot.Basic
import PropDoc.Syntax.Outline

/-!
# Documentation does not depend on the rest of a run

Which files are loaded besides a file, and in which order, has no influence on its documentation
as long as its props type is found without a search through the project. Two projects that were
loaded from one file system hold the same modules behind the links of a file, if under paths that
are written in different ways; the look-up of a type goes through both in step.
-/

namespace PropDoc

open ParameterType Syntax

namespace Project

/-- The name that the props type of a file's only component refers to. There is none where the
props have no type or one that is written in place. -/
def propsReference? (file : SourceFile) : Option String :=
  match components file with
  | .ok [component] =>
    match file.functionOf component with
    | .ok function => ((propsType? function).bind referenceName?).map file.text
    | .error _ => none
  | _ => none

/-- What the props type of a file's component refers to, if it does, is declared by the file or
comes with a relative import. -/
def SelfContained (file : SourceFile) : Prop :=
  ∀ name, propsReference? file = some name → file.Declares name ∨
    ∃ link imported, file.ImportsFirst name link imported ∧ link.isRelative = true

/-- One declaration, found in files that are alike. -/
def SameType (found found' : FoundType) : Prop := found.1.Alike found'.1 ∧ found.2 = found'.2

/-! ### Files that are alike -/

private theorem alike_refl (file : SourceFile) : file.Alike file :=
  ⟨Path.same_iff.mpr rfl, rfl, rfl⟩

private theorem rel_ownType? {file other : SourceFile} (h : file.Alike other) (name : String) :
    Option.Rel SameType (ownType? file name) (ownType? other name) := by
  have hnamed : file.typeNamed? name = other.typeNamed? name := by
    obtain ⟨path, source, root⟩ := file
    obtain ⟨path', source', root'⟩ := other
    obtain ⟨-, rfl, rfl⟩ := h
    rfl
  rw [ownType?, ownType?, hnamed]
  cases other.typeNamed? name with
  | none => exact .none
  | some declaration => exact .some ⟨h, rfl⟩

/-! ### Two projects of one file system -/

section Loaded

variable {parse : Parser} {fs : FileSystem} {paths paths' : List Path}
  {project project' : Project}

-- A file of one project and a file of another that are alike.
private def Shared (project project' : Project) (file file' : SourceFile) : Prop :=
  file ∈ project.files ∧ file' ∈ project'.files ∧ file.Alike file'

private theorem rel_resolve? (h : Loaded parse fs paths project)
    (h' : Loaded parse fs paths' project') {file file' : SourceFile}
    (hshared : Shared project project' file file') {link : Link} (hlink : link ∈ file.links)
    (hrelative : link.isRelative = true) :
    Option.Rel (Shared project project') (project.resolve? file link.specifier)
      (project'.resolve? file' link.specifier) := by
  obtain ⟨hfile, hfile', halike⟩ := hshared
  have hlink' : link ∈ file'.links := by rwa [← halike.links_eq]
  have hpaths : linkedPath? fs file.path link.specifier =
      linkedPath? fs file'.path link.specifier := by
    rw [linkedPath?, linkedPath?, moduleCandidates_of_same halike.path]
  rw [h.resolve?_eq hfile hlink hrelative, h'.resolve?_eq hfile' hlink' hrelative, ← hpaths]
  cases hpath : linkedPath? fs file.path link.specifier with
  | none => exact .none
  | some path =>
    have hleads : LeadsTo fs file link path := leadsTo_iff.mpr ⟨hrelative, hpath⟩
    have hleads' : LeadsTo fs file' link path := leadsTo_iff.mpr ⟨hrelative, hpaths ▸ hpath⟩
    obtain ⟨target, htarget⟩ := Option.isSome_iff_exists.mp (h.exists_fileAt? hfile hlink hleads)
    obtain ⟨target', htarget'⟩ :=
      Option.isSome_iff_exists.mp (h'.exists_fileAt? hfile' hlink' hleads')
    obtain ⟨hmem, hsame⟩ := fileAt?_eq_some htarget
    obtain ⟨hmem', hsame'⟩ := fileAt?_eq_some htarget'
    have hboth : target.path.same target'.path = true :=
      Path.same_iff.mpr ((Path.same_iff.mp hsame).trans (Path.same_iff.mp hsame').symm)
    rw [Option.bind_some, Option.bind_some, htarget, htarget']
    exact .some ⟨hmem, hmem', alike_of_readFile hboth (h.read target hmem) (h'.read target' hmem')⟩

private theorem isRelative_of_forwarded? {link : Link} {name renamed : String}
    (h : forwarded? link name = some renamed) : link.isRelative = true := by
  unfold forwarded? at h
  split at h
  · next hpasses => exact hpasses.2
  · cases h

-- The types behind a relative link of shared files are the same, by induction on how often they
-- may be passed on.
private theorem rel_linkedType? (h : Loaded parse fs paths project)
    (h' : Loaded parse fs paths' project') (forwards : Nat) {file file' : SourceFile}
    (hshared : Shared project project' file file') {link : Link} (hlink : link ∈ file.links)
    (hrelative : link.isRelative = true) (name : String) :
    Option.Rel SameType (project.linkedType? forwards file link name)
      (project'.linkedType? forwards file' link name) := by
  induction forwards generalizing file file' link name with
  | zero =>
    rw [linkedType?, linkedType?]
    apply rel_bind (rel_resolve? h h' hshared hlink hrelative)
    intro target target' htarget
    exact rel_ownType? htarget.2.2 name
  | succ forwards ih =>
    rw [linkedType?, linkedType?]
    apply rel_bind (rel_resolve? h h' hshared hlink hrelative)
    intro target target' htarget
    apply rel_or (rel_ownType? htarget.2.2 name)
    rw [← htarget.2.2.links_eq]
    apply rel_findSome?
    intro next hnext
    cases hforwarded : forwarded? next name with
    | none => exact .none
    | some renamed => exact ih htarget hnext (isRelative_of_forwarded? hforwarded) renamed

private theorem rel_findType? (h : Loaded parse fs paths project)
    (h' : Loaded parse fs paths' project') {file : SourceFile} (hfile : file ∈ project.files)
    (hfile' : file ∈ project'.files) {name : String}
    (hknown : file.Declares name ∨
      ∃ link imported, file.ImportsFirst name link imported ∧ link.isRelative = true) :
    Option.Rel SameType (project.findType? file name) (project'.findType? file name) := by
  by_cases hdeclares : file.Declares name
  · obtain ⟨declaration, hfirst⟩ := declaresFirst_of_declares hdeclares
    rw [findType?_of_declared hfirst, findType?_of_declared hfirst]
    exact .some ⟨alike_refl file, rfl⟩
  · obtain ⟨link, imported, himports, hrelative⟩ := hknown.resolve_left hdeclares
    have hlink : link ∈ file.links := by
      obtain ⟨before, after, hlinks, -⟩ := himports
      rw [hlinks]
      exact List.mem_append_right before List.mem_cons_self
    rw [findType?_of_imported hdeclares himports hrelative,
      findType?_of_imported hdeclares himports hrelative]
    exact rel_linkedType? h h' maxForwards ⟨hfile, hfile', alike_refl file⟩ hlink hrelative imported

end Loaded

/-! ### Documents -/

private theorem ofFunction_of_sameType {found found' : FoundType} (h : SameType found found')
    (function : Node) (file : SourceFile) (name : String) (members : Node) :
    PropTable.ofFunction function file (.declared name members found.1) =
      PropTable.ofFunction function file (.declared name members found'.1) := by
  have hsource : (declared name members found.1).source file.source =
      (declared name members found'.1).source file.source := h.1.source
  unfold PropTable.ofFunction
  rw [hsource]
  rfl

private theorem propsOf_eq_of_rel {project project' : Project} {options : DocOptions}
    {file : SourceFile} {function : Node}
    (h : ∀ name, ((propsType? function).bind referenceName?).map file.text = some name →
      Option.Rel SameType (project.findType? file name) (project'.findType? file name)) :
    project.propsOf options file function = project'.propsOf options file function := by
  unfold propsOf ofFunction
  cases htype : propsType? function with
  | none => rfl
  | some type =>
    dsimp only
    split
    · rfl
    · cases hname : referenceName? type with
      | none => rfl
      | some name =>
        have hrel := h (file.text name) (by rw [htype, Option.bind_some, hname]; rfl)
        dsimp only [lookUp]
        generalize project.findType? file (file.text name) = found at hrel
        generalize project'.findType? file (file.text name) = found' at hrel
        cases hrel with
        | none => rfl
        | @some first second hsame =>
          dsimp only
          rw [hsame.2]
          cases membersOf? second.2 with
          | none => rfl
          | some members =>
            exact congrArg Except.ok (ofFunction_of_sameType hsame function file _ members)

private theorem documentComponent_eq_of_propsOf {project project' : Project}
    {options : DocOptions} {file : SourceFile} {component : Export}
    (h : ∀ function, file.functionOf component = .ok function →
      project.propsOf options file function = project'.propsOf options file function) :
    project.documentComponent options file component =
      project'.documentComponent options file component := by
  unfold documentComponent
  apply bind_congr_of_ok
  intro function hfunction
  rw [h function hfunction]

private theorem documentFile_eq_of_component {project project' : Project} {options : DocOptions}
    {file : SourceFile}
    (h : ∀ component, components file = .ok [component] →
      project.documentComponent options file component =
        project'.documentComponent options file component) :
    project.documentFile options file = project'.documentFile options file := by
  unfold documentFile
  apply bind_congr_of_ok
  intro found hfound
  rcases found with _ | ⟨component, _ | ⟨second, rest⟩⟩
  · rfl
  · dsimp only
    rw [h component hfound]
  · rfl

/-- Two runs over one file system that both ask for a path hold the same file at it. If the file
finds its props type by itself, both document it alike, whatever else they load. -/
theorem documentFile_eq_of_load {parse : Parser} {fs : FileSystem} {base base' : Path}
    {paths paths' : List Path} {project project' : Project} {path : Path}
    (hload : load parse fs base paths = .ok project)
    (hload' : load parse fs base' paths' = .ok project')
    (hpath : path ∈ paths) (hpath' : path ∈ paths') (options : DocOptions) :
    ∃ file ∈ project.targets, file ∈ project'.targets ∧ file.path = path ∧
      (SelfContained file →
        project.documentFile options file = project'.documentFile options file) := by
  have hloaded := (loaded_of_load hload).2
  have hloaded' := (loaded_of_load hload').2
  obtain ⟨file, hfile, hat⟩ := hloaded.exists_target hpath
  obtain ⟨other, hother, hat'⟩ := hloaded'.exists_target hpath'
  have hmem : file ∈ project.files := mem_files_iff.mpr (.inl hfile)
  have hmem' : other ∈ project'.files := mem_files_iff.mpr (.inl hother)
  obtain rfl : file = other := by
    have hread := hloaded.read file hmem
    have hread' := hloaded'.read other hmem'
    rw [hat] at hread
    rw [hat', hread] at hread'
    exact Except.ok.inj hread'
  refine ⟨file, hfile, hother, hat, ?_⟩
  intro hself
  apply documentFile_eq_of_component
  intro component hcomponents
  apply documentComponent_eq_of_propsOf
  intro function hfunction
  apply propsOf_eq_of_rel
  intro name hname
  have hreference : propsReference? file = some name := by
    rw [propsReference?, hcomponents]
    dsimp only
    rw [hfunction]
    exact hname
  exact rel_findType? hloaded hloaded' hmem hmem' (hself name hreference)

private def branch (depth : Nat) (kind field : String) (start stop : Nat) : Nat × Label :=
  (depth, { kind, field, start, stop })

private def token (depth : Nat) (kind : String) (start stop : Nat) : Nat × Label :=
  (depth, { kind, named := false, start, stop })

-- `export interface P` with one property.
private def declaring (member : String) : ParsedText :=
  let n := member.length
  { dialect := .ts
    source := .ofString ("export interface P \x7b " ++ member ++ ": string \x7d\n")
    tree := (Node.ofOutline? [
      branch 0 "program" "" 0 (32 + n), branch 1 "export_statement" "" 0 (31 + n),
      token 2 "export" 0 6, branch 2 "interface_declaration" "declaration" 7 (31 + n),
      token 3 "interface" 7 16, branch 3 "type_identifier" "name" 17 18,
      branch 3 "interface_body" "body" 19 (31 + n), token 4 "\x7b" 19 20,
      branch 4 "property_signature" "" 21 (29 + n),
      branch 5 "property_identifier" "name" 21 (21 + n),
      branch 5 "type_annotation" "type" (21 + n) (29 + n), token 6 ":" (21 + n) (22 + n),
      branch 6 "predefined_type" "" (23 + n) (29 + n), token 7 "string" (23 + n) (29 + n),
      token 4 "\x7d" (30 + n) (31 + n)]).getD Snapshot.emptyTree }

-- A component whose props type is imported from `./t`.
private def importing : ParsedText :=
  { dialect := .tsx
    source := .ofString
      "import \x7b P \x7d from './t';\nexport function A(\x7b a \x7d: P) \x7b return null; \x7d\n"
    tree := (Node.ofOutline? [
      branch 0 "program" "" 0 70,
      branch 1 "import_statement" "" 0 24, token 2 "import" 0 6,
      branch 2 "import_clause" "" 7 12, branch 3 "named_imports" "" 7 12, token 4 "\x7b" 7 8,
      branch 4 "import_specifier" "" 9 10, branch 5 "identifier" "name" 9 10,
      token 4 "\x7d" 11 12, token 2 "from" 13 17, branch 2 "string" "source" 18 23,
      token 3 "'" 18 19, branch 3 "string_fragment" "" 19 22, token 3 "'" 22 23,
      token 2 ";" 23 24,
      branch 1 "export_statement" "" 25 69, token 2 "export" 25 31,
      branch 2 "function_declaration" "declaration" 32 69, token 3 "function" 32 40,
      branch 3 "identifier" "name" 41 42, branch 3 "formal_parameters" "parameters" 42 52,
      token 4 "(" 42 43, branch 4 "required_parameter" "" 43 51,
      branch 5 "object_pattern" "pattern" 43 48, token 6 "\x7b" 43 44,
      branch 6 "shorthand_property_identifier_pattern" "" 45 46, token 6 "\x7d" 47 48,
      branch 5 "type_annotation" "type" 48 51, token 6 ":" 48 49,
      branch 6 "type_identifier" "" 50 51, token 4 ")" 51 52,
      branch 3 "statement_block" "body" 53 69, token 4 "\x7b" 53 54,
      branch 4 "return_statement" "" 55 67, token 5 "return" 55 61, branch 5 "null" "" 62 66,
      token 5 ";" 66 67, token 4 "\x7d" 68 69]).getD Snapshot.emptyTree }

/-- A component, the module it imports from, and a module that declares the name too. -/
def rivals : Snapshot :=
  { fileSystem := ⟨.directory [("A.tsx", .file importing.source),
      ("B.ts", .file (declaring "wrong").source), ("t.ts", .file (declaring "a").source)]⟩
    parsed := [importing, declaring "wrong", declaring "a"] }

-- What decides the props type of the component: it is imported over a relative link.
private theorem selfContained_of_links {file : SourceFile}
    (hreference : propsReference? file = some "P")
    (hlinks : file.links = [⟨.brings, "./t", [⟨"P", "P"⟩], false⟩]) : SelfContained file := by
  intro name hname
  obtain rfl : "P" = name := Option.some.inj (hreference.symm.trans hname)
  have hrenames : Link.Renames ⟨.brings, "./t", [⟨"P", "P"⟩], false⟩ "P" "P" :=
    ⟨[], ⟨"P", "P"⟩, [], rfl, rfl, rfl, by simp⟩
  exact .inr ⟨_, "P", ⟨[], [], hlinks, rfl, hrenames, by simp⟩, by decide⟩

/-- A file that imports its types is documented alike beside a file that declares a type of the same
name. -/
theorem documentFile_eq_of_load_rivals :
    ∃ project project',
      load rivals.parser rivals.fileSystem ⟨"/"⟩ [⟨"/A.tsx"⟩] = .ok project ∧
      load rivals.parser rivals.fileSystem ⟨"/"⟩ [⟨"/B.ts"⟩, ⟨"/A.tsx"⟩] = .ok project' ∧
      ∃ file ∈ project.targets, file ∈ project'.targets ∧ SelfContained file ∧
        project.documentFile {} file = project'.documentFile {} file := by
  have hseen : (load rivals.parser rivals.fileSystem ⟨"/"⟩ [⟨"/A.tsx"⟩]).toOption.map
      (fun project ↦ project.targets.map fun file ↦ (propsReference? file, file.links)) =
      some [(some "P", [⟨.brings, "./t", [⟨"P", "P"⟩], false⟩])] := by decide +kernel
  have hseen' : (load rivals.parser rivals.fileSystem ⟨"/"⟩
      [⟨"/B.ts"⟩, ⟨"/A.tsx"⟩]).isOk = true := by decide +kernel
  cases hload : load rivals.parser rivals.fileSystem ⟨"/"⟩ [⟨"/A.tsx"⟩] with
  | error error =>
    rw [hload] at hseen
    cases hseen
  | ok project =>
    cases hload' : load rivals.parser rivals.fileSystem ⟨"/"⟩ [⟨"/B.ts"⟩, ⟨"/A.tsx"⟩] with
    | error error =>
      rw [hload'] at hseen'
      cases hseen'
    | ok project' =>
      obtain ⟨file, hfile, hfile', -, hdocument⟩ :=
        documentFile_eq_of_load hload hload' (List.mem_singleton_self _)
          (List.mem_cons_of_mem _ (List.mem_singleton_self _)) {}
      rw [hload] at hseen
      have hfacts := List.mem_map_of_mem (f := fun file ↦ (propsReference? file, file.links)) hfile
      rw [show project.targets.map _ = _ from Option.some.inj hseen, List.mem_singleton,
        Prod.mk.injEq] at hfacts
      have hself : SelfContained file := selfContained_of_links hfacts.1 hfacts.2
      exact ⟨project, project', rfl, rfl, file, hfile, hfile', hself, hdocument hself⟩

end Project

end PropDoc
