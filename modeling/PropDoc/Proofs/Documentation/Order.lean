import PropDoc.Proofs.Documentation.Outcome
import PropDoc.Proofs.List
import PropDoc.Proofs.Project.TypeLookup

/-!
# The order of files does not matter

Files that have different paths and declare different types can be documented in any order. A
search through such files has at most one hit, so that it finds the same wherever the hit stands;
hence every type name means the same in every order, and every file is documented alike. Only the
order in which the documentation lists the files follows theirs.
-/

namespace PropDoc

namespace Project

/-- The project of some files, all of them asked for. -/
def ofTargets (base : Path) (files : List SourceFile) : Project := ⟨base, files, files.length⟩

/-- The documentation of some files, all of them asked for. -/
def documentFiles (base : Path) (options : DocOptions) (files : List SourceFile) :
    Except Error ProjectDoc := do
  (← ofFiles base files).document options

/-- No two of some files have the same path, are shown under the same path or declare a type of the
same name. -/
structure Distinct (base : Path) (files : List SourceFile) : Prop where
  paths : files.Pairwise fun file other ↦ ¬ file.path.same other.path
  keys : (files.map (ofTargets base files).relativePath).Nodup
  types : files.Pairwise fun file other ↦ ∀ name, file.Declares name → ¬ other.Declares name

/-! ### Types -/

section

variable {project project' : Project}

private theorem fileAt?_eq_of_perm (hperm : project.files.Perm project'.files)
    (hpaths : project.files.Pairwise fun file other ↦ ¬ file.path.same other.path) (path : Path) :
    project.fileAt? path = project'.fileAt? path := by
  apply find?_eq_of_perm hperm
  apply hpaths.imp
  rintro file other hdiffer ⟨hfile, hother⟩
  apply hdiffer
  simp only [Path.same, decide_eq_true_eq] at hfile hother ⊢
  rw [hfile, hother]

private theorem linkedType?_eq_of_fileAt? (h : project.fileAt? = project'.fileAt?)
    (forwards : Nat) (origin : SourceFile) (link : Link) (name : String) :
    project.linkedType? forwards origin link name =
      project'.linkedType? forwards origin link name := by
  induction forwards generalizing origin link name with
  | zero => rw [linkedType?, linkedType?, resolve?, resolve?, h]
  | succ forwards ih => simp only [linkedType?, resolve?, h, ih]

private theorem anyType?_eq_of_perm (hperm : project.files.Perm project'.files)
    (htypes : project.files.Pairwise fun file other ↦
      ∀ name, file.Declares name → ¬ other.Declares name) (name : String) :
    project.anyType? name = project'.anyType? name := by
  apply findSome?_eq_of_perm hperm
  apply htypes.imp
  intro file other hdiffer
  simp only [ownType?_eq_none_iff]
  by_cases hfile : file.Declares name
  · exact .inr (hdiffer name hfile)
  · exact .inl hfile

private theorem findType?_eq_of_perm (hperm : project.files.Perm project'.files)
    (hpaths : project.files.Pairwise fun file other ↦ ¬ file.path.same other.path)
    (htypes : project.files.Pairwise fun file other ↦
      ∀ name, file.Declares name → ¬ other.Declares name) :
    project.findType? = project'.findType? := by
  have hfiles : project.fileAt? = project'.fileAt? := by
    ext1 path
    exact fileAt?_eq_of_perm hperm hpaths path
  ext1 origin
  ext1 name
  simp only [findType?, linkedType?_eq_of_fileAt? hfiles, anyType?_eq_of_perm hperm htypes]

-- The documentation of a file depends on its project through the meaning of type names alone.
private theorem documentFile_eq_of_findType? (h : project.findType? = project'.findType?) :
    project.documentFile = project'.documentFile := by
  have hprops : project.propsOf = project'.propsOf := by
    ext1 options
    ext1 file
    ext1 function
    simp only [propsOf, ParameterType.ofFunction, ParameterType.lookUp, h]
  ext1 options
  ext1 file
  simp only [documentFile, documentComponent, hprops]

end

/-! ### Documents -/

private theorem forM_requireDialect_eq_ok_iff (files : List SourceFile) :
    (files.forM fun file ↦ discard (requireDialect file.path)) = .ok () ↔
      ∀ file ∈ files, (Dialect.ofPath? file.path).isSome := by
  induction files with
  | nil => simp [pure, Except.pure]
  | cons file files ih =>
    rw [List.forM_eq_forM, List.forM_cons, List.forall_mem_cons, requireDialect, ← ih]
    cases Dialect.ofPath? file.path with
    | none => simp [discard, Functor.discard, Functor.mapConst, bind, Except.bind, Except.map]
    | some dialect =>
      simp [discard, Functor.discard, Functor.mapConst, bind, Except.bind, Except.map]

private theorem ofFiles_eq_ok_iff (base : Path) (files : List SourceFile) (project : Project) :
    ofFiles base files = .ok project ↔
      (∀ file ∈ files, (Dialect.ofPath? file.path).isSome) ∧ project = ofTargets base files := by
  rw [← forM_requireDialect_eq_ok_iff, ofFiles]
  cases files.forM fun file ↦ discard (requireDialect file.path) with
  | error error => simp [bind, Except.bind]
  | ok => simp [bind, Except.bind, pure, Except.pure, ofTargets, eq_comm]

private theorem documentFiles_eq_ok_iff (base : Path) (options : DocOptions)
    (files : List SourceFile) (docs : ProjectDoc) :
    documentFiles base options files = .ok docs ↔
      (∀ file ∈ files, (Dialect.ofPath? file.path).isSome ∧ file.issues = [] ∧
        ∃ result, (ofTargets base files).documentFile options file = .ok result) ∧
      docs = Table.ofEntries (files.filterMap ((ofTargets base files).keyed? options)) := by
  have hstep : documentFiles base options files = .ok docs ↔
      (∀ file ∈ files, (Dialect.ofPath? file.path).isSome) ∧
        (ofTargets base files).document options = .ok docs := by
    unfold documentFiles
    cases hproject : ofFiles base files with
    | error error =>
      have hnone : ¬ ∀ file ∈ files, (Dialect.ofPath? file.path).isSome := by
        intro hall
        rw [(ofFiles_eq_ok_iff base files _).mpr ⟨hall, rfl⟩] at hproject
        cases hproject
      simp [bind, Except.bind, hnone]
    | ok project =>
      obtain ⟨hall, rfl⟩ := (ofFiles_eq_ok_iff base files project).mp hproject
      exact ⟨fun h ↦ ⟨hall, h⟩, fun h ↦ h.2⟩
  have htargets : (ofTargets base files).targets = files := List.take_length
  rw [hstep, document_eq_ok_iff, htargets]
  constructor
  · rintro ⟨hdialects, hclean, hok, hdocs⟩
    exact ⟨fun file hfile ↦ ⟨hdialects file hfile, hclean file hfile, hok file hfile⟩, hdocs⟩
  · rintro ⟨hall, hdocs⟩
    exact ⟨fun file hfile ↦ (hall file hfile).1, fun file hfile ↦ (hall file hfile).2.1,
      fun file hfile ↦ (hall file hfile).2.2, hdocs⟩

private theorem keys_sublist (project : Project) (options : DocOptions)
    (files : List SourceFile) :
    ((files.filterMap (project.keyed? options)).map Prod.fst).Sublist
      (files.map project.relativePath) := by
  induction files with
  | nil => exact List.Sublist.refl []
  | cons file files ih =>
    rw [List.map_cons]
    cases hentry : project.keyed? options file with
    | none =>
      rw [List.filterMap_cons_none hentry]
      exact ih.cons _
    | some entry =>
      have hkey := ((keyed?_eq_some_iff project options file entry.1 entry.2).mp hentry).1
      rw [List.filterMap_cons_some hentry, List.map_cons, hkey]
      exact ih.cons_cons _

private theorem get?_eq_of_perm {docs docs' : ProjectDoc}
    (hperm : docs.entries.Perm docs'.entries) (key : String) :
    docs.get? key = docs'.get? key := by
  have hsole : docs.entries.find? (fun entry ↦ entry.1 == key) =
      docs'.entries.find? fun entry ↦ entry.1 == key := by
    apply find?_eq_of_perm hperm
    apply (List.pairwise_map.mp docs.nodup).imp
    rintro entry other hdiffer ⟨hentry, hother⟩
    rw [beq_iff_eq] at hentry hother
    exact hdiffer (hentry.trans hother.symm)
  rw [Table.get?, Table.get?, hsole]

/-- Files that differ in their paths, in the paths they are shown under and in the names of their
types can be documented in any order or in none. Each has the same documentation in all of them, and
the documentation lists the files in their order. -/
theorem documentFiles_of_perm {base : Path} {files files' : List SourceFile}
    (hdistinct : Distinct base files) (hperm : files.Perm files') (options : DocOptions) :
    ((∃ docs, documentFiles base options files = .ok docs) ↔
      ∃ docs, documentFiles base options files' = .ok docs) ∧
    ∀ docs docs', documentFiles base options files = .ok docs →
      documentFiles base options files' = .ok docs' →
      (∀ key, docs.get? key = docs'.get? key) ∧
      docs.keys.Sublist (files.map (ofTargets base files).relativePath) ∧
      docs'.keys.Sublist (files'.map (ofTargets base files').relativePath) := by
  have hfile : (ofTargets base files).documentFile = (ofTargets base files').documentFile :=
    documentFile_eq_of_findType? (findType?_eq_of_perm hperm hdistinct.paths hdistinct.types)
  have hkeyed : (ofTargets base files).keyed? options = (ofTargets base files').keyed? options := by
    ext1 file
    rw [keyed?, keyed?, hfile]
    rfl
  constructor
  · simp only [documentFiles_eq_ok_iff, hfile, hperm.mem_iff, exists_and_left, exists_eq, and_true]
  · intro docs docs' hdocs hdocs'
    obtain ⟨-, rfl⟩ := (documentFiles_eq_ok_iff base options files docs).mp hdocs
    obtain ⟨-, rfl⟩ := (documentFiles_eq_ok_iff base options files' docs').mp hdocs'
    have hkeys := keys_sublist (ofTargets base files) options files
    have hkeys' := keys_sublist (ofTargets base files') options files'
    have hnodup := hkeys.nodup hdistinct.keys
    have hnodup' := hkeys'.nodup ((hperm.map _).nodup hdistinct.keys)
    have hentries := Table.entries_ofEntries hnodup
    have hentries' := Table.entries_ofEntries hnodup'
    refine ⟨?_, ?_, ?_⟩
    · apply get?_eq_of_perm
      rw [hentries, hentries', ← hkeyed]
      exact hperm.filterMap _
    · rw [Table.keys, hentries]
      exact hkeys
    · rw [Table.keys, hentries']
      exact hkeys'

/-- A file with a component whose props type `P` it does not declare. -/
def referringAt (path : Path) : SourceFile :=
  { path
    source := .ofString "export function A(p: P) \x7b\x7d\n"
    root := .mk { kind := "program", stop := 27 } [
      .mk { kind := "export_statement", stop := 26 } [
        .mk { kind := "export", named := false, stop := 6 } [],
        .mk { kind := "function_declaration", field := "declaration", start := 7, stop := 26 } [
          .mk { kind := "function", named := false, start := 7, stop := 15 } [],
          .mk { kind := "identifier", field := "name", start := 16, stop := 17 } [],
          .mk { kind := "formal_parameters", field := "parameters", start := 17, stop := 23 } [
            .mk { kind := "required_parameter", start := 18, stop := 22 } [
              .mk { kind := "identifier", field := "pattern", start := 18, stop := 19 } [],
              .mk { kind := "type_annotation", field := "type", start := 19, stop := 22 } [
                .mk { kind := "type_identifier", start := 21, stop := 22 } []]]],
          .mk { kind := "statement_block", field := "body", start := 24, stop := 26 } []]]] }

/-- A file that declares an interface `P` with one property. -/
def propsModule : SourceFile :=
  { path := ⟨"t.ts"⟩
    source := .ofString "interface P \x7b a: string \x7d\n"
    root := .mk { kind := "program", stop := 26 } [
      .mk { kind := "interface_declaration", stop := 25 } [
        .mk { kind := "interface", named := false, stop := 9 } [],
        .mk { kind := "type_identifier", field := "name", start := 10, stop := 11 } [],
        .mk { kind := "interface_body", field := "body", start := 12, stop := 25 } [
          .mk { kind := "property_signature", start := 14, stop := 23 } [
            .mk { kind := "property_identifier", field := "name", start := 14, stop := 15 } [],
            .mk { kind := "type_annotation", field := "type", start := 15, stop := 23 } [
              .mk { kind := "predefined_type", start := 17, stop := 23 } []]]]]] }

private theorem not_declares_referringAt (path : Path) (name : String) :
    ¬ (referringAt path).Declares name := by
  have hnone : (referringAt path).typeDeclarations = [] := by
    apply List.eq_nil_of_length_eq_zero
    exact (by decide +kernel : (referringAt ⟨""⟩).typeDeclarations.length = 0)
  simp [SourceFile.Declares, hnone]

/-- Three files, two of which use a type of the third, are documented in either order. -/
theorem documentFiles_of_perm_reversed :
    Distinct ⟨""⟩ [referringAt ⟨"A.tsx"⟩, referringAt ⟨"B.tsx"⟩, propsModule] ∧
    ∃ docs docs',
      documentFiles ⟨""⟩ {} [referringAt ⟨"A.tsx"⟩, referringAt ⟨"B.tsx"⟩, propsModule] = .ok docs ∧
      documentFiles ⟨""⟩ {} [propsModule, referringAt ⟨"B.tsx"⟩, referringAt ⟨"A.tsx"⟩] =
        .ok docs' ∧
      docs.keys = ["A.tsx", "B.tsx"] ∧ docs'.keys = ["B.tsx", "A.tsx"] ∧
      ∀ key, docs.get? key = docs'.get? key := by
  have hdistinct : Distinct ⟨""⟩ [referringAt ⟨"A.tsx"⟩, referringAt ⟨"B.tsx"⟩, propsModule] := by
    refine ⟨by decide, by decide, ?_⟩
    simp [not_declares_referringAt]
  have hkeys : (documentFiles ⟨""⟩ {} [referringAt ⟨"A.tsx"⟩, referringAt ⟨"B.tsx"⟩,
      propsModule]).toOption.map Table.keys = some ["A.tsx", "B.tsx"] := by
    decide +kernel
  have hkeys' : (documentFiles ⟨""⟩ {} [propsModule, referringAt ⟨"B.tsx"⟩,
      referringAt ⟨"A.tsx"⟩]).toOption.map Table.keys = some ["B.tsx", "A.tsx"] := by
    decide +kernel
  obtain ⟨hiff, hsame⟩ := documentFiles_of_perm hdistinct (List.reverse_perm _).symm {}
  cases hdocs : documentFiles ⟨""⟩ {} [referringAt ⟨"A.tsx"⟩, referringAt ⟨"B.tsx"⟩,
      propsModule] with
  | error error =>
    rw [hdocs] at hkeys
    cases hkeys
  | ok docs =>
    obtain ⟨docs', hdocs'⟩ := hiff.mp ⟨docs, hdocs⟩
    change documentFiles ⟨""⟩ {} [propsModule, referringAt ⟨"B.tsx"⟩, referringAt ⟨"A.tsx"⟩] = _
      at hdocs'
    rw [hdocs] at hkeys
    rw [hdocs'] at hkeys'
    exact ⟨hdistinct, docs, docs', rfl, hdocs', Option.some.inj hkeys, Option.some.inj hkeys',
      (hsame docs docs' hdocs hdocs').1⟩

end Project

end PropDoc
