import PropDoc.Proofs.Project.Loading
import PropDoc.Snapshot.Basic

/-!
# Loaded projects are closed under links

A loaded project holds whatever a relative link of one of its files leads to. So a specifier is
resolved within the project to the very file that it names on disk, and to none where it names
none.
-/

namespace PropDoc

namespace Project

variable {parse : Parser} {fs : FileSystem} {paths : List Path} {project : Project}

/-- A file of a project was asked for or is a dependency. -/
theorem mem_files_iff {file : SourceFile} :
    file ∈ project.files ↔ file ∈ project.targets ∨ file ∈ project.dependencies := by
  rw [targets, dependencies, ← List.mem_append, List.take_append_drop]

/-- Every path that was asked for has its file among the targets. -/
theorem Loaded.exists_target (h : Loaded parse fs paths project) {path : Path}
    (hpath : path ∈ paths) : ∃ file ∈ project.targets, file.path = path := by
  rw [← h.targets] at hpath
  exact List.mem_map.mp hpath

private theorem Loaded.exists_reached (h : Loaded parse fs paths project) {file : SourceFile}
    (hfile : file ∈ project.files) : ∃ n, Reached parse fs paths n file.path := by
  rcases mem_files_iff.mp hfile with htarget | hdependency
  · have hpath : file.path ∈ paths := by
      rw [← h.targets]
      exact List.mem_map_of_mem htarget
    exact ⟨0, .target hpath⟩
  · exact ((h.reached file.path).mp (List.mem_map_of_mem hdependency)).1

private theorem Loaded.exists_of_reached (h : Loaded parse fs paths project) {n : Nat}
    {path : Path} (hreached : Reached parse fs paths n path) :
    ∃ file ∈ project.files, file.path.same path := by
  by_cases htarget : ∃ target ∈ paths, target.same path
  · obtain ⟨target, hmem, hsame⟩ := htarget
    obtain ⟨file, hfile, rfl⟩ := h.exists_target hmem
    exact ⟨file, mem_files_iff.mpr (.inl hfile), hsame⟩
  · have hfresh : ∀ target ∈ paths, ¬ target.same path := fun target hmem hsame ↦
      htarget ⟨target, hmem, hsame⟩
    obtain ⟨file, hfile, rfl⟩ := List.mem_map.mp ((h.reached path).mpr ⟨⟨n, hreached⟩, hfresh⟩)
    exact ⟨file, mem_files_iff.mpr (.inr hfile), Path.same_iff.mpr rfl⟩

/-- What a file of the project links to is in the project. -/
theorem Loaded.closed (h : Loaded parse fs paths project) {file : SourceFile}
    (hfile : file ∈ project.files) {link : Link} (hlink : link ∈ file.links) {path : Path}
    (hleads : LeadsTo fs file link path) : ∃ other ∈ project.files, other.path.same path := by
  obtain ⟨n, hreached⟩ := h.exists_reached hfile
  exact h.exists_of_reached (.linked hreached (h.read file hfile) hlink hleads)

private theorem Loaded.isFile_of_fileAt? (h : Loaded parse fs paths project) {path : Path}
    (hplain : path.Plain) {file : SourceFile} (hat : project.fileAt? path = some file) :
    fs.isFile path = true := by
  obtain ⟨hfile, hsame⟩ := fileAt?_eq_some hat
  obtain ⟨source, dialect, hread, -⟩ := readFile_eq_ok_iff.mp (h.read file hfile)
  exact FileSystem.isFile_iff_read.mpr ⟨source, FileSystem.read_of_same hsame hplain hread⟩

private theorem findSome?_eq_find?_bind {α β : Type} {f : α → Option β} {p : α → Bool}
    {items : List α} (hp : ∀ item ∈ items, ∀ found, f item = some found → p item = true)
    (hf : ∀ item, items.find? p = some item → (f item).isSome = true) :
    items.findSome? f = (items.find? p).bind f := by
  induction items with
  | nil => rfl
  | cons item items ih =>
    cases hitem : p item with
    | true =>
      have hfind : (item :: items).find? p = some item := List.find?_cons_of_pos hitem
      obtain ⟨found, hfound⟩ := Option.isSome_iff_exists.mp (hf item hfind)
      rw [hfind, Option.bind_some, List.findSome?_cons, hfound]
    | false =>
      have hfind : (item :: items).find? p = items.find? p :=
        List.find?_cons_of_neg (by simp [hitem])
      have hnone : f item = none := by
        rw [Option.eq_none_iff_forall_not_mem]
        intro found hfound
        have hpos := hp item List.mem_cons_self found hfound
        rw [hitem] at hpos
        cases hpos
      rw [hfind, List.findSome?_cons, hnone]
      apply ih
      · exact fun other hother ↦ hp other (List.mem_cons_of_mem item hother)
      · exact fun other hother ↦ hf other (hfind.trans hother)

/-- The project knows what a relative link of its files leads to. -/
theorem Loaded.exists_fileAt? (h : Loaded parse fs paths project) {file : SourceFile}
    (hfile : file ∈ project.files) {link : Link} (hlink : link ∈ file.links) {path : Path}
    (hleads : LeadsTo fs file link path) : (project.fileAt? path).isSome = true := by
  obtain ⟨other, hother, hsame⟩ := h.closed hfile hlink hleads
  rw [fileAt?, List.find?_isSome]
  exact ⟨other, hother, hsame⟩

/-- A relative link is resolved to the file of the project that is at the path it leads to. -/
theorem Loaded.resolve?_eq (h : Loaded parse fs paths project) {file : SourceFile}
    (hfile : file ∈ project.files) {link : Link} (hlink : link ∈ file.links)
    (hrelative : link.isRelative = true) :
    project.resolve? file link.specifier =
      (linkedPath? fs file.path link.specifier).bind project.fileAt? := by
  rw [resolve?, linkedPath?]
  apply findSome?_eq_find?_bind
  · intro path hpath found hat
    exact h.isFile_of_fileAt? (plain_of_mem_moduleCandidates hpath) hat
  · intro path hfind
    exact h.exists_fileAt? hfile hlink (leadsTo_iff.mpr ⟨hrelative, hfind⟩)

-- A project may hold a file more than once, but no two files at one path.
private theorem Loaded.alike_of_same (h : Loaded parse fs paths project) {file other : SourceFile}
    {path : Path} (hfile : file ∈ project.files) (hother : other ∈ project.files)
    (hsame : file.path.same path = true) (hsame' : other.path.same path = true) :
    file.Alike other := by
  have hpaths : file.path.same other.path = true :=
    Path.same_iff.mpr ((Path.same_iff.mp hsame).trans (Path.same_iff.mp hsame').symm)
  exact alike_of_readFile hpaths (h.read file hfile) (h.read other hother)

/-- In a loaded project every relative link, of a dependency as of a target, is resolved to the file
at the first of its candidates that exists on disk, and to none exactly if none of them exists. The
link is one that an import or export at the top of its file makes. -/
theorem resolve?_of_load {base : Path} (hload : load parse fs base paths = .ok project)
    {file : SourceFile} (hfile : file ∈ project.files) {link : Link} (hlink : link ∈ file.links)
    (hrelative : link.isRelative = true) :
    (∃ statement ∈ file.root.namedChildren, file.Makes statement link) ∧
    (∀ path, LeadsTo fs file link path →
      ∃ found ∈ project.files, project.resolve? file link.specifier = some found ∧
        found.path.same path = true ∧
        ∀ other ∈ project.files, other.path.same path = true → other.Alike found) ∧
    (project.resolve? file link.specifier = none ↔
      ∀ path ∈ moduleCandidates file.path link.specifier, fs.isFile path = false) := by
  obtain ⟨-, hloaded⟩ := loaded_of_load hload
  have hresolve := hloaded.resolve?_eq hfile hlink hrelative
  refine ⟨SourceFile.mem_links_iff.mp hlink, ?_, ?_⟩
  · intro path hleads
    obtain ⟨found, hat⟩ := Option.isSome_iff_exists.mp (hloaded.exists_fileAt? hfile hlink hleads)
    obtain ⟨hfound, hsame⟩ := fileAt?_eq_some hat
    refine ⟨found, hfound, ?_, hsame, ?_⟩
    · rw [hresolve, (leadsTo_iff.mp hleads).2, Option.bind_some, hat]
    · exact fun other hother hsame' ↦ hloaded.alike_of_same hother hfound hsame' hsame
  · have hnone : linkedPath? fs file.path link.specifier = none ↔
        ∀ path ∈ moduleCandidates file.path link.specifier, fs.isFile path = false := by
      simp [linkedPath?]
    rw [hresolve, ← hnone]
    cases hpath : linkedPath? fs file.path link.specifier with
    | none => simp
    | some path =>
      have hknown := hloaded.exists_fileAt? hfile hlink (leadsTo_iff.mpr ⟨hrelative, hpath⟩)
      rw [Option.bind_some, ← Option.not_isSome_iff_eq_none]
      simp [hknown]

/-- A module that imports another by the name of its compiled form. -/
def importsCompiled (dialect : Dialect) : ParsedText :=
  { dialect
    source := .ofString "import './t.js';\n"
    tree := .mk { kind := "program", stop := 17 } [
      .mk { kind := "import_statement", stop := 16 } [
        .mk { kind := "import", named := false, stop := 6 } [],
        .mk { kind := "string", field := "source", start := 7, stop := 15 } [
          .mk { kind := "'", named := false, start := 7, stop := 8 } [],
          .mk { kind := "string_fragment", start := 8, stop := 14 } [],
          .mk { kind := "'", named := false, start := 14, stop := 15 } []],
        .mk { kind := ";", named := false, start := 15, stop := 16 } []]] }

/-- Three such modules, two of which the specifier may name. -/
def compiledNames : Snapshot :=
  { fileSystem := ⟨.directory [("A.tsx", .file (importsCompiled .tsx).source),
      ("t.d.ts", .file (importsCompiled .ts).source),
      ("t.tsx", .file (importsCompiled .tsx).source)]⟩
    parsed := [importsCompiled .tsx, importsCompiled .ts] }

/-- A module that is reached by the name of its compiled form links by that name to itself. -/
theorem resolve?_of_load_compiledNames :
    ∃ project, load compiledNames.parser compiledNames.fileSystem ⟨"/"⟩ [⟨"/A.tsx"⟩] = .ok project ∧
      ∃ file ∈ project.files, file.path = ⟨"/t.tsx"⟩ ∧
        ∃ link ∈ file.links, link.isRelative = true ∧
          ∃ found ∈ project.files, project.resolve? file link.specifier = some found ∧
            found.path.same ⟨"/t.tsx"⟩ = true := by
  have hseen : (load compiledNames.parser compiledNames.fileSystem ⟨"/"⟩
      [⟨"/A.tsx"⟩]).toOption.map (fun project ↦ project.files.map fun file ↦
        (file.path, file.links)) =
      some [(⟨"/A.tsx"⟩, [⟨.brings, "./t.js", [], false⟩]),
        (⟨"/t.tsx"⟩, [⟨.brings, "./t.js", [], false⟩])] := by decide +kernel
  cases hload : load compiledNames.parser compiledNames.fileSystem ⟨"/"⟩ [⟨"/A.tsx"⟩] with
  | error error =>
    rw [hload] at hseen
    cases hseen
  | ok project =>
    rw [hload] at hseen
    obtain ⟨file, hfile, hfacts⟩ : ∃ file ∈ project.files,
        (file.path, file.links) = (Path.mk "/t.tsx", [⟨.brings, "./t.js", [], false⟩]) := by
      rw [← List.mem_map, show project.files.map (fun file ↦ (file.path, file.links)) = _ from
        Option.some.inj hseen]
      simp
    obtain ⟨hpath, hlinks⟩ := Prod.mk.inj hfacts
    have hlink : ⟨.brings, "./t.js", [], false⟩ ∈ file.links := by
      rw [hlinks]
      exact List.mem_singleton_self _
    have hleads : LeadsTo compiledNames.fileSystem file ⟨.brings, "./t.js", [], false⟩
        ⟨"/t.tsx"⟩ := by
      rw [leadsTo_iff, hpath]
      exact ⟨by decide, by decide⟩
    obtain ⟨found, hfound, hresolve, hsame, -⟩ :=
      (resolve?_of_load hload hfile hlink (by decide)).2.1 _ hleads
    exact ⟨project, rfl, file, hfile, hpath, _, hlink, by decide, found, hfound, hresolve, hsame⟩

end Project

end PropDoc
