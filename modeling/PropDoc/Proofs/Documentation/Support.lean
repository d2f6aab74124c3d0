import PropDoc.Project.Run
import PropDoc.Proofs.Documentation.Outcome
import PropDoc.Proofs.List
import PropDoc.Proofs.Project.Closure

/-!
# Every file of a run can be read

A run over a directory never meets a file that no grammar reads. The extensions of a valid
configuration all have a grammar, and so has whatever a relative link leads to: a candidate ends in
an extension with a grammar, unless it is nothing but a suffix. So only a file that is called like
a suffix could be met.
-/

namespace PropDoc

open PropDoc.Path

/-- No file of a file system has a certain name. -/
def FileSystem.NoFileNamed (fs : FileSystem) (name : String) : Prop :=
  ∀ location content, fs.root.get? (location ++ [name]) ≠ some (.file content)

namespace Project

variable {parse : Parser} {fs : FileSystem} {config : Config}

/-! ### What links lead to -/

private theorem supported_of_leadsTo (hnames : ∀ name ∈ [".ts", ".tsx"], fs.NoFileNamed name)
    {file : SourceFile} {link : Link} {path : Path} (h : LeadsTo fs file link path) :
    path.Supported := by
  have hplain := h.plain
  obtain ⟨-, hfile, before, after, hcandidates, -⟩ := h
  have hmem : path ∈ moduleCandidates file.path link.specifier := by
    rw [hcandidates]
    exact List.mem_append_right before List.mem_cons_self
  rcases supported_or_suffix hmem with hsupported | ⟨suffix, hsuffix, hname⟩
  · exact hsupported
  · obtain ⟨source, hread⟩ := FileSystem.isFile_iff_read.mp hfile
    obtain ⟨location, hlocate, hget⟩ := FileSystem.read_eq_ok_iff.mp hread
    obtain ⟨above, name, hname', rfl⟩ := FileSystem.exists_concat_of_locate hplain hlocate
    obtain rfl : suffix = name := Option.some.inj (hname.symm.trans hname')
    exact absurd hget (hnames suffix hsuffix above source)

private theorem supported_of_reached (hnames : ∀ name ∈ [".ts", ".tsx"], fs.NoFileNamed name)
    {paths : List Path} (hpaths : ∀ path ∈ paths, path.Supported) {n : Nat} {path : Path}
    (h : Reached parse fs paths n path) : path.Supported := by
  cases h with
  | target hpath => exact hpaths path hpath
  | linked _ _ _ hleads => exact supported_of_leadsTo hnames hleads

/-! ### What a configuration selects -/

private theorem isSome_of_validate (hvalid : config.validate = .ok ()) {extension : String}
    (h : extension ∈ config.extensions) : (Dialect.ofExtension? extension).isSome = true := by
  unfold Config.validate Config.problem? at hvalid
  cases hfound : config.extensions.find? fun extension ↦
      (Dialect.ofExtension? extension).isNone with
  | some unsupported =>
    have hnonempty : config.extensions.isEmpty = false := by
      rw [List.isEmpty_eq_false_iff]
      exact List.ne_nil_of_mem h
    simp [hfound, hnonempty] at hvalid
  | none =>
    have hsupported := List.find?_eq_none.mp hfound extension h
    simpa [Option.isNone_iff_eq_none, Option.isSome_iff_ne_none] using hsupported

private theorem supported_of_selects (hvalid : config.validate = .ok ()) {base path : Path}
    (h : config.selects base path = true) : path.Supported := by
  have hextension : path.extension?.getD "" ∈ config.extensions := by
    rw [Config.selects, Bool.and_eq_true] at h
    simpa [Config.handles] using h.1
  have hdialect := isSome_of_validate hvalid hextension
  rw [Supported, Dialect.ofPath?]
  cases hpath : path.extension? with
  | some extension => rwa [hpath] at hdialect
  | none =>
    -- A file without an extension counts as having an empty one, and that has no grammar.
    rw [hpath] at hdialect
    exact absurd hdialect (by decide)

private theorem supported_of_sourcesBelow (hvalid : config.validate = .ok ()) {base root : Path}
    {found : List Path} (h : fs.sourcesBelow config base root = .ok found) :
    ∀ path ∈ found, path.Supported := by
  intro path hpath
  unfold FileSystem.sourcesBelow at h
  split at h
  · cases h
    exact supported_of_selects hvalid (List.mem_filter.mp hpath).2
  · cases h

/-! ### What can stop a run -/

private theorem unsupported_of_readFile {path unread : Path}
    (h : readFile parse fs path = .error (.unsupportedFile unread)) : ¬ path.Supported := by
  unfold readFile requireDialect at h
  intro hsupported
  obtain ⟨dialect, hdialect⟩ := Option.isSome_iff_exists.mp hsupported
  rw [hdialect] at h
  split at h <;> cases h

private theorem load_ne_unsupported (hnames : ∀ name ∈ [".ts", ".tsx"], fs.NoFileNamed name)
    {paths : List Path} (hpaths : ∀ path ∈ paths, path.Supported) (base unread : Path) :
    load parse fs base paths ≠ .error (.unsupportedFile unread) := by
  intro h
  obtain ⟨n, path, hreached, hread⟩ := reached_of_load_error h
  exact unsupported_of_readFile hread (supported_of_reached hnames hpaths hreached)

private theorem fails_ne_unsupported {project : Project} {options : DocOptions} {file : SourceFile}
    {error : Error} (h : Fails project options file error) (unread : Path) :
    error ≠ .unsupportedFile unread := by
  rcases h.form with ⟨_, rfl⟩ | rfl | hconcerns
  · simp
  · simp
  · rintro rfl
    cases hconcerns

private theorem document_ne_unsupported (project : Project) (options : DocOptions)
    (unread : Path) : project.document options ≠ .error (.unsupportedFile unread) := by
  intro h
  rcases exists_of_document_eq_error h with ⟨path, issue, herror⟩ | ⟨target, -, hfails⟩
  · cases herror
  · exact fails_ne_unsupported hfails unread rfl

private theorem resolve_ne_unsupported (path unread : Path) :
    fs.resolve path ≠ .error (.unsupportedFile unread) := by
  unfold FileSystem.resolve
  split <;> rintro ⟨⟩

private theorem isDirectory_of_resolve {path resolved : Path} (h : fs.resolve path = .ok resolved) :
    fs.isDirectory resolved = fs.isDirectory path := by
  unfold FileSystem.resolve at h
  split at h
  · next hcanonical =>
    cases h
    rw [FileSystem.isDirectory, FileSystem.lookup?, FileSystem.locate_of_canonical hcanonical]
    rfl
  · cases h

private theorem sourcesBelow_ne_unsupported (base root unread : Path) :
    fs.sourcesBelow config base root ≠ .error (.unsupportedFile unread) := by
  unfold FileSystem.sourcesBelow
  split <;> rintro ⟨⟩

private theorem ofPath_ne_unsupported (hvalid : config.validate = .ok ())
    (hnames : ∀ name ∈ [".ts", ".tsx"], fs.NoFileNamed name) {root : Path}
    (hroot : fs.isDirectory root = true) (base unread : Path) :
    ofPath parse fs config base root ≠ .error (.unsupportedFile unread) := by
  rw [ofPath, FileSystem.sourcesAt, if_pos hroot]
  apply bind_ne_error (sourcesBelow_ne_unsupported base root unread)
  intro found hfound
  exact load_ne_unsupported hnames (supported_of_sourcesBelow hvalid hfound) base unread

private theorem documentPath_ne_unsupported (hvalid : config.validate = .ok ())
    (hnames : ∀ name ∈ [".ts", ".tsx"], fs.NoFileNamed name) {path : Path}
    (hdirectory : fs.isDirectory path = true) (base unread : Path) :
    documentPath parse fs config base path ≠ .error (.unsupportedFile unread) := by
  apply bind_ne_error (resolve_ne_unsupported path unread)
  intro root hroot
  rw [← isDirectory_of_resolve hroot] at hdirectory
  apply bind_ne_error (resolve_ne_unsupported base unread)
  intro base _
  apply bind_ne_error (ofPath_ne_unsupported hvalid hnames hdirectory base unread)
  intro project _
  exact document_ne_unsupported project config.docOptions unread

private theorem exists_dialect_of_ofPath {base root : Path} {project : Project}
    (h : ofPath parse fs config base root = .ok project) {file : SourceFile}
    (hfile : file ∈ project.files) : ∃ dialect, requireDialect file.path = .ok dialect := by
  rw [ofPath] at h
  cases hpaths : fs.sourcesAt config base root with
  | error error =>
    rw [hpaths] at h
    cases h
  | ok paths =>
    rw [hpaths] at h
    obtain ⟨-, hloaded⟩ := loaded_of_load h
    obtain ⟨source, dialect, -, hdialect, -⟩ := readFile_eq_ok_iff.mp (hloaded.read file hfile)
    exact ⟨dialect, by rw [requireDialect, hdialect]⟩

/-- If a configuration is valid and no file is called like a suffix, documenting a directory is
never stopped by a file that no grammar reads. What is found below a directory can be read, and so
can whatever is linked to, from any file; and no file of the project is refused later on. -/
theorem documentPath_supported (hvalid : config.validate = .ok ())
    (hnames : ∀ name ∈ [".ts", ".tsx"], fs.NoFileNamed name) {path : Path}
    (hdirectory : fs.isDirectory path = true) (base : Path) :
    (∀ unread, documentPath parse fs config base path ≠ .error (.unsupportedFile unread)) ∧
    (∀ base root found, fs.sourcesBelow config base root = .ok found →
      ∀ source ∈ found, source.Supported) ∧
    (∀ file, ∀ linked ∈ linkedPaths fs file, linked.Supported) ∧
    ∀ base root project, ofPath parse fs config base root = .ok project →
      ∀ file ∈ project.files, ∃ dialect, requireDialect file.path = .ok dialect := by
  refine ⟨documentPath_ne_unsupported hvalid hnames hdirectory base, ?_, ?_, ?_⟩
  · intro base root found hfound
    exact supported_of_sourcesBelow hvalid hfound
  · intro file linked hlinked
    obtain ⟨link, -, hleads⟩ := mem_linkedPaths.mp hlinked
    exact supported_of_leadsTo hnames hleads
  · intro base root project hproject file hfile
    exact exists_dialect_of_ofPath hproject hfile

private theorem noFileNamed_of_files {name : String}
    (h : ∀ location ∈ fs.root.files fun _ ↦ true, location.getLast? ≠ some name) :
    fs.NoFileNamed name := by
  intro location content hget
  exact h _ (Entry.mem_files hget) List.getLast?_concat

/-- A directory with a module and what it imports, in source and compiled. -/
def withCompiled : Snapshot :=
  { fileSystem := ⟨.directory [("A.tsx", .file (importsCompiled .tsx).source),
      ("t.js", .file (.ofString "")), ("t.ts", .file (.ofString ""))]⟩
    parsed := [importsCompiled .tsx] }

private theorem files_withCompiled (enters : String → Bool) :
    withCompiled.fileSystem.root.files enters = [["A.tsx"], ["t.js"], ["t.ts"]] := by
  rw [withCompiled, Entry.files, List.mergeSort_of_pairwise]
  · simp [Entry.filesEach, Entry.files, Entry.isDirectory]
  · simp [Entry.filesEach, Entry.comesBefore]

/-- A directory with sources beside compiled files is documented without meeting a file of another
kind. -/
theorem documentPath_supported_withCompiled :
    (∀ unread, documentPath withCompiled.parser withCompiled.fileSystem {} ⟨"/"⟩ ⟨"/"⟩ ≠
      .error (.unsupportedFile unread)) ∧
    withCompiled.fileSystem.sourcesBelow {} ⟨"/"⟩ ⟨"/"⟩ = .ok [⟨"/A.tsx"⟩, ⟨"/t.ts"⟩] ∧
    ∀ source ∈ [Path.mk "/A.tsx", ⟨"/t.ts"⟩], source.Supported := by
  have hnames : ∀ name ∈ [".ts", ".tsx"], withCompiled.fileSystem.NoFileNamed name := by
    intro name hname
    apply noFileNamed_of_files
    rw [files_withCompiled]
    revert name
    decide
  have hwalk : withCompiled.fileSystem.walk entersDirectory ⟨"/"⟩ =
      .ok ([["A.tsx"], ["t.js"], ["t.ts"]].map (Path.mk "/").joinAll) := by
    rw [← files_withCompiled entersDirectory]
    rfl
  have hfound : withCompiled.fileSystem.sourcesBelow {} ⟨"/"⟩ ⟨"/"⟩ =
      .ok [⟨"/A.tsx"⟩, ⟨"/t.ts"⟩] := by
    rw [FileSystem.sourcesBelow, hwalk]
    decide
  obtain ⟨hdocument, hsources, -⟩ := @documentPath_supported withCompiled.parser
    withCompiled.fileSystem {} (by decide) hnames ⟨"/"⟩ (by decide) ⟨"/"⟩
  exact ⟨hdocument, hfound, hsources _ _ _ hfound⟩

end Project

end PropDoc
