import PropDoc.Project.Run
import PropDoc.Proofs.FileSystem.Walk

/-!
# Which sources are found

The sources below a directory are exactly the files there that are configured and not left out, as
long as no directory on the way is hidden or holds packages. They come in the order of their paths,
each once. So a stricter configuration finds some of the same in the same order, and what is found
below a directory that is entered is a piece of what is found above it.
-/

namespace PropDoc

open PropDoc.Path

private theorem entersDirectory_iff {name : String} :
    entersDirectory name = true ↔ name.toList.head? ≠ some '.' ∧ name ≠ "node_modules" := by
  have hdot : ['.'].isPrefixOf name.toList = (name.toList.head? == some '.') := by
    cases name.toList with
    | nil => rfl
    | cons c cs => simp [List.isPrefixOf, eq_comm]
  simp [entersDirectory, hdot]

private theorem Config.selects_iff {config : Config} {base source : Path} :
    config.selects base source = true ↔
      source.extension?.getD "" ∈ config.extensions ∧
      ∀ pattern ∈ config.excludedPaths,
        Glob.isMatch pattern ((source.relativeTo? base).getD source).text = false := by
  simp [Config.selects, Config.handles, Config.excludes]

namespace FileSystem

variable {fs : FileSystem} {config : Config} {base path : Path} {location : Location}
  {entry : Entry}

/-- The sources that are found from a place of a tree. -/
def sourcesOf (config : Config) (base path : Path) (entry : Entry) : List Path :=
  ((entry.files entersDirectory).map path.joinAll).filter (config.selects base)

private theorem sourcesBelow_of_locate (hlocate : fs.locate path = .ok location)
    (hget : fs.root.get? location = some entry) (config : Config) (base : Path) :
    fs.sourcesBelow config base path = .ok (sourcesOf config base path entry) := by
  rw [sourcesBelow, walk_of_locate hlocate hget]
  rfl

private theorem sourcesBelow_of_locate_error {fault : Fault}
    (hlocate : fs.locate path = .error fault) (config : Config) (base : Path) :
    fs.sourcesBelow config base path = .error (.walkStopped path fault) := by
  rw [sourcesBelow, walk, hlocate]
  rfl

private theorem mem_sourcesOf_iff (hnames : entry.WellNamed) {source : Path} :
    source ∈ sourcesOf config base path entry ↔
      (∃ names content, source = path.joinAll names ∧
        entry.get? names = some (.file content) ∧
        ∀ name ∈ names.dropLast, name.toList.head? ≠ some '.' ∧ name ≠ "node_modules") ∧
      source.extension?.getD "" ∈ config.extensions ∧
      ∀ pattern ∈ config.excludedPaths,
        Glob.isMatch pattern ((source.relativeTo? base).getD source).text = false := by
  rw [sourcesOf, List.mem_filter, Config.selects_iff, List.mem_map]
  apply and_congr_left'
  constructor
  · rintro ⟨names, hfile, rfl⟩
    obtain ⟨⟨content, hget⟩, henters⟩ := (Entry.mem_files_iff hnames).mp hfile
    exact ⟨names, content, rfl, hget, fun name hname ↦ entersDirectory_iff.mp (henters name hname)⟩
  · rintro ⟨names, content, rfl, hget, henters⟩
    exact ⟨names, (Entry.mem_files_iff hnames).mpr
      ⟨⟨content, hget⟩, fun name hname ↦ entersDirectory_iff.mpr (henters name hname)⟩, rfl⟩

private theorem isName_of_mem_files (hnames : entry.WellNamed) {enters : String → Bool}
    {names : Location} (hfile : names ∈ entry.files enters) :
    ∀ name ∈ names, IsName name.toList := by
  obtain ⟨⟨content, hget⟩, -⟩ := (Entry.mem_files_iff hnames).mp hfile
  exact hnames.isName hget

private theorem pairwise_sourcesOf (hnames : entry.WellNamed) (config : Config) (base path : Path) :
    (sourcesOf config base path entry).Pairwise Precedes := by
  apply List.Pairwise.filter
  rw [List.pairwise_map]
  exact (Entry.pairwise_files hnames entersDirectory).imp_of_mem fun hfirst hsecond hlt ↦
    precedes_joinAll path (isName_of_mem_files hnames hfirst) (isName_of_mem_files hnames hsecond)
      hlt

private theorem sublist_sourcesOf {stricter : Config}
    (hextensions : stricter.extensions ⊆ config.extensions)
    (hexcluded : config.excludedPaths ⊆ stricter.excludedPaths) (base path : Path)
    (entry : Entry) :
    (sourcesOf stricter base path entry).Sublist (sourcesOf config base path entry) := by
  apply List.monotone_filter_right
  intro source hsource
  obtain ⟨hextension, hpatterns⟩ := Config.selects_iff.mp hsource
  exact Config.selects_iff.mpr ⟨hextensions hextension,
    fun pattern hpattern ↦ hpatterns pattern (hexcluded hpattern)⟩

-- What is found below a directory that is entered stands together, and all else lies elsewhere.
private theorem exists_sourcesOf_eq_append (hnames : entry.WellNamed) {names : Location}
    {sub : Entry} (hget : entry.get? names = some sub)
    (henters : ∀ name ∈ names, entersDirectory name = true) (config : Config) (base path : Path) :
    ∃ before after,
      sourcesOf config base path entry =
        before ++ sourcesOf config base (path.joinAll names) sub ++ after ∧
      (∀ source ∈ sourcesOf config base (path.joinAll names) sub,
        (path.joinAll names).components <+: source.components) ∧
      ∀ source ∈ before ++ after, ¬ (path.joinAll names).components <+: source.components := by
  obtain ⟨before, after, hfiles, hothers⟩ := Entry.exists_files_eq_append hnames hget henters
  have hproper := hnames.isName hget
  refine ⟨(before.map path.joinAll).filter (config.selects base),
    (after.map path.joinAll).filter (config.selects base), ?_, ?_, ?_⟩
  · rw [sourcesOf, hfiles, List.map_append, List.map_append, List.filter_append,
      List.filter_append, List.map_map, sourcesOf]
    simp only [Function.comp_def, joinAll_append]
  · intro source hsource
    obtain ⟨below, hbelow, rfl⟩ := List.mem_map.mp (List.mem_filter.mp hsource).1
    rw [components_joinAll _ (isName_of_mem_files (hnames.of_get? hget) hbelow)]
    exact List.prefix_append _ _
  · intro source hsource
    rw [← List.filter_append, ← List.map_append] at hsource
    obtain ⟨other, hother, rfl⟩ := List.mem_map.mp (List.mem_filter.mp hsource).1
    have hlisted : other ∈ entry.files entersDirectory := by
      rw [hfiles]
      simp only [List.mem_append] at hother ⊢
      rcases hother with hbefore | hafter
      · exact .inl (.inl hbefore)
      · exact .inr hafter
    rw [components_joinAll_prefix_iff hproper (isName_of_mem_files hnames hlisted)]
    exact hothers other hother

/-- In a tree with proper names, what a path leads to is searched completely: the sources are
exactly the files below it that no hidden directory and no `node_modules` hides, whose extension is
configured and whose path from the base no pattern leaves out. Each is found once, in the order of
the paths. A configuration with fewer extensions or more patterns finds some of them in the same
order, and a search from a directory that is entered finds exactly those that lie below it, which
stand together. -/
theorem sourcesBelow_of_wellNamed {fs : FileSystem} (hnames : fs.root.WellNamed)
    (config : Config) (base path : Path) :
    (∀ fault, fs.locate path = .error fault →
      fs.sourcesBelow config base path = .error (.walkStopped path fault)) ∧
    ∀ location, fs.locate path = .ok location →
      ∃ found, fs.sourcesBelow config base path = .ok found ∧
        (∀ source, source ∈ found ↔
          (∃ names content, source = path.joinAll names ∧
            fs.root.get? (location ++ names) = some (.file content) ∧
            ∀ name ∈ names.dropLast, name.toList.head? ≠ some '.' ∧ name ≠ "node_modules") ∧
          source.extension?.getD "" ∈ config.extensions ∧
          ∀ pattern ∈ config.excludedPaths,
            Glob.isMatch pattern ((source.relativeTo? base).getD source).text = false) ∧
        found.Nodup ∧ found.Pairwise Precedes ∧
        (∀ stricter : Config, stricter.extensions ⊆ config.extensions →
          config.excludedPaths ⊆ stricter.excludedPaths →
          ∃ fewer, fs.sourcesBelow stricter base path = .ok fewer ∧ fewer.Sublist found) ∧
        ∀ names entries, fs.root.get? (location ++ names) = some (.directory entries) →
          (∀ name ∈ names, name.toList.head? ≠ some '.' ∧ name ≠ "node_modules") →
          ∃ before below after,
            fs.sourcesBelow config base (path.joinAll names) = .ok below ∧
            found = before ++ below ++ after ∧
            (∀ source ∈ below, (path.joinAll names).components <+: source.components) ∧
            ∀ source ∈ before ++ after,
              ¬ (path.joinAll names).components <+: source.components := by
  refine ⟨fun fault hlocate ↦ sourcesBelow_of_locate_error hlocate config base, ?_⟩
  intro location hlocate
  obtain ⟨entry, hget⟩ := Option.isSome_iff_exists.mp (isSome_of_foldlM rfl hlocate)
  have hbelow : ∀ names, fs.root.get? (location ++ names) = entry.get? names := fun names ↦ by
    rw [Entry.get?_append, hget, Option.bind_some]
  have hentry := hnames.of_get? hget
  have hsorted := pairwise_sourcesOf hentry config base path
  refine ⟨sourcesOf config base path entry, sourcesBelow_of_locate hlocate hget config base, ?_,
    hsorted.imp Precedes.ne, hsorted, ?_, ?_⟩
  · intro source
    simp only [hbelow]
    exact mem_sourcesOf_iff hentry
  · intro stricter hextensions hexcluded
    exact ⟨_, sourcesBelow_of_locate hlocate hget stricter base,
      sublist_sourcesOf hextensions hexcluded base path entry⟩
  · intro names entries hdirectory henters
    have hsub : entry.get? names = some (.directory entries) := hbelow names ▸ hdirectory
    obtain ⟨before, after, hfound, hunder, hapart⟩ := exists_sourcesOf_eq_append hentry hsub
      (fun name hname ↦ entersDirectory_iff.mpr (henters name hname)) config base path
    have hlocate' := locate_joinAll hlocate (hentry.isName hsub) (by rw [hdirectory]; rfl)
    exact ⟨before, _, after, sourcesBelow_of_locate hlocate' hdirectory config base, hfound, hunder,
      hapart⟩

/-- A tree with a hidden directory, packages, a test beside a source, and names out of order. -/
def crowded : FileSystem :=
  let source := Entry.file (.ofString "export {};")
  ⟨.directory [
    ("src", .directory [
      ("b", .directory [("Card.tsx", source)]),
      ("a", .directory [("types.ts", source), ("Button.tsx", source), ("styles.css", source),
        ("Button.test.tsx", source)])]),
    ("node_modules", .directory [("index.ts", source)]),
    (".cache", .directory [("Old.tsx", source)])]⟩

private theorem files_crowded :
    crowded.root.files entersDirectory =
      [["src", "a", "Button.test.tsx"], ["src", "a", "Button.tsx"], ["src", "a", "styles.css"],
        ["src", "a", "types.ts"], ["src", "b", "Card.tsx"]] := by
  have hnames : entersDirectory "src" = true ∧ entersDirectory "a" = true ∧
      entersDirectory "b" = true ∧ entersDirectory "node_modules" = false ∧
      entersDirectory ".cache" = false := by
    decide
  simp [crowded, Entry.files, Entry.filesEach, Entry.isDirectory, Entry.comesBefore,
    List.mergeSort, List.MergeSort.Internal.splitInTwo, hnames]

/-- Of a tree with a test, hidden directories and installed packages in it, the sources alone are
found, in order. -/
theorem sourcesBelow_of_wellNamed_crowded :
    crowded.root.WellNamed ∧
    crowded.sourcesBelow { excludedPaths := ["**/*.test.tsx"] } ⟨"/"⟩ ⟨"/"⟩ =
      .ok [⟨"/src/a/Button.tsx"⟩, ⟨"/src/a/types.ts"⟩, ⟨"/src/b/Card.tsx"⟩] ∧
    [Path.mk "/src/a/Button.tsx", ⟨"/src/a/types.ts"⟩, ⟨"/src/b/Card.tsx"⟩].Pairwise Precedes ∧
    ∃ before below after,
      crowded.sourcesBelow { excludedPaths := ["**/*.test.tsx"] } ⟨"/"⟩ ⟨"/src/a"⟩ = .ok below ∧
      [Path.mk "/src/a/Button.tsx", ⟨"/src/a/types.ts"⟩, ⟨"/src/b/Card.tsx"⟩] =
        before ++ below ++ after := by
  have hnames : crowded.root.WellNamed := by
    simp +decide [crowded, Entry.wellNamed_directory_iff, Entry.wellNamed_file]
  have hsources : sourcesOf { excludedPaths := ["**/*.test.tsx"] } ⟨"/"⟩ ⟨"/"⟩ crowded.root =
      [⟨"/src/a/Button.tsx"⟩, ⟨"/src/a/types.ts"⟩, ⟨"/src/b/Card.tsx"⟩] := by
    rw [sourcesOf, files_crowded]
    decide +kernel
  obtain ⟨found, hfound, -, -, hsorted, -, hparts⟩ := (sourcesBelow_of_wellNamed hnames
    { excludedPaths := ["**/*.test.tsx"] } ⟨"/"⟩ ⟨"/"⟩).2 [] rfl
  have hlocate : crowded.locate ⟨"/"⟩ = .ok [] := rfl
  have hall := sourcesBelow_of_locate hlocate rfl { excludedPaths := ["**/*.test.tsx"] } ⟨"/"⟩
  rw [hsources] at hall
  obtain rfl := Except.ok.inj (hfound.symm.trans hall)
  obtain ⟨before, below, after, hbelow, hfound, -⟩ := hparts ["src", "a"] _ rfl (by decide)
  exact ⟨hnames, hall, hsorted, before, below, after, hbelow, hfound⟩

end FileSystem

end PropDoc
