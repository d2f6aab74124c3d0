import PropDoc.Proofs.Project.Links

/-!
# What loading gives

Loading ends whatever the links between the files are. The files that were asked for come first;
after them comes, once each, every other file that is reached from them along relative links, in
breadth-first order. The rounds are described by the layer they reach: after `n` of them, all that
can be reached in `n` steps is known.
-/

namespace PropDoc

/-- Two files that differ at most in how their paths are written. -/
structure SourceFile.Alike (file other : SourceFile) : Prop where
  path : file.path.same other.path = true
  source : file.source = other.source
  root : file.root = other.root

/-- Files that are alike have the same links. -/
theorem SourceFile.Alike.links_eq {file other : SourceFile} (h : file.Alike other) :
    file.links = other.links := by
  obtain ⟨path, source, root⟩ := file
  obtain ⟨path', source', root'⟩ := other
  obtain ⟨-, rfl, rfl⟩ := h
  rfl

namespace Project

/-- The files that were not asked for. -/
def dependencies (project : Project) : List SourceFile := project.files.drop project.targetCount

/-- The paths that are reached from some along a number of links. -/
inductive Reached (parse : Parser) (fs : FileSystem) (paths : List Path) : Nat → Path → Prop where
  | target {path : Path} : path ∈ paths → Reached parse fs paths 0 path
  | linked {n : Nat} {file : SourceFile} {link : Link} {path : Path} :
      Reached parse fs paths n file.path → readFile parse fs file.path = .ok file →
      link ∈ file.links → LeadsTo fs file link path → Reached parse fs paths (n + 1) path

/-- How reading ends, where the links of the newest of the known files are followed for as long as
they lead to something new. -/
inductive Closes (parse : Parser) (fs : FileSystem) :
    List SourceFile → List SourceFile → Except Error (List SourceFile) → Prop where
  | done {known newest : List SourceFile} :
      newPaths fs known newest = [] → Closes parse fs known newest (.ok known)
  | unread {known newest : List SourceFile} {error : Error} :
      (newPaths fs known newest).mapM (readFile parse fs) = .error error →
      Closes parse fs known newest (.error error)
  | round {known newest found : List SourceFile} {result : Except Error (List SourceFile)} :
      newPaths fs known newest ≠ [] →
      (newPaths fs known newest).mapM (readFile parse fs) = .ok found →
      Closes parse fs (known ++ found) found result → Closes parse fs known newest result

/-- How loading ends, without a bound on the rounds. -/
inductive Loads (parse : Parser) (fs : FileSystem) (base : Path) (paths : List Path) :
    Except Error Project → Prop where
  | unread {error : Error} :
      paths.mapM (readFile parse fs) = .error error → Loads parse fs base paths (.error error)
  | closes {targets : List SourceFile} {result : Except Error (List SourceFile)} :
      paths.mapM (readFile parse fs) = .ok targets → Closes parse fs targets targets result →
      Loads parse fs base paths (result.map fun files ↦ ⟨base, files, paths.length⟩)

/-- What decides the place of a file: its distance from the targets, then the file that links to it
first and the link in it. -/
structure Rank where
  distance : Nat
  origin : Nat
  position : Nat

/-- Ranks are compared from their first part on. -/
def Rank.Before (rank rank' : Rank) : Prop :=
  rank.distance < rank'.distance ∨ rank.distance = rank'.distance ∧
    (rank.origin < rank'.origin ∨ rank.origin = rank'.origin ∧ rank.position < rank'.position)

/-- The rank of a path among some files. -/
structure IsRank (parse : Parser) (fs : FileSystem) (paths : List Path) (files : List SourceFile)
    (path : Path) (rank : Rank) : Prop where
  reached : Reached parse fs paths rank.distance path
  nearest : ∀ n, Reached parse fs paths n path → rank.distance ≤ n
  firstLink : FirstLink fs files path rank.origin rank.position

/-- A project holds what was asked for and then, once each and in breadth-first order, all else
that is reached from it. -/
structure Loaded (parse : Parser) (fs : FileSystem) (paths : List Path) (project : Project) :
    Prop where
  targets : project.targets.map SourceFile.path = paths
  read : ∀ file ∈ project.files, readFile parse fs file.path = .ok file
  reached : ∀ path, path ∈ project.dependencies.map SourceFile.path ↔
    (∃ n, Reached parse fs paths n path) ∧ ∀ target ∈ paths, ¬ target.same path
  distinct : project.dependencies.Pairwise fun first second ↦ ¬ first.path.same second.path
  ranked : ∀ file ∈ project.dependencies,
    ∃ rank, IsRank parse fs paths project.files file.path rank
  ordered : project.dependencies.Pairwise fun first second ↦
    ∀ rank rank', IsRank parse fs paths project.files first.path rank →
      IsRank parse fs paths project.files second.path rank' → rank.Before rank'

variable {parse : Parser} {fs : FileSystem} {paths : List Path}

/-! ### Reading files -/

/-- A file is read if its bytes are and its extension has a dialect, and its tree is what the parser
makes of both. -/
theorem readFile_eq_ok_iff {path : Path} {file : SourceFile} :
    readFile parse fs path = .ok file ↔
      ∃ source dialect, fs.read path = .ok source ∧ Dialect.ofPath? path = some dialect ∧
        file = ⟨path, source, parse dialect source⟩ := by
  unfold readFile requireDialect
  cases hread : fs.read path with
  | error fault => simp
  | ok source => cases hdialect : Dialect.ofPath? path <;> simp [Except.map, eq_comm]

private theorem path_of_readFile {path : Path} {file : SourceFile}
    (h : readFile parse fs path = .ok file) : file.path = path := by
  obtain ⟨source, dialect, -, -, rfl⟩ := readFile_eq_ok_iff.mp h
  rfl

private theorem dialect_of_same {p q : Path} (h : p.same q = true) :
    Dialect.ofPath? p = Dialect.ofPath? q := by
  unfold Dialect.ofPath? Path.extension? Path.fileName?
  rw [Path.same_iff.mp h]

/-- What is read from one path is alike, whichever way the path is written. -/
theorem alike_of_readFile {p q : Path} {file other : SourceFile} (hsame : p.same q = true)
    (hp : readFile parse fs p = .ok file) (hq : readFile parse fs q = .ok other) :
    file.Alike other := by
  obtain ⟨source, dialect, hread, hdialect, rfl⟩ := readFile_eq_ok_iff.mp hp
  obtain ⟨source', dialect', hread', hdialect', rfl⟩ := readFile_eq_ok_iff.mp hq
  obtain rfl := FileSystem.read_unique hsame hread hread'
  rw [dialect_of_same hsame, hdialect'] at hdialect
  cases hdialect
  exact ⟨hsame, rfl, rfl⟩

private theorem mapM_readFile (parse : Parser) (fs : FileSystem) (paths : List Path) :
    match paths.mapM (readFile parse fs) with
    | .ok files => files.map SourceFile.path = paths ∧
        ∀ file ∈ files, readFile parse fs file.path = .ok file
    | .error error => ∃ path ∈ paths, readFile parse fs path = .error error := by
  induction paths with
  | nil => exact ⟨rfl, by simp⟩
  | cons path paths ih =>
    rw [List.mapM_cons]
    cases hfile : readFile parse fs path with
    | error error => exact ⟨path, List.mem_cons_self, hfile⟩
    | ok file =>
      have hpath := path_of_readFile hfile
      cases hrest : paths.mapM (readFile parse fs) with
      | error error =>
        rw [hrest] at ih
        obtain ⟨other, hother, herror⟩ := ih
        exact ⟨other, List.mem_cons_of_mem path hother, herror⟩
      | ok rest =>
        rw [hrest] at ih
        obtain ⟨hpaths, hread⟩ := ih
        refine ⟨by rw [List.map_cons, hpath, hpaths], ?_⟩
        intro other hother
        rcases List.mem_cons.mp hother with rfl | htail
        · rw [hpath, hfile]
        · exact hread other htail

private theorem read_of_mapM {files : List SourceFile}
    (h : paths.mapM (readFile parse fs) = .ok files) :
    files.map SourceFile.path = paths ∧
      ∀ file ∈ files, readFile parse fs file.path = .ok file := by
  have houtcome := mapM_readFile parse fs paths
  rwa [h] at houtcome

private theorem unread_of_mapM {error : Error}
    (h : paths.mapM (readFile parse fs) = .error error) :
    ∃ path ∈ paths, readFile parse fs path = .error error := by
  have houtcome := mapM_readFile parse fs paths
  rwa [h] at houtcome

/-! ### Ranks -/

private theorem IsRank.append {files : List SourceFile} {path : Path} {rank : Rank}
    (h : IsRank parse fs paths files path rank) (more : List SourceFile) :
    IsRank parse fs paths (files ++ more) path rank :=
  ⟨h.reached, h.nearest, h.firstLink.append more⟩

private theorem IsRank.unique {files : List SourceFile} {path : Path} {rank rank' : Rank}
    (h : IsRank parse fs paths files path rank) (h' : IsRank parse fs paths files path rank') :
    rank = rank' := by
  obtain ⟨distance, origin, position⟩ := rank
  obtain ⟨distance', origin', position'⟩ := rank'
  have hdistance : distance = distance' :=
    Nat.le_antisymm (h.nearest _ h'.reached) (h'.nearest _ h.reached)
  obtain ⟨horigin, hposition⟩ := h.firstLink.unique h'.firstLink
  simp_all

/-! ### Layers -/

-- What holds after `n` rounds. The links of the `old` files have been followed, the `newest` are
-- those of the last round, and `linked` are the paths found so far.
private structure Layered (parse : Parser) (fs : FileSystem) (paths : List Path) (n : Nat)
    (old newest : List SourceFile) (linked : List Path) : Prop where
  paths_eq : (old ++ newest).map SourceFile.path = paths ++ linked
  read : ∀ file ∈ old ++ newest, readFile parse fs file.path = .ok file
  inner : ∀ file ∈ old, ∃ m < n, Reached parse fs paths m file.path
  outer : ∀ file ∈ newest, Reached parse fs paths n file.path
  complete : ∀ m ≤ n, ∀ path, Reached parse fs paths m path →
    ∃ other ∈ paths ++ linked, other.same path
  fresh : ∀ path ∈ linked, ∀ target ∈ paths, ¬ target.same path
  distinct : linked.Pairwise fun first second ↦ ¬ first.same second
  ranked : ∀ path ∈ linked,
    ∃ rank, IsRank parse fs paths (old ++ newest) path rank ∧ rank.distance ≤ n
  ordered : linked.Pairwise fun first second ↦
    ∃ rank rank', IsRank parse fs paths (old ++ newest) first rank ∧
      IsRank parse fs paths (old ++ newest) second rank' ∧ rank.Before rank'

private theorem layered_targets {targets : List SourceFile}
    (hpaths : targets.map SourceFile.path = paths)
    (hread : ∀ file ∈ targets, readFile parse fs file.path = .ok file) :
    Layered parse fs paths 0 [] targets [] where
  paths_eq := by rw [List.nil_append, List.append_nil, hpaths]
  read := hread
  inner := by simp
  outer file hfile := .target (hpaths ▸ List.mem_map_of_mem hfile)
  complete := by
    intro m hm path hreached
    cases hreached with
    | target hmem => exact ⟨path, by simpa using hmem, Path.same_iff.mpr rfl⟩
    | linked => omega
  fresh := by simp
  distinct := .nil
  ranked := by simp
  ordered := .nil

section Layered

variable {n : Nat} {old newest : List SourceFile} {linked : List Path}

-- The links of files whose links have been followed lead to nothing new.
private theorem Layered.known_of_old (h : Layered parse fs paths n old newest linked) {path : Path}
    (hpath : path ∈ old.flatMap (linkedPaths fs)) : ∃ other ∈ paths ++ linked, other.same path := by
  obtain ⟨file, hfile, hlinked⟩ := List.mem_flatMap.mp hpath
  obtain ⟨link, hlink, hleads⟩ := mem_linkedPaths.mp hlinked
  obtain ⟨m, hm, hreached⟩ := h.inner file hfile
  have hread := h.read file (List.mem_append_left newest hfile)
  exact h.complete (m + 1) hm path (.linked hreached hread hlink hleads)

-- So it does not matter whether they are followed again.
private theorem Layered.newPaths_eq (h : Layered parse fs paths n old newest linked) :
    newPaths fs (old ++ newest) newest =
      addUnknown (paths ++ linked) ((old ++ newest).flatMap (linkedPaths fs)) := by
  rw [newPaths, h.paths_eq, List.flatMap_append, addUnknown_append_of_known]
  intro path hpath
  exact h.known_of_old hpath

private theorem Layered.reached_new (h : Layered parse fs paths n old newest linked) {path : Path}
    (hpath : path ∈ newPaths fs (old ++ newest) newest) :
    Reached parse fs paths (n + 1) path := by
  obtain ⟨file, hfile, hlinked⟩ := List.mem_flatMap.mp (mem_of_mem_addUnknown hpath)
  obtain ⟨link, hlink, hleads⟩ := mem_linkedPaths.mp hlinked
  exact .linked (h.outer file hfile) (h.read file (List.mem_append_right old hfile)) hlink hleads

private theorem Layered.not_same_of_new (h : Layered parse fs paths n old newest linked)
    {path other : Path} (hpath : path ∈ newPaths fs (old ++ newest) newest)
    (hother : other ∈ paths ++ linked) : ¬ other.same path := by
  rw [h.newPaths_eq] at hpath
  exact not_same_of_mem_addUnknown hpath hother

private theorem Layered.complete_succ (h : Layered parse fs paths n old newest linked)
    {path : Path} (hreached : Reached parse fs paths (n + 1) path) :
    ∃ other ∈ paths ++ (linked ++ newPaths fs (old ++ newest) newest), other.same path := by
  cases hreached with
  | @linked _ file link _ hfile hread hlink hleads =>
    -- The linking file is known, if under another spelling; that one links to the same paths.
    obtain ⟨known, hknown, hsame⟩ := h.complete n le_rfl _ hfile
    rw [← h.paths_eq] at hknown
    obtain ⟨other, hother, rfl⟩ := List.mem_map.mp hknown
    have halike : other.Alike file := alike_of_readFile hsame (h.read other hother) hread
    have hpath : path ∈ (old ++ newest).flatMap (linkedPaths fs) := by
      refine List.mem_flatMap.mpr ⟨other, hother, mem_linkedPaths.mpr ⟨link, ?_, ?_⟩⟩
      · rwa [halike.links_eq]
      · exact hleads.of_same (Path.same_iff.mpr (Path.same_iff.mp hsame).symm)
    rw [← List.append_assoc, h.newPaths_eq]
    exact exists_same_of_mem hpath

private theorem Layered.rank_of_new (h : Layered parse fs paths n old newest linked) {path : Path}
    (hpath : path ∈ newPaths fs (old ++ newest) newest) :
    ∃ rank, IsRank parse fs paths (old ++ newest) path rank ∧ rank.distance = n + 1 := by
  obtain ⟨origin, position, hfirst⟩ :
      ∃ origin position, FirstLink fs (old ++ newest) path origin position := by
    obtain ⟨file, hfile, hlinked⟩ := List.mem_flatMap.mp (mem_of_mem_addUnknown hpath)
    obtain ⟨link, hlink, hleads⟩ := mem_linkedPaths.mp hlinked
    obtain ⟨origin, horigin⟩ := List.getElem?_of_mem (List.mem_append_right old hfile)
    obtain ⟨position, hposition⟩ := List.getElem?_of_mem hlink
    exact exists_firstLink ⟨file, link, horigin, hposition, hleads⟩
  refine ⟨⟨n + 1, origin, position⟩, ⟨h.reached_new hpath, ?_, hfirst⟩, rfl⟩
  intro m hreached
  by_contra hlt
  obtain ⟨other, hother, hsame⟩ := h.complete m (by dsimp only at hlt; omega) path hreached
  exact h.not_same_of_new hpath hother hsame

private theorem Layered.ordered_new (h : Layered parse fs paths n old newest linked) :
    (newPaths fs (old ++ newest) newest).Pairwise fun first second ↦
      ∃ rank rank', IsRank parse fs paths (old ++ newest) first rank ∧
        IsRank parse fs paths (old ++ newest) second rank' ∧ rank.Before rank' := by
  have hplaces := pairwise_newPaths fs (paths ++ linked) (old ++ newest)
  rw [← h.newPaths_eq] at hplaces
  apply hplaces.imp_of_mem
  intro first second hfirst hsecond hearlier
  obtain ⟨rank, hrank, hdistance⟩ := h.rank_of_new hfirst
  obtain ⟨rank', hrank', hdistance'⟩ := h.rank_of_new hsecond
  obtain ⟨origin, position, hlinked, hlt⟩ := hearlier _ _ hrank'.firstLink.linked
  have hle := hrank.firstLink.first _ _ hlinked
  refine ⟨rank, rank', hrank, hrank', .inr ⟨hdistance.trans hdistance'.symm, ?_⟩⟩
  omega

private theorem Layered.next (h : Layered parse fs paths n old newest linked)
    {found : List SourceFile}
    (hfound : (newPaths fs (old ++ newest) newest).mapM (readFile parse fs) = .ok found) :
    Layered parse fs paths (n + 1) (old ++ newest) found
      (linked ++ newPaths fs (old ++ newest) newest) := by
  obtain ⟨hpaths, hread⟩ := read_of_mapM hfound
  constructor
  case paths_eq => rw [List.map_append, h.paths_eq, hpaths, List.append_assoc]
  case read =>
    intro file hfile
    rcases List.mem_append.mp hfile with hold | hnew
    · exact h.read file hold
    · exact hread file hnew
  case inner =>
    intro file hfile
    rcases List.mem_append.mp hfile with hold | hnew
    · obtain ⟨m, hm, hreached⟩ := h.inner file hold
      exact ⟨m, Nat.lt_succ_of_lt hm, hreached⟩
    · exact ⟨n, Nat.lt_succ_self n, h.outer file hnew⟩
  case outer =>
    intro file hfile
    exact h.reached_new (hpaths ▸ List.mem_map_of_mem hfile)
  case complete =>
    intro m hm path hreached
    rcases Nat.lt_or_eq_of_le hm with hlt | rfl
    · obtain ⟨other, hother, hsame⟩ := h.complete m (Nat.le_of_lt_succ hlt) path hreached
      rw [← List.append_assoc]
      exact ⟨other, List.mem_append_left _ hother, hsame⟩
    · exact h.complete_succ hreached
  case fresh =>
    intro path hpath target htarget
    rcases List.mem_append.mp hpath with hold | hnew
    · exact h.fresh path hold target htarget
    · exact h.not_same_of_new hnew (List.mem_append_left linked htarget)
  case distinct =>
    refine List.pairwise_append.mpr ⟨h.distinct, ?_, ?_⟩
    · rw [h.newPaths_eq]
      exact pairwise_addUnknown _ _
    · intro first hfirst second hsecond
      exact h.not_same_of_new hsecond (List.mem_append_right paths hfirst)
  case ranked =>
    intro path hpath
    rcases List.mem_append.mp hpath with hold | hnew
    · obtain ⟨rank, hrank, hdistance⟩ := h.ranked path hold
      exact ⟨rank, hrank.append found, Nat.le_succ_of_le hdistance⟩
    · obtain ⟨rank, hrank, hdistance⟩ := h.rank_of_new hnew
      exact ⟨rank, hrank.append found, Nat.le_of_eq hdistance⟩
  case ordered =>
    refine List.pairwise_append.mpr ⟨?_, ?_, ?_⟩
    · apply h.ordered.imp
      rintro first second ⟨rank, rank', hrank, hrank', hbefore⟩
      exact ⟨rank, rank', hrank.append found, hrank'.append found, hbefore⟩
    · apply h.ordered_new.imp
      rintro first second ⟨rank, rank', hrank, hrank', hbefore⟩
      exact ⟨rank, rank', hrank.append found, hrank'.append found, hbefore⟩
    · intro first hfirst second hsecond
      obtain ⟨rank, hrank, hdistance⟩ := h.ranked first hfirst
      obtain ⟨rank', hrank', hdistance'⟩ := h.rank_of_new hsecond
      exact ⟨rank, rank', hrank.append found, hrank'.append found, .inl (by omega)⟩

private theorem Layered.next_of_nil (h : Layered parse fs paths n old newest linked)
    (hnone : newPaths fs (old ++ newest) newest = []) :
    Layered parse fs paths (n + 1) (old ++ newest) [] linked := by
  have hread : (newPaths fs (old ++ newest) newest).mapM (readFile parse fs) = .ok [] := by
    rw [hnone]
    rfl
  have hnext := h.next hread
  rwa [hnone, List.append_nil] at hnext

private theorem Layered.stable {files : List SourceFile}
    (h : Layered parse fs paths n files [] linked) (m : Nat) :
    Layered parse fs paths (n + m) files [] linked := by
  induction m with
  | zero => exact h
  | succ m ih =>
    have hnext := ih.next_of_nil rfl
    rwa [List.append_nil] at hnext

private theorem Layered.complete_all {files : List SourceFile}
    (h : Layered parse fs paths n files [] linked) {m : Nat} {path : Path}
    (hreached : Reached parse fs paths m path) : ∃ other ∈ paths ++ linked, other.same path :=
  (h.stable m).complete m (Nat.le_add_left m n) path hreached

private theorem Layered.exists_leadsTo (h : Layered parse fs paths n old newest linked)
    {path : Path} (hpath : path ∈ linked) : ∃ file link, LeadsTo fs file link path := by
  obtain ⟨rank, hrank, -⟩ := h.ranked path hpath
  obtain ⟨file, link, -, -, hleads⟩ := hrank.firstLink.linked
  exact ⟨file, link, hleads⟩

private theorem Layered.length_le (h : Layered parse fs paths n old newest linked) :
    linked.length ≤ 4 * fs.fileCount := by
  apply FileSystem.length_le_of_plain
  · apply h.distinct.imp
    rintro first second hne rfl
    exact hne (Path.same_iff.mpr rfl)
  · intro path hpath
    obtain ⟨file, link, hleads⟩ := h.exists_leadsTo hpath
    exact hleads.plain
  · intro path hpath
    obtain ⟨file, link, -, hfile, -⟩ := h.exists_leadsTo hpath
    exact hfile

end Layered

/-! ### Rounds -/

-- The bound on the rounds is not reached: each round but the last finds a path, and there are
-- only so many.
private theorem closes_readLinked {n rounds : Nat} {old newest : List SourceFile}
    {linked : List Path} (h : Layered parse fs paths n old newest linked)
    (hrounds : 4 * fs.fileCount < rounds + linked.length) :
    Closes parse fs (old ++ newest) newest
      (readLinked parse fs rounds (old ++ newest) newest) := by
  induction rounds generalizing n old newest linked with
  | zero =>
    have hlength := h.length_le
    omega
  | succ rounds ih =>
    rw [readLinked]
    split
    · next hnone => exact .done hnone
    · next hsome =>
      cases hfound : (newPaths fs (old ++ newest) newest).mapM (readFile parse fs) with
      | error error => exact .unread hfound
      | ok found =>
        have hpos : 0 < (newPaths fs (old ++ newest) newest).length :=
          List.length_pos_of_ne_nil hsome
        refine .round hsome hfound (ih (h.next hfound) ?_)
        rw [List.length_append]
        omega

-- What reading can end with.
private def Outcome (parse : Parser) (fs : FileSystem) (paths : List Path) :
    Except Error (List SourceFile) → Prop
  | .ok files => ∃ n linked, Layered parse fs paths n files [] linked
  | .error error =>
    ∃ n path, Reached parse fs paths n path ∧ readFile parse fs path = .error error

private theorem Closes.outcome {known newest : List SourceFile}
    {result : Except Error (List SourceFile)} (h : Closes parse fs known newest result) :
    ∀ {n : Nat} {old : List SourceFile} {linked : List Path}, known = old ++ newest →
      Layered parse fs paths n old newest linked → Outcome parse fs paths result := by
  induction h with
  | done hnone =>
    rintro n old linked rfl hlayered
    exact ⟨n + 1, linked, hlayered.next_of_nil hnone⟩
  | unread herror =>
    rintro n old linked rfl hlayered
    obtain ⟨path, hpath, hunread⟩ := unread_of_mapM herror
    exact ⟨n + 1, path, hlayered.reached_new hpath, hunread⟩
  | round hsome hfound hcloses ih =>
    rintro n old linked rfl hlayered
    exact ih rfl (hlayered.next hfound)

private theorem Layered.loaded {n : Nat} {files : List SourceFile} {linked : List Path}
    (h : Layered parse fs paths n files [] linked) (base : Path) :
    Loaded parse fs paths ⟨base, files, paths.length⟩ := by
  have hpaths := h.paths_eq
  have hread := h.read
  have hranked := h.ranked
  have hordered := h.ordered
  rw [List.append_nil] at hpaths hread hranked hordered
  have hdependencies : (files.drop paths.length).map SourceFile.path = linked := by
    rw [List.map_drop, hpaths, List.drop_left]
  have hmem : ∀ file ∈ files.drop paths.length, file.path ∈ linked := by
    intro file hfile
    rw [← hdependencies]
    exact List.mem_map_of_mem hfile
  constructor
  case targets =>
    show (files.take paths.length).map SourceFile.path = paths
    rw [List.map_take, hpaths, List.take_left]
  case read => exact hread
  case reached =>
    intro path
    show path ∈ (files.drop paths.length).map SourceFile.path ↔ _
    rw [hdependencies]
    constructor
    · intro hpath
      obtain ⟨rank, hrank, -⟩ := hranked path hpath
      exact ⟨⟨rank.distance, hrank.reached⟩, h.fresh path hpath⟩
    · rintro ⟨⟨m, hreached⟩, hfresh⟩
      obtain ⟨other, hother, hsame⟩ := h.complete_all hreached
      rcases List.mem_append.mp hother with htarget | hlinked
      · exact absurd hsame (hfresh other htarget)
      · -- Both are plain, so that they are written alike.
        obtain ⟨file, link, hleads⟩ := h.exists_leadsTo hlinked
        cases hreached with
        | target hpath => exact absurd (Path.same_iff.mpr rfl) (hfresh path hpath)
        | linked _ _ _ hleads' => rwa [← hleads.plain.eq_of_same hleads'.plain hsame]
  case distinct =>
    have hdistinct := h.distinct
    rw [← hdependencies] at hdistinct
    exact List.pairwise_map.mp hdistinct
  case ranked =>
    intro file hfile
    obtain ⟨rank, hrank, -⟩ := hranked file.path (hmem file hfile)
    exact ⟨rank, hrank⟩
  case ordered =>
    rw [← hdependencies] at hordered
    apply (List.pairwise_map.mp hordered).imp
    rintro first second ⟨rank, rank', hrank, hrank', hbefore⟩ other other' hother hother'
    rwa [hother.unique hrank, hother'.unique hrank']

/-! ### Loading -/

private theorem load_of_unread {error : Error}
    (h : paths.mapM (readFile parse fs) = .error error) (base : Path) :
    load parse fs base paths = .error error := by
  unfold load
  rw [h]
  rfl

private theorem load_of_read {targets : List SourceFile}
    (h : paths.mapM (readFile parse fs) = .ok targets) (base : Path) :
    load parse fs base paths =
      (readLinked parse fs (roundLimit fs) targets targets).map fun files ↦
        ⟨base, files, paths.length⟩ := by
  unfold load
  rw [h]
  rfl

private theorem layered_of_read {targets : List SourceFile}
    (h : paths.mapM (readFile parse fs) = .ok targets) :
    Layered parse fs paths 0 [] targets [] :=
  layered_targets (read_of_mapM h).1 (read_of_mapM h).2

private theorem closes_of_read {targets : List SourceFile}
    (h : paths.mapM (readFile parse fs) = .ok targets) :
    Closes parse fs targets targets (readLinked parse fs (roundLimit fs) targets targets) := by
  apply closes_readLinked (layered_of_read h)
  rw [roundLimit, List.length_nil]
  omega

private theorem loads_load (parse : Parser) (fs : FileSystem) (base : Path) (paths : List Path) :
    Loads parse fs base paths (load parse fs base paths) := by
  cases htargets : paths.mapM (readFile parse fs) with
  | error error =>
    rw [load_of_unread htargets]
    exact .unread htargets
  | ok targets =>
    rw [load_of_read htargets]
    exact .closes htargets (closes_of_read htargets)

/-- What is loaded is closed under links, and nothing else is loaded. -/
theorem loaded_of_load {base : Path} {project : Project}
    (h : load parse fs base paths = .ok project) :
    project.base = base ∧ Loaded parse fs paths project := by
  cases htargets : paths.mapM (readFile parse fs) with
  | error error =>
    rw [load_of_unread htargets] at h
    cases h
  | ok targets =>
    have houtcome := (closes_of_read htargets).outcome rfl (layered_of_read htargets)
    rw [load_of_read htargets] at h
    cases hfiles : readLinked parse fs (roundLimit fs) targets targets with
    | error error =>
      rw [hfiles] at h
      cases h
    | ok files =>
      rw [hfiles] at h houtcome
      obtain ⟨n, linked, hlayered⟩ := houtcome
      cases h
      exact ⟨rfl, hlayered.loaded base⟩

/-- Loading fails only on a file that is reached. -/
theorem reached_of_load_error {base : Path} {error : Error}
    (h : load parse fs base paths = .error error) :
    ∃ n path, Reached parse fs paths n path ∧ readFile parse fs path = .error error := by
  cases htargets : paths.mapM (readFile parse fs) with
  | error error' =>
    rw [load_of_unread htargets] at h
    cases h
    obtain ⟨path, hpath, hunread⟩ := unread_of_mapM htargets
    exact ⟨0, path, .target hpath, hunread⟩
  | ok targets =>
    have houtcome := (closes_of_read htargets).outcome rfl (layered_of_read htargets)
    rw [load_of_read htargets] at h
    cases hfiles : readLinked parse fs (roundLimit fs) targets targets with
    | error error' =>
      rw [hfiles] at h houtcome
      cases h
      exact houtcome
    | ok files =>
      rw [hfiles] at h
      cases h

/-- Loading ends without reaching the bound on its rounds. It gives the files that were asked for
and, in breadth-first order, all else that is reached from them, or it fails on one of these. The
links of a file are those that the imports and exports at its top make. -/
theorem load_ends (parse : Parser) (fs : FileSystem) (base : Path) (paths : List Path) :
    Loads parse fs base paths (load parse fs base paths) ∧
      (match load parse fs base paths with
      | .ok project => project.base = base ∧ Loaded parse fs paths project
      | .error error =>
        ∃ n path, Reached parse fs paths n path ∧ readFile parse fs path = .error error) ∧
      ∀ (file : SourceFile) (link : Link), link ∈ file.links ↔
        ∃ statement ∈ file.root.namedChildren, file.Makes statement link := by
  refine ⟨loads_load parse fs base paths, ?_, fun _ _ ↦ SourceFile.mem_links_iff⟩
  split
  · next project hload => exact loaded_of_load hload
  · next error hload => exact reached_of_load_error hload

end Project

end PropDoc
