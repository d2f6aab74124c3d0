import Mathlib.Data.List.Nodup
import Mathlib.Data.List.ProdSigma
import Mathlib.Data.List.Perm.Subperm
import PropDoc.FileSystem
import PropDoc.Proofs.Path

/-!
# Where paths lead

Where a path leads is a matter of its pieces alone; the file system only says whether it leads
there. So two ways to write a path never lead to two places, and a plain path leads wherever
another way to write it leads. Plain paths to files are few: there are at most four to each file.
The canonical form of a path leads where the path leads.
-/

namespace PropDoc

open PropDoc.Path

namespace Entry

/-! ### Counting files -/

/-- The files of the entries of a directory are listed entry by entry. -/
theorem filesEach_eq_map (enters : String → Bool) (entries : List (String × Entry)) :
    filesEach enters entries = entries.map fun known ↦
      (known.1,
        if known.2.isDirectory && !enters known.1 then [] else known.2.files enters) := by
  induction entries with
  | nil => rw [filesEach, List.map_nil]
  | cons known entries ih => rw [filesEach, ih, List.map_cons]

/-- A place at which there is a file is one of the places of files. -/
theorem mem_files {entry : Entry} {location : Location} {content : Syntax.Source}
    (h : entry.get? location = some (.file content)) : location ∈ entry.files fun _ ↦ true := by
  induction location generalizing entry with
  | nil =>
    rw [get?_nil, Option.some.injEq] at h
    rw [h, files]
    exact List.mem_singleton_self []
  | cons name rest ih =>
    cases entry with
    | file content => cases h
    | directory entries =>
      obtain ⟨child, hchild, hrest⟩ := Option.bind_eq_some_iff.mp h
      obtain ⟨before, after, rfl, -⟩ := List.lookup_eq_some_iff.mp hchild
      rw [files, List.mem_flatMap]
      refine ⟨(name, child.files fun _ ↦ true), ?_, List.mem_map_of_mem (ih hrest)⟩
      rw [List.mem_mergeSort, filesEach_eq_map, List.mem_map]
      exact ⟨(name, child), by simp, by simp⟩

mutual

/-- No tree has more places of files than files. -/
theorem length_files_le (enters : String → Bool) :
    (entry : Entry) → (entry.files enters).length ≤ entry.fileCount
  | file _ => by simp [files, fileCount]
  | directory entries => by
    rw [files, fileCount, (((filesEach enters entries).mergeSort_perm _).flatMap_right _).length_eq]
    exact length_filesEach_le enters entries

private theorem length_filesEach_le (enters : String → Bool) :
    (entries : List (String × Entry)) →
      ((filesEach enters entries).flatMap fun found ↦
        found.2.map fun location ↦ found.1 :: location).length ≤ fileCountEach entries
  | [] => by simp [filesEach, fileCountEach]
  | (name, entry) :: entries => by
    rw [filesEach, fileCountEach, List.flatMap_cons, List.length_append, List.length_map]
    apply Nat.add_le_add _ (length_filesEach_le enters entries)
    have hentry := length_files_le enters entry
    split
    · exact Nat.zero_le _
    · exact hentry

end

/-! ### What lies above -/

/-- What is in a directory is found under its name. -/
theorem get?_concat {entry : Entry} {location : Location} {entries : List (String × Entry)}
    (h : entry.get? location = some (.directory entries)) (name : String) :
    entry.get? (location ++ [name]) = entries.lookup name := by
  rw [get?_append, h, Option.bind_some]
  change ((entries.lookup name).bind fun child ↦ some child) = entries.lookup name
  exact Option.bind_fun_some (entries.lookup name)

/-- What lies above something is a directory. -/
theorem exists_directory_of_concat {entry found : Entry} {location : Location}
    {name : String} (h : entry.get? (location ++ [name]) = some found) :
    ∃ entries, entry.get? location = some (.directory entries) ∧
      entries.lookup name = some found := by
  rw [get?_append] at h
  obtain ⟨above, habove, hname⟩ := Option.bind_eq_some_iff.mp h
  cases above with
  | file content => cases hname
  | directory entries =>
    refine ⟨entries, habove, ?_⟩
    obtain ⟨child, hchild, hfound⟩ := Option.bind_eq_some_iff.mp hname
    cases hfound
    exact hchild

end Entry

namespace FileSystem

/-! ### Following paths -/

/-- Where a piece of a path leads from a place, if it leads anywhere. -/
def move (location : Location) (segment : List Char) : Location :=
  if isVoid segment then location
  else if segment = ['.', '.'] then location.dropLast
  else location ++ [String.ofList segment]

variable {fs : FileSystem}

/-- A name is one step further down. -/
theorem move_of_name {location : Location} {name : List Char} (hvoid : isVoid name = false)
    (hdots : name ≠ ['.', '.']) : move location name = location ++ [String.ofList name] := by
  rw [move, if_neg (by simp [hvoid]), if_neg hdots]

/-- A step leads somewhere exactly if it starts in a directory and, where it goes down, names one of
its entries. -/
theorem step_eq_ok_iff {location next : Location} {segment : List Char} :
    fs.step location segment = .ok next ↔
      ∃ entries, fs.root.get? location = some (.directory entries) ∧
        (isVoid segment = true ∨ segment = ['.', '.'] ∨
          (entries.lookup (String.ofList segment)).isSome) ∧
        move location segment = next := by
  unfold step move
  cases hget : fs.root.get? location with
  | none => simp only [reduceCtorEq, false_and, exists_false]
  | some entry =>
    cases entry with
    | file content => simp only [Option.some.injEq, reduceCtorEq, false_and, exists_false]
    | directory entries =>
      simp only [Option.some.injEq, Entry.directory.injEq, exists_eq_left']
      generalize (entries.lookup (String.ofList segment)).isSome = known
      by_cases hvoid : isVoid segment = true
      · simp [hvoid]
      · by_cases hparent : segment = ['.', '.']
        · simp [hparent, show isVoid ['.', '.'] = false from rfl]
        · cases known <;> simp [hvoid, hparent]

private theorem step_of_void {location : Location} {segment segment' : List Char}
    {next : Location} (hvoid : isVoid segment = true) (h : fs.step location segment' = .ok next) :
    fs.step location segment = .ok location := by
  obtain ⟨entries, hget, -, -⟩ := step_eq_ok_iff.mp h
  exact step_eq_ok_iff.mpr ⟨entries, hget, .inl hvoid, by rw [move, if_pos hvoid]⟩

private theorem foldlM_cons_eq_ok {location last : Location} {segment : List Char}
    {segments : List (List Char)}
    (h : (segment :: segments).foldlM fs.step location = .ok last) :
    fs.step location segment = .ok (move location segment) ∧
      segments.foldlM fs.step (move location segment) = .ok last := by
  rw [List.foldlM_cons] at h
  cases hstep : fs.step location segment with
  | error fault =>
    rw [hstep] at h
    cases h
  | ok next =>
    rw [hstep] at h
    obtain ⟨-, -, -, rfl⟩ := step_eq_ok_iff.mp hstep
    exact ⟨rfl, h⟩

private theorem foldlM_cons_of_step {location next : Location} {segment : List Char}
    (segments : List (List Char)) (h : fs.step location segment = .ok next) :
    (segment :: segments).foldlM fs.step location = segments.foldlM fs.step next := by
  rw [List.foldlM_cons, h]
  rfl

/-- The last piece is a step from where the others lead. -/
theorem follow_concat (fs : FileSystem) (init : List (List Char)) (name : List Char) :
    fs.follow (init ++ [name]) = (fs.follow init).bind fun location ↦ fs.step location name := by
  rw [follow, List.foldlM_append, ← follow]
  cases fs.follow init with
  | error fault => rfl
  | ok location =>
    change [name].foldlM fs.step location = fs.step location name
    rw [List.foldlM_cons]
    cases fs.step location name <;> rfl

private theorem eq_foldl_move {location last : Location} {segments : List (List Char)}
    (h : segments.foldlM fs.step location = .ok last) : last = segments.foldl move location := by
  induction segments generalizing location with
  | nil => exact (Except.ok.inj h).symm
  | cons segment segments ih => exact ih (foldlM_cons_eq_ok h).2

private theorem foldlM_filter {location last : Location} {segments : List (List Char)}
    (h : segments.foldlM fs.step location = .ok last) :
    (segments.filter fun segment ↦ !isVoid segment).foldlM fs.step location = .ok last := by
  induction segments generalizing location with
  | nil => exact h
  | cons segment segments ih =>
    obtain ⟨hstep, hrest⟩ := foldlM_cons_eq_ok h
    cases hvoid : isVoid segment with
    | true =>
      rw [List.filter_cons_of_neg (by simp [hvoid])]
      rw [move, if_pos hvoid] at hrest
      exact ih hrest
    | false =>
      rw [List.filter_cons_of_pos (by simp [hvoid]), foldlM_cons_of_step _ hstep]
      exact ih hrest

-- A void piece asks for a directory, which any piece after it does too.
private theorem foldlM_of_filter {location last : Location} {segments : List (List Char)}
    {name : List Char} (hname : isVoid name = false)
    (h : ((segments ++ [name]).filter fun segment ↦ !isVoid segment).foldlM fs.step location =
      .ok last) :
    (segments ++ [name]).foldlM fs.step location = .ok last := by
  induction segments generalizing location with
  | nil => rwa [List.nil_append, List.filter_cons_of_pos (by simp [hname])] at h
  | cons segment segments ih =>
    rw [List.cons_append] at h ⊢
    cases hvoid : isVoid segment with
    | true =>
      rw [List.filter_cons_of_neg (by simp [hvoid])] at h
      have hrest := ih h
      obtain ⟨next, others, hcons⟩ : ∃ next others, segments ++ [name] = next :: others :=
        List.exists_cons_of_ne_nil (by simp)
      have hstep : fs.step location next = .ok (move location next) := by
        rw [hcons] at hrest
        exact (foldlM_cons_eq_ok hrest).1
      rw [foldlM_cons_of_step _ (step_of_void hvoid hstep)]
      exact hrest
    | false =>
      rw [List.filter_cons_of_pos (by simp [hvoid])] at h
      obtain ⟨hstep, hrest⟩ := foldlM_cons_eq_ok h
      rw [foldlM_cons_of_step _ hstep]
      exact ih hrest

/-- Two ways to write a path do not lead to two places. -/
theorem location_unique {p q : Path} (hsame : p.same q = true) {location other : Location}
    (hp : fs.locate p = .ok location) (hq : fs.locate q = .ok other) : location = other := by
  have hp' := eq_foldl_move (foldlM_filter hp)
  have hq' := eq_foldl_move (foldlM_filter hq)
  rw [hp', hq', filter_segments_of_same hsame]

/-- A plain path leads where any other way to write it leads. -/
theorem locate_of_same {p q : Path} (hsame : p.same q = true) (hplain : q.Plain)
    {location : Location} (h : fs.locate p = .ok location) : fs.locate q = .ok location := by
  obtain ⟨init, name, -, hname, hsegments⟩ := hplain
  have hfilter := foldlM_filter h
  rw [filter_segments_of_same hsame, hsegments] at hfilter
  rw [locate, hsegments]
  exact foldlM_of_filter hname.notVoid hfilter

/-- Neither a dot nor two dots lead out of the directories. -/
theorem exists_directory_of_dots {location : Location} {entries : List (String × Entry)}
    {segment : List Char} (hget : fs.root.get? location = some (.directory entries))
    (h : isVoid segment = true ∨ segment = ['.', '.']) :
    ∃ known, fs.root.get? (move location segment) = some (.directory known) := by
  unfold move
  split
  · exact ⟨entries, hget⟩
  · next hvoid =>
    rw [if_pos (h.resolve_left hvoid)]
    rcases List.eq_nil_or_concat location with rfl | ⟨init, last, rfl⟩
    · exact ⟨entries, hget⟩
    · rw [List.concat_eq_append] at hget ⊢
      obtain ⟨known, hknown, -⟩ := Entry.exists_directory_of_concat hget
      exact ⟨known, by rwa [List.dropLast_concat]⟩

/-! ### Reading files -/

/-- A file can be read where a path leads to one. -/
theorem read_eq_ok_iff {path : Path} {source : Syntax.Source} :
    fs.read path = .ok source ↔
      ∃ location, fs.locate path = .ok location ∧ fs.root.get? location = some (.file source) := by
  unfold read
  cases hlocate : fs.locate path with
  | error fault => simp [bind, Except.bind]
  | ok location =>
    rcases hget : fs.root.get? location with _ | content | entries <;>
      simp [bind, Except.bind, pure, Except.pure, throw, throwThe, MonadExceptOf.throw, hget]

/-- What is a file can be read, and nothing else can. -/
theorem isFile_iff_read {path : Path} :
    fs.isFile path = true ↔ ∃ source, fs.read path = .ok source := by
  simp only [read_eq_ok_iff]
  unfold isFile lookup?
  cases hlocate : fs.locate path with
  | error fault => simp [Except.toOption]
  | ok location =>
    rcases hget : fs.root.get? location with _ | content | entries <;>
      simp [Except.toOption, Entry.isFile, Entry.isDirectory, hget]

/-- Two ways to write a path that both can be read give the same bytes. -/
theorem read_unique {p q : Path} (hsame : p.same q = true) {source source' : Syntax.Source}
    (hp : fs.read p = .ok source) (hq : fs.read q = .ok source') : source = source' := by
  obtain ⟨location, hlocate, hget⟩ := read_eq_ok_iff.mp hp
  obtain ⟨other, hlocate', hget'⟩ := read_eq_ok_iff.mp hq
  obtain rfl := location_unique hsame hlocate hlocate'
  rw [hget] at hget'
  cases hget'
  rfl

/-- A plain path can be read where any other way to write it can. -/
theorem read_of_same {p q : Path} (hsame : p.same q = true) (hplain : q.Plain)
    {source : Syntax.Source} (h : fs.read p = .ok source) : fs.read q = .ok source := by
  obtain ⟨location, hlocate, hget⟩ := read_eq_ok_iff.mp h
  exact read_eq_ok_iff.mpr ⟨location, locate_of_same hsame hplain hlocate, hget⟩

/-! ### Plain paths to files -/

private theorem foldl_move_lead {lead : List Component} (h : lead ∈ leads) :
    (lead.map Component.segment).foldl move [] = [] := by
  have hall : ∀ lead ∈ leads, (lead.map Component.segment).foldl move [] = [] := by decide
  exact hall lead h

private theorem foldl_move_names (location : Location) {names : List String}
    (h : ∀ name ∈ names, IsName name.toList) :
    (names.map String.toList).foldl move location = location ++ names := by
  induction names generalizing location with
  | nil => rw [List.map_nil, List.foldl_nil, List.append_nil]
  | cons name names ih =>
    have hname := h name List.mem_cons_self
    have hmove : move location name.toList = location ++ [name] := by
      rw [move_of_name hname.notVoid hname.notParent, String.ofList_toList]
    rw [List.map_cons, List.foldl_cons, hmove, ih _ fun other hother ↦
      h other (List.mem_cons_of_mem name hother), List.append_assoc, List.singleton_append]

private theorem exists_lead_of_locate {path : Path} (hplain : path.Plain) {location : Location}
    (h : fs.locate path = .ok location) :
    ∃ lead ∈ leads,
      path.segments = lead.map Component.segment ++ location.map String.toList := by
  obtain ⟨init, last, ⟨lead, hlead, names, rfl, hnames⟩, hlast, hsegments⟩ := hplain
  have hsegments' : path.segments =
      lead.map Component.segment ++ (names ++ [String.ofList last]).map String.toList := by
    rw [hsegments, List.map_append, List.map_map, List.map_append, List.append_assoc,
      List.map_singleton, String.toList_ofList]
    rfl
  have hall : ∀ name ∈ names ++ [String.ofList last], IsName name.toList := by
    intro name hname
    rcases List.mem_append.mp hname with hold | hnew
    · exact hnames name hold
    · rw [List.mem_singleton.mp hnew, String.toList_ofList]
      exact hlast
  have hlocation : location = names ++ [String.ofList last] := by
    rw [eq_foldl_move h, hsegments', List.foldl_append, foldl_move_lead hlead,
      foldl_move_names [] hall, List.nil_append]
  exact ⟨lead, hlead, hlocation ▸ hsegments'⟩

/-- There are at most four plain paths to each file. -/
theorem length_le_of_plain {paths : List Path} (hnodup : paths.Nodup)
    (hplain : ∀ path ∈ paths, path.Plain) (hfile : ∀ path ∈ paths, fs.isFile path = true) :
    paths.length ≤ 4 * fs.fileCount := by
  let files := fs.root.files fun _ ↦ true
  let written := (leads ×ˢ files).map fun (lead, location) ↦
    lead.map Component.segment ++ location.map String.toList
  have hsubset : paths.map segments ⊆ written := by
    intro segments hsegments
    obtain ⟨path, hpath, rfl⟩ := List.mem_map.mp hsegments
    obtain ⟨source, hread⟩ := isFile_iff_read.mp (hfile path hpath)
    obtain ⟨location, hlocate, hget⟩ := read_eq_ok_iff.mp hread
    obtain ⟨lead, hlead, hwritten⟩ := exists_lead_of_locate (hplain path hpath) hlocate
    rw [hwritten]
    exact List.mem_map.mpr
      ⟨(lead, location), List.mem_product.mpr ⟨hlead, Entry.mem_files hget⟩, rfl⟩
  have hnodup' : (paths.map segments).Nodup :=
    List.Nodup.map (fun _ _ ↦ eq_of_segments_eq) hnodup
  calc paths.length = (paths.map segments).length := (List.length_map segments).symm
    _ ≤ written.length := (hnodup'.subperm hsubset).length_le
    _ = 4 * files.length := by rw [List.length_map, List.length_product]; rfl
    _ ≤ 4 * fs.fileCount := Nat.mul_le_mul_left 4 (Entry.length_files_le _ fs.root)

/-- A plain path to something ends with its name. -/
theorem exists_concat_of_locate {path : Path} (hplain : path.Plain) {location : Location}
    (h : fs.locate path = .ok location) :
    ∃ above name, path.fileName? = some name ∧ location = above ++ [name] := by
  obtain ⟨init, last, hinit, hlast, hsegments⟩ := hplain
  refine ⟨(init.map Component.segment).foldl move [], String.ofList last, ?_, ?_⟩
  · rw [fileName?, components_of_segments hinit (by rwa [String.toList_ofList])
      (by rwa [String.toList_ofList]), List.getLast?_concat]
  · rw [eq_foldl_move h, hsegments, List.foldl_append, List.foldl_cons, List.foldl_nil,
      move_of_name hlast.notVoid hlast.notParent]

/-! ### Canonical paths -/

private theorem isSome_of_step {location next : Location} {segment : List Char}
    (h : fs.step location segment = .ok next) : (fs.root.get? next).isSome := by
  obtain ⟨entries, hget, hsegment, rfl⟩ := step_eq_ok_iff.mp h
  by_cases hdots : isVoid segment = true ∨ segment = ['.', '.']
  · obtain ⟨known, hknown⟩ := exists_directory_of_dots hget hdots
    rw [hknown]
    rfl
  · have hname := (or_assoc.mpr hsegment).resolve_left hdots
    rw [not_or, Bool.not_eq_true] at hdots
    rwa [move_of_name hdots.1 hdots.2, Entry.get?_concat hget]

/-- Whatever steps are taken from something, they lead to something. -/
theorem isSome_of_foldlM {location last : Location} {segments : List (List Char)}
    (hstart : (fs.root.get? location).isSome)
    (h : segments.foldlM fs.step location = .ok last) : (fs.root.get? last).isSome := by
  induction segments generalizing location with
  | nil => rwa [← Except.ok.inj h]
  | cons segment segments ih =>
    obtain ⟨hstep, hrest⟩ := foldlM_cons_eq_ok h
    exact ih (isSome_of_step hstep) hrest

private theorem isName_of_mem_foldl_move {location : Location} {segments : List (List Char)}
    (hstart : ∀ name ∈ location, IsName name.toList)
    (hsegments : ∀ segment ∈ segments, '/' ∉ segment) :
    ∀ name ∈ segments.foldl move location, IsName name.toList := by
  induction segments generalizing location with
  | nil => exact hstart
  | cons segment segments ih =>
    refine ih ?_ fun other hother ↦ hsegments other (List.mem_cons_of_mem segment hother)
    intro name hname
    unfold move at hname
    split at hname
    · exact hstart name hname
    · next hvoid =>
      split at hname
      · exact hstart name (List.dropLast_subset location hname)
      · next hparent =>
        rcases List.mem_append.mp hname with hold | hnew
        · exact hstart name hold
        · rw [List.mem_singleton.mp hnew, String.toList_ofList]
          exact ⟨hsegments segment List.mem_cons_self, by simpa using hvoid, hparent⟩

/-- A step to an entry that is there ends at it. -/
theorem step_of_name {location : Location} {name : String} (hname : IsName name.toList)
    (h : (fs.root.get? (location ++ [name])).isSome) :
    fs.step location name.toList = .ok (location ++ [name]) := by
  obtain ⟨child, hget⟩ := Option.isSome_iff_exists.mp h
  obtain ⟨entries, hdirectory, hlookup⟩ := Entry.exists_directory_of_concat hget
  refine step_eq_ok_iff.mpr ⟨entries, hdirectory, .inr (.inr ?_), ?_⟩
  · rw [String.ofList_toList, hlookup]
    rfl
  · rw [move_of_name hname.notVoid hname.notParent, String.ofList_toList]

private theorem foldlM_names {location : Location} {names : List String}
    (hnames : ∀ name ∈ names, IsName name.toList)
    (h : (fs.root.get? (location ++ names)).isSome) :
    (names.map String.toList).foldlM fs.step location = .ok (location ++ names) := by
  induction names generalizing location with
  | nil =>
    rw [List.append_nil]
    rfl
  | cons name names ih =>
    have hassoc : location ++ name :: names = location ++ [name] ++ names := by simp
    rw [hassoc] at h ⊢
    have hchild := Entry.isSome_get?_of_append h
    rw [List.map_cons, foldlM_cons_of_step _ (step_of_name (hnames name List.mem_cons_self) hchild)]
    exact ih (fun other hother ↦ hnames other (List.mem_cons_of_mem name hother)) h

private theorem segments_pathOf {location : Location}
    (h : ∀ name ∈ location, IsName name.toList) (hne : location ≠ []) :
    (pathOf location).segments = [] :: location.map String.toList := by
  rcases List.eq_nil_or_concat location with rfl | ⟨init, last, rfl⟩
  · exact absurd rfl hne
  · rw [List.concat_eq_append] at h ⊢
    have hinit : Resolved (.root :: init.map .name) :=
      ⟨[.root], by decide, init, rfl, fun name hname ↦ h name (List.mem_append_left _ hname)⟩
    have hsegments := segments_ofComponents_concat hinit (h last (by simp)).noSlash
    rw [pathOf, List.map_append, ← List.cons_append]
    rw [List.map_singleton, hsegments]
    simp [Component.segment]

/-- The canonical form of a path leads where the path leads. -/
theorem locate_of_canonical {path resolved : Path} (h : fs.canonical path = .ok resolved) :
    fs.locate resolved = fs.locate path := by
  cases hlocate : fs.locate path with
  | error fault =>
    rw [canonical, hlocate] at h
    cases h
  | ok location =>
    rw [canonical, hlocate] at h
    obtain rfl := Except.ok.inj h
    have hnames : ∀ name ∈ location, IsName name.toList := by
      rw [eq_foldl_move hlocate]
      exact isName_of_mem_foldl_move (by simp) fun segment ↦ slash_not_mem
    -- The first piece of any path asks for a directory at the root.
    have hroot : fs.step [] [] = .ok [] := by
      obtain ⟨first, rest, hsegments⟩ :=
        List.exists_cons_of_ne_nil (List.splitOn_ne_nil '/' path.text.toList)
      have hfollow : (first :: rest).foldlM fs.step [] = .ok location := hsegments ▸ hlocate
      exact step_of_void rfl (foldlM_cons_eq_ok hfollow).1
    by_cases hne : location = []
    · subst hne
      change [[], []].foldlM fs.step [] = _
      rw [foldlM_cons_of_step _ hroot, foldlM_cons_of_step _ hroot]
      rfl
    · rw [locate, segments_pathOf hnames hne, follow, foldlM_cons_of_step _ hroot]
      exact foldlM_names hnames (isSome_of_foldlM rfl hlocate)

end FileSystem

end PropDoc
