import PropDoc.Proofs.FileSystem.Location

/-!
# Writing files

What is written to a path can be read from it, whatever dots the path goes through. To write a file
replaces no directory, so every way through the file system that was there stays.
-/

namespace PropDoc

open PropDoc.Path

namespace Entry

/-- Every directory of one tree is a directory of another, with no fewer names. -/
def Grows (old new : Entry) : Prop :=
  ∀ location entries, old.get? location = some (.directory entries) →
    ∃ entries', new.get? location = some (.directory entries') ∧
      ∀ name, (entries.lookup name).isSome → (entries'.lookup name).isSome

/-- An entry grows into itself. -/
theorem Grows.refl (entry : Entry) : entry.Grows entry :=
  fun _ entries h ↦ ⟨entries, h, fun _ hname ↦ hname⟩

/-- Growing twice is growing. -/
theorem Grows.trans {first second third : Entry} (h : first.Grows second)
    (h' : second.Grows third) : first.Grows third := by
  intro location entries hget
  obtain ⟨entries', hget', hnames⟩ := h location entries hget
  obtain ⟨entries'', hget'', hnames'⟩ := h' location entries' hget'
  exact ⟨entries'', hget'', fun name hname ↦ hnames' name (hnames name hname)⟩

private theorem isSome_lookup_putEntry {name other : String} {entries : List (String × Entry)}
    (new : Entry) (h : (entries.lookup other).isSome) :
    ((putEntry name new entries).lookup other).isSome := by
  by_cases hname : other = name
  · rw [hname, lookup_putEntry_self]
    rfl
  · rwa [lookup_putEntry_of_ne hname]

/-- What is written in the place of no directory takes no directory away. -/
theorem grows_put {entry : Entry} (new : Entry) {location : Location}
    (h : ∀ entries, entry.get? location ≠ some (.directory entries)) :
    entry.Grows (entry.put new location) := by
  induction location generalizing entry with
  | nil =>
    cases entry with
    | directory entries => exact absurd rfl (h entries)
    | file content =>
      intro place entries hplace
      cases place <;> cases hplace
  | cons name rest ih =>
    cases entry with
    | file content => exact Grows.refl _
    | directory known =>
      intro place entries hplace
      cases place with
      | nil =>
        cases hplace
        exact ⟨_, rfl, fun other hother ↦ isSome_lookup_putEntry _ hother⟩
      | cons first place =>
        obtain ⟨child, hchild, hrest⟩ := Option.bind_eq_some_iff.mp hplace
        -- Below the name that is written the child has changed; beside it nothing has.
        by_cases hfirst : first = name
        · subst hfirst
          have hput : ∀ entries, child.get? rest ≠ some (.directory entries) := by
            intro entries hentries
            exact h entries (Option.bind_eq_some_iff.mpr ⟨child, hchild, hentries⟩)
          obtain ⟨entries', hget, hnames⟩ := ih hput place entries hrest
          refine ⟨entries', ?_, hnames⟩
          change known.lookup first = some child at hchild
          rw [put, get?, child?, lookup_putEntry_self, Option.bind_some, hchild, Option.getD_some]
          exact hget
        · refine ⟨entries, ?_, fun _ hname ↦ hname⟩
          rw [put, get?, child?, lookup_putEntry_of_ne hfirst]
          exact hplace

end Entry

namespace FileSystem

variable {fs fs' : FileSystem}

/-! ### Steps -/

private theorem step_of_grows (hgrows : fs.root.Grows fs'.root) {location next : Location}
    {segment : List Char} (h : fs.step location segment = .ok next) :
    fs'.step location segment = .ok next := by
  obtain ⟨entries, hget, hsegment, hnext⟩ := step_eq_ok_iff.mp h
  obtain ⟨entries', hget', hnames⟩ := hgrows location entries hget
  refine step_eq_ok_iff.mpr ⟨entries', hget', ?_, hnext⟩
  exact hsegment.imp_right (Or.imp_right (hnames _))

/-- In a directory, a step fails only because nothing has the name. -/
theorem lookup_of_step_error {location : Location} {entries : List (String × Entry)}
    {segment : List Char} {fault : Fault}
    (hget : fs.root.get? location = some (.directory entries))
    (h : fs.step location segment = .error fault) :
    isVoid segment = false ∧ segment ≠ ['.', '.'] ∧
      entries.lookup (String.ofList segment) = none := by
  have hnot : ¬ (isVoid segment = true ∨ segment = ['.', '.'] ∨
      (entries.lookup (String.ofList segment)).isSome) := by
    intro hsegment
    rw [step_eq_ok_iff.mpr ⟨entries, hget, hsegment, rfl⟩] at h
    cases h
  simpa only [not_or, Bool.not_eq_true, Option.isSome_eq_false_iff, Option.isNone_iff_eq_none]
    using hnot

/-- Where every directory stays, every way that could be gone can be gone. -/
theorem foldlM_step_of_grows (hgrows : fs.root.Grows fs'.root) {location last : Location}
    {segments : List (List Char)} (h : segments.foldlM fs.step location = .ok last) :
    segments.foldlM fs'.step location = .ok last := by
  induction segments generalizing location with
  | nil => exact h
  | cons segment segments ih =>
    rw [List.foldlM_cons] at h ⊢
    cases hstep : fs.step location segment with
    | error fault =>
      rw [hstep] at h
      cases h
    | ok next =>
      rw [hstep] at h
      rw [step_of_grows hgrows hstep]
      exact ih h

/-- What is written under a name in a directory is found by the way to the directory and then the
name. -/
theorem follow_put {init : List (List Char)} {name : List Char} {parent : Location}
    {entries : List (String × Entry)} (hvoid : isVoid name = false) (hdots : name ≠ ['.', '.'])
    (hfollow : fs.follow init = .ok parent)
    (hdirectory : fs.root.get? parent = some (.directory entries))
    (hplace : ∀ known, fs.root.get? (parent ++ [String.ofList name]) ≠ some (.directory known))
    (new : Entry) :
    (fs.put (parent ++ [String.ofList name]) new).follow (init ++ [name]) =
      .ok (parent ++ [String.ofList name]) := by
  have hgrows := Entry.grows_put new hplace
  have hwritten := Entry.get?_put_of_directory hdirectory (String.ofList name) new
  obtain ⟨entries', hdirectory', hname⟩ := Entry.exists_directory_of_concat hwritten
  have hstep : (fs.put (parent ++ [String.ofList name]) new).step parent name =
      .ok (parent ++ [String.ofList name]) := by
    refine step_eq_ok_iff.mpr ⟨entries', hdirectory', .inr (.inr ?_), move_of_name hvoid hdots⟩
    rw [hname]
    rfl
  have hfollow' : (fs.put (parent ++ [String.ofList name]) new).follow init = .ok parent :=
    foldlM_step_of_grows hgrows hfollow
  rw [follow_concat, hfollow']
  exact hstep

/-! ### Files -/

private theorem trimmedSegments_of_not_endsInSlash {path : Path} {name : List Char}
    (hname : (trimmedSegments path).getLast? = some name) (h : path.endsInSlash = false) :
    trimmedSegments path = path.segments := by
  obtain ⟨init, last, hconcat⟩ := path.exists_concat_segments
  by_cases hlast : last = []
  · have hopen := (endsOpen_iff hconcat).mpr hlast
    rw [show ['/'].isSuffixOf path.text.toList = false from h, Bool.or_false,
      String.isEmpty_iff] at hopen
    rw [trimmedSegments, segments, hopen] at hname
    cases hname
  · rw [trimmedSegments, hconcat, List.reverse_append, List.reverse_singleton,
      List.singleton_append, List.dropWhile_cons_of_neg (by simpa using hlast),
      List.reverse_cons, List.reverse_reverse]

/-- Where a path has a parent, the parent is the directory that all but its last segment lead to. -/
theorem parentLocation_eq_ok {path : Path} {parent : Location}
    (h : fs.parentLocation path = .ok parent) :
    fs.follow (trimmedSegments path).dropLast = .ok parent ∧
      ∃ entries, fs.root.get? parent = some (.directory entries) := by
  rw [parentLocation] at h
  cases hfollow : fs.follow (trimmedSegments path).dropLast with
  | error fault =>
    rw [hfollow] at h
    cases h
  | ok location =>
    rw [hfollow] at h
    obtain ⟨entries, hget, -, rfl⟩ := step_eq_ok_iff.mp h
    exact ⟨rfl, entries, hget⟩

-- Write a file under a name in a directory.
private def writeIn (fs : FileSystem) (parent : Location) (name : List Char)
    (content : Syntax.Source) : Except Fault FileSystem :=
  match fs.step parent name with
  | .ok location =>
    if (fs.root.get? location).any Entry.isDirectory then .error .isDirectory
    else .ok (fs.put location (.file content))
  | .error _ => .ok (fs.put (parent ++ [String.ofList name]) (.file content))

private theorem exists_of_writeIn {parent : Location} {entries : List (String × Entry)}
    {name : List Char} {content : Syntax.Source}
    (hget : fs.root.get? parent = some (.directory entries))
    (h : fs.writeIn parent name content = .ok fs') :
    isVoid name = false ∧ name ≠ ['.', '.'] ∧
      (∀ known, fs.root.get? (parent ++ [String.ofList name]) ≠ some (.directory known)) ∧
      fs' = fs.put (parent ++ [String.ofList name]) (.file content) := by
  unfold writeIn at h
  cases hstep : fs.step parent name with
  | ok location =>
    obtain ⟨-, -, -, rfl⟩ := step_eq_ok_iff.mp hstep
    rw [hstep] at h
    dsimp only at h
    split at h
    · cases h
    · next hfile =>
      have hplace : ∀ known, fs.root.get? (move parent name) ≠ some (.directory known) := by
        intro known hknown
        simp [hknown, Entry.isDirectory] at hfile
      -- Dots lead to a directory, and a directory is not written over.
      have hdots : ¬ (isVoid name = true ∨ name = ['.', '.']) := by
        intro hdots
        obtain ⟨known, hknown⟩ := exists_directory_of_dots hget hdots
        exact hplace known hknown
      rw [not_or, Bool.not_eq_true] at hdots
      rw [move_of_name hdots.1 hdots.2] at h hplace
      exact ⟨hdots.1, hdots.2, hplace, (Except.ok.inj h).symm⟩
  | error fault =>
    rw [hstep] at h
    obtain ⟨hvoid, hdots, hnone⟩ := lookup_of_step_error hget hstep
    refine ⟨hvoid, hdots, ?_, (Except.ok.inj h).symm⟩
    intro known hknown
    rw [Entry.get?_concat hget, hnone] at hknown
    cases hknown

/-- A file is written into a directory, in the place of a file or of nothing. -/
theorem exists_of_write {path : Path} {content : Syntax.Source}
    (h : fs.write path content = .ok fs') :
    ∃ init name parent entries,
      path.segments = init ++ [name] ∧ isVoid name = false ∧ name ≠ ['.', '.'] ∧
      fs.follow init = .ok parent ∧ fs.root.get? parent = some (.directory entries) ∧
      (∀ known, fs.root.get? (parent ++ [String.ofList name]) ≠ some (.directory known)) ∧
      fs' = fs.put (parent ++ [String.ofList name]) (.file content) := by
  unfold write at h
  split at h
  · cases h
  · next name hname =>
    cases hparent : fs.parentLocation path with
    | error fault =>
      rw [hparent] at h
      cases h
    | ok parent =>
      rw [hparent] at h
      cases hslash : path.endsInSlash with
      | true =>
        rw [hslash] at h
        cases h
      | false =>
        rw [hslash] at h
        have htrimmed := trimmedSegments_of_not_endsInSlash hname hslash
        obtain ⟨hfollow, entries, hget⟩ := parentLocation_eq_ok hparent
        rw [htrimmed] at hname hfollow
        obtain ⟨hvoid, hdots, hplace, hput⟩ := exists_of_writeIn hget h
        refine ⟨path.segments.dropLast, name, parent, entries, ?_, hvoid, hdots, hfollow, hget,
          hplace, hput⟩
        exact (List.dropLast_append_getLast? name hname).symm

/-- What is written to a path is read from it. -/
theorem read_of_write {path : Path} {content : Syntax.Source}
    (h : fs.write path content = .ok fs') : fs'.read path = .ok content := by
  obtain ⟨init, name, parent, entries, hsegments, hvoid, hdots, hfollow, hdirectory, hplace,
    rfl⟩ := exists_of_write h
  have hwritten := Entry.get?_put_of_directory hdirectory (String.ofList name) (.file content)
  refine read_eq_ok_iff.mpr ⟨parent ++ [String.ofList name], ?_, hwritten⟩
  rw [locate, hsegments]
  exact follow_put hvoid hdots hfollow hdirectory hplace (.file content)

/-- What is written together with the directories above it is read. -/
theorem read_of_writeWithParents {path : Path} {content : Syntax.Source}
    (h : fs.writeWithParents path content = (fs', none)) : fs'.read path = .ok content := by
  unfold writeWithParents at h
  split at h
  · cases h
  · split at h
    · next hwrite =>
      cases h
      exact read_of_write hwrite
    · cases h

end FileSystem

end PropDoc
