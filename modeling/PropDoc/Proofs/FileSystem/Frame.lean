import PropDoc.Proofs.FileSystem.Writing

/-!
# What writing leaves as it was

A file is written together with the directories above it that are missing. Apart from the file and
these directories, every place of the file system keeps its state: it holds nothing, a directory, or
a file with the same bytes.
-/

namespace PropDoc

open PropDoc.Path

/-- What is at a place, leaving aside what lies below it. -/
inductive PlaceState where
  | absent
  | directory
  | file (content : Syntax.Source)

/-- The state of a place that holds an entry or nothing. -/
def PlaceState.of : Option Entry → PlaceState
  | none => .absent
  | some (.directory _) => .directory
  | some (.file content) => .file content

/-- The state of a place. -/
def FileSystem.stateAt (fs : FileSystem) (location : Location) : PlaceState :=
  .of (fs.root.get? location)

/-! ### One entry -/

namespace Entry

/-- Nothing lies below an entry. -/
def Bare (entry : Entry) : Prop := ∀ name rest, entry.get? (name :: rest) = none

private theorem bare_file (content : Syntax.Source) : (file content).Bare := fun _ _ ↦ rfl

private theorem bare_directory_nil : (directory []).Bare := fun _ _ ↦ rfl

/-- An entry with nothing below it that is written into a directory, in the place of no directory,
changes the state of no other place. -/
theorem state_put_of_ne {entry new : Entry} {parent : Location} {entries : List (String × Entry)}
    {name : String} (hparent : entry.get? parent = some (.directory entries))
    (hold : ∀ known, entries.lookup name ≠ some (.directory known)) (hnew : new.Bare)
    {other : Location} (hne : other ≠ parent ++ [name]) :
    PlaceState.of ((entry.put new (parent ++ [name])).get? other) =
      PlaceState.of (entry.get? other) := by
  induction parent generalizing entry other with
  | nil =>
    cases hparent
    cases other with
    | nil => rfl
    | cons first rest =>
      rw [List.nil_append, put, put, get?, get?, child?, child?]
      by_cases hfirst : first = name
      · subst hfirst
        rw [lookup_putEntry_self, Option.bind_some]
        obtain ⟨second, below, rfl⟩ : ∃ second below, rest = second :: below := by
          apply List.exists_cons_of_ne_nil
          rintro rfl
          exact hne rfl
        rw [hnew second below]
        -- Nothing was below the name either, since it was no directory.
        cases hlookup : entries.lookup first with
        | none => rfl
        | some child =>
          cases child with
          | file content => rfl
          | directory known => exact absurd hlookup (hold known)
      · rw [lookup_putEntry_of_ne hfirst]
  | cons top parent ih =>
    cases entry with
    | file content => cases hparent
    | directory known =>
      obtain ⟨child, hchild, hrest⟩ := Option.bind_eq_some_iff.mp hparent
      change known.lookup top = some child at hchild
      rw [List.cons_append] at hne ⊢
      cases other with
      | nil => rfl
      | cons first rest =>
        rw [put, hchild, Option.getD_some, get?, get?, child?, child?]
        by_cases hfirst : first = top
        · subst hfirst
          rw [lookup_putEntry_self, hchild, Option.bind_some, Option.bind_some]
          exact ih hrest fun heq ↦ hne (congrArg (first :: ·) heq)
        · rw [lookup_putEntry_of_ne hfirst]

end Entry

namespace FileSystem

variable {fs fs' fs'' : FileSystem}

private theorem stateAt_put_self {parent : Location} {entries : List (String × Entry)}
    (hparent : fs.root.get? parent = some (.directory entries)) (name : String) (new : Entry) :
    (fs.put (parent ++ [name]) new).stateAt (parent ++ [name]) = PlaceState.of (some new) := by
  rw [stateAt, put, Entry.get?_put_of_directory hparent]

/-! ### Directories -/

private theorem foldlM_step_of_empty {location : Location} {entries : List (String × Entry)}
    (hget : fs.root.get? location = some (.directory entries)) {segments : List (List Char)}
    (hempty : ∀ segment ∈ segments, segment = []) :
    segments.foldlM fs.step location = .ok location := by
  induction segments with
  | nil => rfl
  | cons segment segments ih =>
    obtain rfl := hempty segment List.mem_cons_self
    have hstep : fs.step location [] = .ok location :=
      step_eq_ok_iff.mpr ⟨entries, hget, .inl rfl, rfl⟩
    rw [List.foldlM_cons, hstep]
    exact ih fun other hother ↦ hempty other (List.mem_cons_of_mem [] hother)

private theorem locate_of_follow_trimmed {path : Path} {location : Location}
    {entries : List (String × Entry)}
    (hfollow : fs.follow (trimmedSegments path) = .ok location)
    (hget : fs.root.get? location = some (.directory entries)) :
    fs.locate path = .ok location := by
  have hsegments : path.segments =
      trimmedSegments path ++ (path.segments.reverse.takeWhile List.isEmpty).reverse := by
    rw [trimmedSegments, ← List.reverse_append, List.takeWhile_append_dropWhile,
      List.reverse_reverse]
  have hempty : ∀ segment ∈ (path.segments.reverse.takeWhile List.isEmpty).reverse,
      segment = [] := by
    intro segment hsegment
    rw [List.mem_reverse] at hsegment
    exact List.isEmpty_iff.mp (List.all_eq_true.mp List.all_takeWhile segment hsegment)
  rw [locate, hsegments, follow, List.foldlM_append]
  change (fs.follow (trimmedSegments path)).bind _ = _
  rw [hfollow]
  exact foldlM_step_of_empty hget hempty

private theorem exists_of_makeDirectory {path : Path} (h : fs.makeDirectory path = .ok fs') :
    ∃ parent name entries, fs.root.get? parent = some (.directory entries) ∧
      entries.lookup name = none ∧ fs' = fs.put (parent ++ [name]) (.directory []) ∧
      fs'.locate path = .ok (parent ++ [name]) := by
  unfold makeDirectory at h
  split at h
  · cases h
  · next name hname =>
    cases hparent : fs.parentLocation path with
    | error fault =>
      rw [hparent] at h
      cases h
    | ok parent =>
      rw [hparent] at h
      obtain ⟨hfollow, entries, hget⟩ := parentLocation_eq_ok hparent
      cases hstep : fs.step parent name with
      | ok location =>
        dsimp only [bind, Except.bind] at h
        rw [hstep] at h
        cases h
      | error fault =>
        dsimp only [bind, Except.bind] at h
        rw [hstep] at h
        obtain rfl := Except.ok.inj h
        obtain ⟨hvoid, hdots, hnone⟩ := lookup_of_step_error hget hstep
        refine ⟨parent, String.ofList name, entries, hget, hnone, rfl, ?_⟩
        have hplace : ∀ known,
            fs.root.get? (parent ++ [String.ofList name]) ≠ some (.directory known) := by
          simp [Entry.get?_concat hget, hnone]
        have htrimmed := follow_put hvoid hdots hfollow hget hplace (.directory [])
        rw [List.dropLast_append_getLast? name hname] at htrimmed
        exact locate_of_follow_trimmed htrimmed
          (Entry.get?_put_of_directory hget (String.ofList name) (.directory []))

/-- One file system comes from another by making directories that were not there, at places to
which some paths lead. -/
structure Makes (paths : List Path) (fs fs' : FileSystem) : Prop where
  grows : fs.root.Grows fs'.root
  made : ∀ location, fs'.stateAt location ≠ fs.stateAt location →
    (∃ path ∈ paths, fs'.locate path = .ok location) ∧
      fs.stateAt location = .absent ∧ fs'.stateAt location = .directory

private theorem Makes.refl (paths : List Path) (fs : FileSystem) : Makes paths fs fs :=
  ⟨Entry.Grows.refl fs.root, fun _ hne ↦ absurd rfl hne⟩

private theorem Makes.trans {paths : List Path} (h : Makes paths fs fs')
    (h' : Makes paths fs' fs'') : Makes paths fs fs'' := by
  refine ⟨h.grows.trans h'.grows, ?_⟩
  intro location hne
  by_cases hlater : fs''.stateAt location = fs'.stateAt location
  · obtain ⟨⟨path, hpath, hlocate⟩, habsent, hdirectory⟩ := h.made location (hlater ▸ hne)
    exact ⟨⟨path, hpath, foldlM_step_of_grows h'.grows hlocate⟩, habsent, hlater ▸ hdirectory⟩
  · obtain ⟨hpath, habsent, hdirectory⟩ := h'.made location hlater
    refine ⟨hpath, ?_, hdirectory⟩
    -- What was made first would no longer be absent.
    by_cases hearlier : fs'.stateAt location = fs.stateAt location
    · rwa [← hearlier]
    · have hmade := (h.made location hearlier).2.2
      rw [hmade] at habsent
      cases habsent

private theorem Makes.mono {paths more : List Path} (h : Makes paths fs fs')
    (hsubset : paths ⊆ more) : Makes more fs fs' := by
  refine ⟨h.grows, ?_⟩
  intro location hne
  obtain ⟨⟨path, hpath, hlocate⟩, hstates⟩ := h.made location hne
  exact ⟨⟨path, hsubset hpath, hlocate⟩, hstates⟩

private theorem makes_of_makeDirectory {path : Path} {paths : List Path} (hpath : path ∈ paths)
    (h : fs.makeDirectory path = .ok fs') : Makes paths fs fs' := by
  obtain ⟨parent, name, entries, hget, hnone, rfl, hlocate⟩ := exists_of_makeDirectory h
  constructor
  · apply Entry.grows_put
    simp [Entry.get?_concat hget, hnone]
  · intro location hne
    have hlocation : location = parent ++ [name] := by
      by_contra hother
      exact hne (Entry.state_put_of_ne hget (by simp [hnone]) Entry.bare_directory_nil hother)
    subst hlocation
    refine ⟨⟨path, hpath, hlocate⟩, ?_, stateAt_put_self hget name (.directory [])⟩
    rw [stateAt, Entry.get?_concat hget, hnone]
    rfl

/-- Whether it succeeds or not, all that is made are missing directories. -/
theorem makes_makeAll (fs : FileSystem) (paths : List Path) :
    Makes paths fs (fs.makeAll paths).1 := by
  induction paths with
  | nil => exact .refl [] fs
  | cons path above ih =>
    have habove := ih.mono (List.subset_cons_self path above)
    unfold makeAll
    split
    · next made hmade => exact makes_of_makeDirectory List.mem_cons_self hmade
    · split
      · next made fault hall =>
        rwa [hall] at habove
      · next made hall =>
        rw [hall] at habove
        split
        · next made' hmade => exact habove.trans (makes_of_makeDirectory List.mem_cons_self hmade)
        · exact habove
    · exact .refl _ fs

/-! ### Files -/

private theorem exists_place_of_write {path : Path} {content : Syntax.Source}
    (h : fs.write path content = .ok fs') :
    ∃ place, fs'.locate path = .ok place ∧ fs'.stateAt place = .file content ∧
      fs.root.Grows fs'.root ∧
      ∀ location, location ≠ place → fs'.stateAt location = fs.stateAt location := by
  obtain ⟨init, name, parent, entries, hsegments, hvoid, hdots, hfollow, hget, hplace, rfl⟩ :=
    exists_of_write h
  refine ⟨parent ++ [String.ofList name], ?_, stateAt_put_self hget _ _,
    Entry.grows_put _ hplace, ?_⟩
  · rw [locate, hsegments]
    exact follow_put hvoid hdots hfollow hget hplace (.file content)
  · intro location hne
    rw [Entry.get?_concat hget] at hplace
    exact Entry.state_put_of_ne hget hplace (Entry.bare_file content) hne

/-- A file that is written with the directories above it changes the state of the place that its
path leads to. Elsewhere directories are made that were not there, at places to which the paths
above it lead. -/
theorem changed_of_writeWithParents {path : Path} {content : Syntax.Source}
    (h : fs.writeWithParents path content = (fs', none)) {location : Location}
    (hne : fs'.stateAt location ≠ fs.stateAt location) :
    (fs'.locate path = .ok location ∧ fs'.stateAt location = .file content) ∨
      (∃ above ∈ path.ancestors, fs'.locate above = .ok location) ∧
        fs.stateAt location = .absent ∧ fs'.stateAt location = .directory := by
  have hmakes := makes_makeAll fs path.ancestors
  unfold writeWithParents makeParents at h
  split at h
  · cases h
  · next made hmade =>
    rw [hmade] at hmakes
    split at h
    · next written hwrite =>
      obtain rfl := (Prod.mk.inj h).1
      obtain ⟨place, hlocate, hfile, hgrows, hothers⟩ := exists_place_of_write hwrite
      by_cases hplace : location = place
      · subst hplace
        exact .inl ⟨hlocate, hfile⟩
      · rw [hothers location hplace] at hne ⊢
        obtain ⟨⟨above, habove, hlocate'⟩, hstates⟩ := hmakes.made location hne
        exact .inr ⟨⟨above, habove, foldlM_step_of_grows hgrows hlocate'⟩, hstates⟩
    · cases h

end FileSystem

end PropDoc
