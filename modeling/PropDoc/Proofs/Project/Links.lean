import Mathlib.Data.List.Basic
import Mathlib.Data.Nat.Find
import PropDoc.Project.Loading
import PropDoc.Proofs.FileSystem.Location
import PropDoc.Proofs.List
import PropDoc.Proofs.Project.Resolution
import PropDoc.Proofs.SourceFile.Link

/-!
# Following links

Where the links of files lead, and in which order: by the file and by the link in it. The paths
that are new among those a list of files links to come in the order in which they first come up.
-/

namespace PropDoc

namespace Project

/-- A link of a file leads to a path: it is relative, and of the files it may name the path is the
first that exists. -/
def LeadsTo (fs : FileSystem) (file : SourceFile) (link : Link) (path : Path) : Prop :=
  link.isRelative = true ∧ fs.isFile path = true ∧
    ∃ before after, moduleCandidates file.path link.specifier = before ++ path :: after ∧
      ∀ other ∈ before, fs.isFile other = false

/-- A path is linked from a place: the file at `origin` has a link at `position` that leads
there. -/
def LinksAt (fs : FileSystem) (files : List SourceFile) (origin position : Nat) (path : Path) :
    Prop :=
  ∃ file link, files[origin]? = some file ∧ file.links[position]? = some link ∧
    LeadsTo fs file link path

/-- A path is first linked from a place: any other place comes later. -/
structure FirstLink (fs : FileSystem) (files : List SourceFile) (path : Path)
    (origin position : Nat) : Prop where
  linked : LinksAt fs files origin position path
  first : ∀ origin' position', LinksAt fs files origin' position' path →
    origin < origin' ∨ origin = origin' ∧ position ≤ position'

variable {fs : FileSystem} {files : List SourceFile} {path : Path}

/-! ### Where links lead -/

/-- A link leads to the path that loading follows it to. -/
theorem leadsTo_iff {file : SourceFile} {link : Link} :
    LeadsTo fs file link path ↔
      link.isRelative = true ∧ linkedPath? fs file.path link.specifier = some path := by
  simp only [LeadsTo, linkedPath?, List.find?_eq_some_iff_append, Bool.not_eq_true']

/-- What a link leads to is a plain path. -/
theorem LeadsTo.plain {file : SourceFile} {link : Link} (h : LeadsTo fs file link path) :
    path.Plain := by
  obtain ⟨-, -, before, after, hcandidates, -⟩ := h
  apply @plain_of_mem_moduleCandidates file.path path link.specifier
  rw [hcandidates]
  exact List.mem_append_right before List.mem_cons_self

/-- Links lead on from a path whichever way it is written. -/
theorem LeadsTo.of_same {file other : SourceFile} {link : Link}
    (hsame : file.path.same other.path = true) (h : LeadsTo fs file link path) :
    LeadsTo fs other link path := by
  unfold LeadsTo at h ⊢
  rwa [← moduleCandidates_of_same hsame]

/-- The paths that loading follows from a file are those its links lead to. -/
theorem mem_linkedPaths {file : SourceFile} :
    path ∈ linkedPaths fs file ↔ ∃ link ∈ file.links, LeadsTo fs file link path := by
  simp only [linkedPaths, List.mem_filterMap, List.mem_filter, leadsTo_iff, and_assoc]

/-! ### The first link to a path -/

private theorem LinksAt.append {origin position : Nat} (h : LinksAt fs files origin position path)
    (more : List SourceFile) : LinksAt fs (files ++ more) origin position path := by
  obtain ⟨file, link, hfile, hrest⟩ := h
  have horigin : origin < files.length := (List.getElem?_eq_some_iff.mp hfile).1
  exact ⟨file, link, by rw [List.getElem?_append_left horigin, hfile], hrest⟩

/-- More files at the end do not change where a path is first linked from. -/
theorem FirstLink.append {origin position : Nat}
    (h : FirstLink fs files path origin position) (more : List SourceFile) :
    FirstLink fs (files ++ more) path origin position := by
  refine ⟨h.linked.append more, ?_⟩
  intro origin' position' hlinked
  obtain ⟨file, link, hfile, -⟩ := h.linked
  have horigin : origin < files.length := (List.getElem?_eq_some_iff.mp hfile).1
  by_cases hinside : origin' < files.length
  · apply h.first
    obtain ⟨file', link', hfile', hrest⟩ := hlinked
    rw [List.getElem?_append_left hinside] at hfile'
    exact ⟨file', link', hfile', hrest⟩
  · omega

/-- A path is first linked from one place. -/
theorem FirstLink.unique {origin position origin' position' : Nat}
    (h : FirstLink fs files path origin position)
    (h' : FirstLink fs files path origin' position') :
    origin = origin' ∧ position = position' := by
  have hle := h.first _ _ h'.linked
  have hge := h'.first _ _ h.linked
  omega

/-- A path that is linked is first linked from some place. -/
theorem exists_firstLink {origin position : Nat} (h : LinksAt fs files origin position path) :
    ∃ origin position, FirstLink fs files path origin position := by
  -- The least file that links to the path, and in it the least link.
  classical
  have hfile : ∃ origin position, LinksAt fs files origin position path := ⟨origin, position, h⟩
  have hlink := Nat.find_spec hfile
  refine ⟨Nat.find hfile, Nat.find hlink, Nat.find_spec hlink, ?_⟩
  intro origin' position' hlinked
  have horigin : Nat.find hfile ≤ origin' := Nat.find_min' hfile ⟨position', hlinked⟩
  rcases Nat.lt_or_eq_of_le horigin with hlt | heq
  · exact .inl hlt
  · exact .inr ⟨heq, Nat.find_min' hlink (by rwa [heq])⟩

/-! ### New paths -/

section AddUnknown

variable {known paths : List Path}

private theorem any_same_iff : known.any path.same = true ↔ ∃ other ∈ known, other.same path := by
  simp only [List.any_eq_true, Path.same_iff]
  exact exists_congr fun other ↦ and_congr_right fun _ ↦ eq_comm

/-- Only paths that come up are added. -/
theorem mem_of_mem_addUnknown (h : path ∈ addUnknown known paths) : path ∈ paths := by
  induction paths generalizing known with
  | nil => cases h
  | cons head paths ih =>
    rw [addUnknown] at h
    split at h
    · exact List.mem_cons_of_mem head (ih h)
    · rcases List.mem_cons.mp h with rfl | htail
      · exact List.mem_cons_self
      · exact List.mem_cons_of_mem head (ih htail)

/-- What is added was not known. -/
theorem not_same_of_mem_addUnknown (h : path ∈ addUnknown known paths) {other : Path}
    (hother : other ∈ known) : ¬ other.same path := by
  induction paths generalizing known with
  | nil => cases h
  | cons head paths ih =>
    rw [addUnknown] at h
    split at h
    · exact ih h hother
    · next hknown =>
      rcases List.mem_cons.mp h with rfl | htail
      · exact fun hsame ↦ hknown (any_same_iff.mpr ⟨other, hother, hsame⟩)
      · exact ih htail (List.mem_cons_of_mem head hother)

/-- After adding, every path is known. -/
theorem exists_same_of_mem (h : path ∈ paths) :
    ∃ other ∈ known ++ addUnknown known paths, other.same path := by
  induction paths generalizing known with
  | nil => cases h
  | cons head paths ih =>
    rw [addUnknown]
    split
    · next hknown =>
      rcases List.mem_cons.mp h with rfl | htail
      · obtain ⟨other, hother, hsame⟩ := any_same_iff.mp hknown
        exact ⟨other, List.mem_append_left _ hother, hsame⟩
      · exact ih htail
    · rcases List.mem_cons.mp h with rfl | htail
      · exact ⟨path, by simp, Path.same_iff.mpr rfl⟩
      · obtain ⟨other, hother, hsame⟩ := @ih (head :: known) htail
        refine ⟨other, ?_, hsame⟩
        simp only [List.cons_append, List.mem_cons, List.mem_append] at hother ⊢
        tauto

/-- Nothing is added twice. -/
theorem pairwise_addUnknown (known paths : List Path) :
    (addUnknown known paths).Pairwise fun first second ↦ ¬ first.same second := by
  induction paths generalizing known with
  | nil => exact .nil
  | cons head paths ih =>
    rw [addUnknown]
    split
    · exact ih known
    · refine .cons ?_ (ih (head :: known))
      intro other hother
      exact not_same_of_mem_addUnknown hother List.mem_cons_self

/-- Paths that are known can be left out. -/
theorem addUnknown_append_of_known {first : List Path}
    (h : ∀ path ∈ first, ∃ other ∈ known, other.same path) (second : List Path) :
    addUnknown known (first ++ second) = addUnknown known second := by
  induction first with
  | nil => rw [List.nil_append]
  | cons head first ih =>
    have hknown : known.any head.same = true := any_same_iff.mpr (h head List.mem_cons_self)
    rw [List.cons_append, addUnknown, if_pos hknown]
    exact ih fun path hpath ↦ h path (List.mem_cons_of_mem head hpath)

private theorem pairwise_addUnknown_first (known paths : List Path) :
    (addUnknown known paths).Pairwise fun first second ↦
      ∃ before after, paths = before ++ first :: after ∧
        ∀ other ∈ before, ¬ other.same second := by
  induction paths generalizing known with
  | nil => exact .nil
  | cons head paths ih =>
    rw [addUnknown]
    split
    · next hknown =>
      obtain ⟨same, hmem, hsame⟩ := any_same_iff.mp hknown
      apply (ih known).imp_of_mem
      rintro first second - hsecond ⟨before, after, rfl, hbefore⟩
      refine ⟨head :: before, after, rfl, ?_⟩
      intro other hother
      rcases List.mem_cons.mp hother with rfl | htail
      · intro hother
        apply not_same_of_mem_addUnknown hsecond hmem
        exact Path.same_iff.mpr ((Path.same_iff.mp hsame).trans (Path.same_iff.mp hother))
      · exact hbefore other htail
    · refine .cons (fun second _ ↦ ⟨[], paths, rfl, by simp⟩) ?_
      apply (ih (head :: known)).imp_of_mem
      rintro first second - hsecond ⟨before, after, rfl, hbefore⟩
      refine ⟨head :: before, after, rfl, ?_⟩
      intro other hother
      rcases List.mem_cons.mp hother with rfl | htail
      · exact not_same_of_mem_addUnknown hsecond List.mem_cons_self
      · exact hbefore other htail

end AddUnknown

/-! ### Links with their places -/

-- A path with the place it is linked from.
private abbrev Placed := (Nat × Nat) × Path

private def placedLink? (fs : FileSystem) (file : SourceFile) (origin : Nat)
    (numbered : Link × Nat) : Option Placed :=
  if numbered.1.isRelative then
    (linkedPath? fs file.path numbered.1.specifier).map fun path ↦ ((origin, numbered.2), path)
  else none

private def placedOf (fs : FileSystem) (file : SourceFile) (origin : Nat) : List Placed :=
  file.links.zipIdx.filterMap (placedLink? fs file origin)

private def placed (fs : FileSystem) (files : List SourceFile) : List Placed :=
  files.zipIdx.flatMap fun numbered ↦ placedOf fs numbered.1 numbered.2

private theorem placedLink?_eq_some_iff {file : SourceFile} {origin : Nat}
    {numbered : Link × Nat} {found : Placed} :
    placedLink? fs file origin numbered = some found ↔
      found.1 = (origin, numbered.2) ∧ LeadsTo fs file numbered.1 found.2 := by
  obtain ⟨place, path⟩ := found
  unfold placedLink?
  rw [leadsTo_iff]
  split
  · next hrelative =>
    rw [Option.map_eq_some_iff]
    constructor
    · rintro ⟨path, hpath, heq⟩
      cases heq
      exact ⟨rfl, hrelative, hpath⟩
    · rintro ⟨rfl, -, hpath⟩
      exact ⟨path, hpath, rfl⟩
  · next hrelative => simp [hrelative]

private theorem map_placedOf (fs : FileSystem) (file : SourceFile) (origin : Nat) :
    (placedOf fs file origin).map Prod.snd = linkedPaths fs file := by
  unfold placedOf linkedPaths
  rw [List.filterMap_filter, List.map_filterMap]
  conv_rhs => rw [← List.zipIdx_map_fst 0 file.links, List.filterMap_map]
  congr 1
  funext numbered
  unfold placedLink?
  cases hrelative : numbered.1.isRelative <;>
    cases hpath : linkedPath? fs file.path numbered.1.specifier <;> simp [hrelative, hpath]

private theorem map_placed (fs : FileSystem) (files : List SourceFile) :
    (placed fs files).map Prod.snd = files.flatMap (linkedPaths fs) := by
  unfold placed
  rw [List.map_flatMap]
  conv_rhs => rw [← List.zipIdx_map_fst 0 files, List.flatMap_map]
  simp only [map_placedOf]

private theorem mem_placedOf {file : SourceFile} {origin : Nat} {found : Placed} :
    found ∈ placedOf fs file origin ↔ found.1.1 = origin ∧
      ∃ link, file.links[found.1.2]? = some link ∧ LeadsTo fs file link found.2 := by
  unfold placedOf
  rw [List.mem_filterMap]
  simp only [placedLink?_eq_some_iff, List.mem_zipIdx_iff_getElem?, Prod.exists]
  constructor
  · rintro ⟨link, position, hlink, hplace, hleads⟩
    rw [hplace]
    exact ⟨rfl, link, hlink, hleads⟩
  · rintro ⟨rfl, link, hlink, hleads⟩
    exact ⟨link, found.1.2, hlink, rfl, hleads⟩

private theorem mem_placed {found : Placed} :
    found ∈ placed fs files ↔ LinksAt fs files found.1.1 found.1.2 found.2 := by
  unfold placed LinksAt
  simp only [List.mem_flatMap, Prod.exists, List.mem_zipIdx_iff_getElem?, mem_placedOf]
  constructor
  · rintro ⟨file, origin, hfile, rfl, link, hlink, hleads⟩
    exact ⟨file, link, hfile, hlink, hleads⟩
  · rintro ⟨file, link, hfile, hlink, hleads⟩
    exact ⟨file, found.1.1, hfile, rfl, link, hlink, hleads⟩

-- Whether a place comes before another.
private def Precedes (first second : Nat × Nat) : Prop :=
  first.1 < second.1 ∨ first.1 = second.1 ∧ first.2 < second.2

private theorem pairwise_placed (fs : FileSystem) (files : List SourceFile) :
    (placed fs files).Pairwise fun first second ↦ Precedes first.1 second.1 := by
  unfold placed
  rw [List.pairwise_flatMap]
  constructor
  · intro numbered _
    unfold placedOf
    rw [List.pairwise_filterMap]
    apply (pairwise_zipIdx numbered.1.links).imp
    intro link link' hlt first hfirst second hsecond
    rw [(placedLink?_eq_some_iff.mp hfirst).1, (placedLink?_eq_some_iff.mp hsecond).1]
    exact .inr ⟨rfl, hlt⟩
  · apply (pairwise_zipIdx files).imp
    intro numbered numbered' hlt first hfirst second hsecond
    refine .inl ?_
    rw [(mem_placedOf.mp hfirst).1, (mem_placedOf.mp hsecond).1]
    exact hlt

/-- New paths come in the order of the places they are first linked from. -/
theorem pairwise_newPaths (fs : FileSystem) (known : List Path) (files : List SourceFile) :
    (addUnknown known (files.flatMap (linkedPaths fs))).Pairwise fun first second ↦
      ∀ origin' position', LinksAt fs files origin' position' second →
        ∃ origin position, LinksAt fs files origin position first ∧
          (origin < origin' ∨ origin = origin' ∧ position < position') := by
  have hfirst := pairwise_addUnknown_first known (files.flatMap (linkedPaths fs))
  have hdistinct := pairwise_addUnknown known (files.flatMap (linkedPaths fs))
  apply (hfirst.and hdistinct).imp
  rintro first second ⟨⟨before, after, hpaths, hbefore⟩, hne⟩ origin' position' hlinked
  rw [← map_placed] at hpaths
  obtain ⟨placedBefore, rest, hplaced, rfl, hrest⟩ := List.map_eq_append_iff.mp hpaths
  obtain ⟨⟨place, first⟩, placedAfter, rfl, rfl, rfl⟩ := List.map_eq_cons_iff.mp hrest
  have hmem : ((origin', position'), second) ∈ placed fs files := mem_placed.mpr hlinked
  have hlinked' : LinksAt fs files place.1 place.2 first :=
    (@mem_placed fs files (place, first)).mp (by simp [hplaced])
  refine ⟨place.1, place.2, hlinked', ?_⟩
  have hsorted := pairwise_placed fs files
  rw [hplaced] at hmem hsorted
  rcases List.mem_append.mp hmem with hmem | hmem
  · exact absurd (Path.same_iff.mpr rfl) (hbefore second (List.mem_map_of_mem hmem))
  · rcases List.mem_cons.mp hmem with heq | hmem
    · cases heq
      exact absurd (Path.same_iff.mpr rfl) hne
    · exact (List.pairwise_cons.mp (List.pairwise_append.mp hsorted).2.1).1 _ hmem

end Project

end PropDoc
