import PropDoc.Proofs.Path.Bearing
import PropDoc.Proofs.Project.Resolution

/-!
# Where specifiers point

A file that a specifier is resolved to lies where the specifier points, but for its suffix or its
name as an index. This holds as long as the specifier climbs above the start of the path it is
written in at most once, and goes down to a name from there. Every two further climbs cancel each
other, and a suffix that is written after no name becomes one, with two dots if they come before it.
-/

namespace PropDoc

open PropDoc.Path

namespace Path.Bearing

/-- The bearing with a suffix at its last name, in the place of the extension of a script. -/
def suffixed? (bearing : Bearing) (suffix : String) : Option Bearing :=
  bearing.names.getLast?.map fun last ↦
    { bearing with names := bearing.names.dropLast ++ [dropScript last ++ suffix] }

/-- The bearing of a name below another. -/
def child (bearing : Bearing) (name : String) : Bearing :=
  { bearing with names := bearing.names ++ [name] }

/-- What is found may be what is pointed at: it is that itself, or that with the suffix of a source,
or an index below it. -/
def Names (target found : Bearing) : Prop :=
  found = target ∨
    (∃ suffix ∈ [".ts", ".tsx", ".d.ts"], target.suffixed? suffix = some found) ∨
    ∃ index ∈ ["index.ts", "index.tsx"], found = target.child index

/-- What is named climbs as often. -/
theorem Names.climbs_eq {target found : Bearing} (h : target.Names found) :
    found.climbs = target.climbs := by
  rcases h with rfl | ⟨suffix, -, hfound⟩ | ⟨index, -, rfl⟩
  · rfl
  · obtain ⟨last, -, rfl⟩ := Option.map_eq_some_iff.mp hfound
    rfl
  · rfl

/-- Where no name is pointed at, only an index has a name. -/
theorem Names.names_mem {target found : Bearing} (h : target.Names found)
    (hnames : target.names = []) : found.names ∈ [[], ["index.ts"], ["index.tsx"]] := by
  rcases h with rfl | ⟨suffix, -, hfound⟩ | ⟨index, hindex, rfl⟩
  · simp [hnames]
  · simp [suffixed?, hnames] at hfound
  · simpa [child, hnames] using hindex

end Path.Bearing

/-- Where a specifier written in some file points. -/
def pointedAt (origin : Path) (specifier : String) : Bearing :=
  ((origin.parent?.getD ⟨""⟩).join ⟨specifier⟩).bearing

variable {origin path : Path} {specifier : String}

private theorem ofComponents_namedComponents (origin : Path) (specifier : String) :
    Bearing.ofComponents (namedComponents origin specifier) =
      (pointedAt origin specifier).cancelPairs :=
  Bearing.ofComponents_foldl_resolveStep fun _ ↦ isName_of_mem_components

private theorem suffixed?_ofComponents {components : List Component} (h : Resolved components)
    (hnames : (Bearing.ofComponents components).names ≠ []) (suffix : String) :
    (Bearing.ofComponents components).suffixed? suffix =
      some (Bearing.ofComponents (suffixed components suffix)) := by
  rcases h.eq_lead_or_concat with hlead | ⟨init, name, -, -, rfl⟩
  · have hall : ∀ lead ∈ leads, (Bearing.ofComponents lead).names = [] := by decide
    exact absurd (hall components hlead) hnames
  · rw [suffixed_concat, Bearing.ofComponents_concat, Bearing.ofComponents_concat]
    simp [Bearing.move, Bearing.suffixed?]

-- Where there is no name, a suffix makes one, of two dots that come before it or by itself.
private theorem names_suffixed {components : List Component} (h : Resolved components)
    (hnames : (Bearing.ofComponents components).names = []) :
    (Bearing.ofComponents (suffixed components ".d.ts")).names ∈ [[".d.ts"], ["...d.ts"]] := by
  rcases h.eq_lead_or_concat with hlead | ⟨init, name, -, -, rfl⟩
  · have hall : ∀ lead ∈ leads,
        (Bearing.ofComponents (suffixed lead ".d.ts")).names ∈ [[".d.ts"], ["...d.ts"]] := by
      decide
    exact hall components hlead
  · rw [Bearing.ofComponents_concat] at hnames
    simp [Bearing.move] at hnames

private theorem climbs_lt_of_mem (h : path ∈ moduleCandidates origin specifier) :
    path.bearing.climbs < 2 := by
  obtain ⟨init, last, hinit, hlast, hsegments⟩ := plain_of_mem_moduleCandidates h
  rw [← String.toList_ofList (l := last)] at hlast hsegments
  rw [bearing, components_of_segments hinit hlast hsegments, Bearing.ofComponents_concat]
  exact Bearing.climbs_lt_of_resolved hinit

private theorem names_of_mem (h : path ∈ moduleCandidates origin specifier)
    (hclimbs : (pointedAt origin specifier).climbs ≤ 1)
    (hnames : (pointedAt origin specifier).names ≠ []) :
    (pointedAt origin specifier).Names path.bearing := by
  have hbearing := ofComponents_namedComponents origin specifier
  rw [Bearing.cancelPairs_eq_self_iff.mpr hclimbs] at hbearing
  unfold bearing
  rw [← hbearing] at hnames ⊢
  cases isCandidate_of_mem h with
  | self _ hcomponents =>
    rw [hcomponents]
    exact .inl rfl
  | suffixed hsuffix hcomponents =>
    rw [hcomponents]
    refine .inr (.inl ⟨_, hsuffix, ?_⟩)
    exact suffixed?_ofComponents (resolved_namedComponents origin specifier) hnames _
  | index hindex hcomponents =>
    rw [hcomponents, Bearing.ofComponents_concat]
    exact .inr (.inr ⟨_, hindex, rfl⟩)

-- Where the specifier points far above the start or to no name, some candidate that can be read
-- lies elsewhere.
private theorem exists_not_names
    (h : ¬ ((pointedAt origin specifier).climbs ≤ 1 ∧ (pointedAt origin specifier).names ≠ [])) :
    ∃ path ∈ moduleCandidates origin specifier,
      path.Supported ∧ ¬ (pointedAt origin specifier).Names path.bearing := by
  obtain ⟨path, hpath, hcomponents⟩ :=
    @exists_suffixed_candidate origin specifier ".d.ts" (by decide)
  refine ⟨path, hpath, supported_of_declaration hcomponents, ?_⟩
  intro hfound
  by_cases hnames : (pointedAt origin specifier).names = []
  · have hname : path.bearing.names ∈ [[".d.ts"], ["...d.ts"]] := by
      rw [bearing, hcomponents]
      apply names_suffixed (resolved_namedComponents origin specifier)
      rwa [ofComponents_namedComponents, Bearing.names_cancelPairs]
    have hother : ∀ names ∈ [[".d.ts"], ["...d.ts"]],
        names ∉ [[], ["index.ts"], ["index.tsx"]] := by decide
    exact hother _ hname (hfound.names_mem hnames)
  · have hlt := climbs_lt_of_mem hpath
    rw [hfound.climbs_eq] at hlt
    exact h ⟨Nat.le_of_lt_succ hlt, hnames⟩

namespace Project

private theorem exists_candidate_of_resolve? {project : Project} {origin file : SourceFile}
    (h : project.resolve? origin specifier = some file) :
    ∃ path ∈ moduleCandidates origin.path specifier, file.path.bearing = path.bearing := by
  obtain ⟨path, hpath, hat⟩ := List.exists_of_findSome?_eq_some h
  exact ⟨path, hpath, by rw [bearing, bearing, same_iff.mp (fileAt?_eq_some hat).2]⟩

private theorem resolve?_only {origin file : SourceFile} (base : Path)
    (h : file.path ∈ moduleCandidates origin.path specifier) :
    (Project.mk base [file] 1).resolve? origin specifier = some file := by
  have hat : (Project.mk base [file] 1).fileAt? file.path = some file := by
    simp [fileAt?, same]
  cases hfound : (Project.mk base [file] 1).resolve? origin specifier with
  | none =>
    have hnone := List.findSome?_eq_none_iff.mp hfound file.path h
    rw [hat] at hnone
    cases hnone
  | some found =>
    obtain ⟨path, -, hfile⟩ := List.exists_of_findSome?_eq_some hfound
    rw [List.mem_singleton.mp (fileAt?_eq_some hfile).1]

/-- To normalize a path keeps where it points exactly if it climbs at most once. What a specifier
is resolved to lies where the specifier points, whatever the project, exactly if it climbs at most
once and points to a name. -/
theorem resolve?_names_iff (path : Path) (origin : SourceFile) (specifier : String) :
    (path.normalize.bearing = path.bearing ↔ path.bearing.climbs ≤ 1) ∧
    ((∀ (project : Project) (file : SourceFile),
      (∀ other ∈ project.files, other.path.Supported) →
      project.resolve? origin specifier = some file →
        (pointedAt origin.path specifier).Names file.path.bearing) ↔
      (pointedAt origin.path specifier).climbs ≤ 1 ∧
        (pointedAt origin.path specifier).names ≠ []) := by
  constructor
  · rw [bearing_normalize, Bearing.cancelPairs_eq_self_iff]
  · constructor
    · intro hall
      by_contra hpoints
      obtain ⟨path, hpath, hsupported, hnot⟩ := exists_not_names hpoints
      have hfound := hall ⟨⟨""⟩, [{ origin with path }], 1⟩ { origin with path }
        (by simpa using hsupported) (resolve?_only ⟨""⟩ hpath)
      exact hnot hfound
    · rintro ⟨hclimbs, hnames⟩ project file - hfile
      obtain ⟨path, hpath, hbearing⟩ := exists_candidate_of_resolve? hfile
      rw [hbearing]
      exact names_of_mem hpath hclimbs hnames

/-- An empty file. -/
def emptyAt (path : Path) : SourceFile := ⟨path, .ofString "", .mk { kind := "program" } []⟩

/-- A project of three files in one directory. -/
def besideEachOther : Project :=
  ⟨⟨""⟩, [emptyAt ⟨"A.tsx"⟩, emptyAt ⟨"types.ts"⟩, emptyAt ⟨"...ts"⟩], 3⟩

/-- A specifier that points two directories up, or to the directory above, is resolved to a file
beside the one it is written in. -/
theorem resolve?_beside :
    (∀ file ∈ besideEachOther.files, file.path.Supported) ∧
    (Path.mk "../../types").bearing = ⟨false, 2, ["types"]⟩ ∧
    (Path.mk "../../types").normalize.bearing = ⟨false, 0, ["types"]⟩ ∧
    (besideEachOther.resolve? (emptyAt ⟨"A.tsx"⟩) "../../types").map SourceFile.path =
      some ⟨"types.ts"⟩ ∧
    ¬ (pointedAt ⟨"A.tsx"⟩ "../../types").Names (Path.mk "types.ts").bearing ∧
    (besideEachOther.resolve? (emptyAt ⟨"A.tsx"⟩) "..").map SourceFile.path = some ⟨"...ts"⟩ ∧
    ¬ (pointedAt ⟨"A.tsx"⟩ "..").Names (Path.mk "...ts").bearing := by
  refine ⟨by decide, by decide, by decide, by decide, ?_, by decide, ?_⟩
  · intro hnames
    exact absurd hnames.climbs_eq (by decide)
  · intro hnames
    exact absurd hnames.climbs_eq (by decide)

end Project

end PropDoc
