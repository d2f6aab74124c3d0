import Mathlib.Data.List.Forall2
import PropDoc.Proofs.Documentation.Outcome
import PropDoc.Proofs.Path.Relative

/-!
# Keys of the documentation

A target is shown under its path from the base, with slashes for backslashes. Different paths below
the base are written differently from there, so two targets share a key exactly if what they are
written as differs in backslashes for slashes alone. A backslash may stand in the name of a file;
where this makes two targets share a key, the documentation of the earlier one is lost.
-/

namespace PropDoc

namespace Path

/-- Equal characters, where a backslash is as good as a slash. -/
def SlashAlike (c d : Char) : Prop := c = d ∨ c ∈ ['/', '\\'] ∧ d ∈ ['/', '\\']

/-- Paths that are not written alike, but for nothing except backslashes in the place of slashes. -/
structure SlashTwins (p q : Path) : Prop where
  ne : p ≠ q
  alike : List.Forall₂ SlashAlike p.text.toList q.text.toList

end Path

namespace Project

/-- Two files whose paths from the base differ in backslashes for slashes alone. -/
def Collide (project : Project) (file other : SourceFile) : Prop :=
  ∃ p q, file.path.relativeTo? project.base = some p ∧
    other.path.relativeTo? project.base = some q ∧ p.SlashTwins q

/-- A target with documentation. -/
def IsDocumented (project : Project) (options : DocOptions) (target : SourceFile) : Prop :=
  ∃ doc, project.documentFile options target = .ok (some doc)

private theorem slash_eq_iff (c d : Char) :
    (if c = '\\' then '/' else c) = (if d = '\\' then '/' else d) ↔ Path.SlashAlike c d := by
  unfold Path.SlashAlike
  split <;> split <;> grind

private theorem map_slash_eq_iff (cs ds : List Char) :
    (cs.map fun c ↦ if c = '\\' then '/' else c) = (ds.map fun c ↦ if c = '\\' then '/' else c) ↔
      List.Forall₂ Path.SlashAlike cs ds := by
  rw [← List.forall₂_eq_eq_eq, List.forall₂_map_left_iff, List.forall₂_map_right_iff]
  simp only [slash_eq_iff]

private theorem relativePath_eq_iff {project : Project} {file other : SourceFile}
    (hfile : project.base.components <+: file.path.components)
    (hother : project.base.components <+: other.path.components)
    (hdistinct : ¬ file.path.same other.path) :
    project.relativePath file = project.relativePath other ↔ project.Collide file other := by
  obtain ⟨p, hp⟩ := Path.exists_relativeTo? hfile
  obtain ⟨q, hq⟩ := Path.exists_relativeTo? hother
  -- Keys are alike only through their slashes: different paths are never written alike.
  have hne : p ≠ q := by
    rintro rfl
    exact hdistinct (Path.same_of_relativeTo?_eq hp hq)
  rw [relativePath, relativePath, hp, hq, Option.getD_some, Option.getD_some,
    String.ofList_inj, map_slash_eq_iff]
  constructor
  · intro halike
    exact ⟨p, q, hp, hq, hne, halike⟩
  · rintro ⟨p', q', hp', hq', htwins⟩
    obtain rfl : p = p' := Option.some.inj (hp.symm.trans hp')
    obtain rfl : q = q' := Option.some.inj (hq.symm.trans hq')
    exact htwins.alike

private theorem nodup_keys_iff (project : Project) (options : DocOptions)
    (targets : List SourceFile) :
    ((targets.filterMap (project.keyed? options)).map Prod.fst).Nodup ↔
      targets.Pairwise fun target other ↦
        project.IsDocumented options target → project.IsDocumented options other →
          project.relativePath target ≠ project.relativePath other := by
  rw [List.Nodup, List.pairwise_map, List.pairwise_filterMap]
  apply List.Pairwise.iff
  intro target other
  constructor
  · rintro h ⟨doc, hdoc⟩ ⟨doc', hdoc'⟩
    have hentry := (keyed?_eq_some_iff project options target _ doc).mpr ⟨rfl, hdoc⟩
    have hentry' := (keyed?_eq_some_iff project options other _ doc').mpr ⟨rfl, hdoc'⟩
    exact h (project.relativePath target, doc) hentry (project.relativePath other, doc') hentry'
  · rintro h ⟨key, doc⟩ hentry ⟨key', doc'⟩ hentry'
    obtain ⟨rfl, hdoc⟩ := (keyed?_eq_some_iff ..).mp hentry
    obtain ⟨rfl, hdoc'⟩ := (keyed?_eq_some_iff ..).mp hentry'
    exact h ⟨doc, hdoc⟩ ⟨doc', hdoc'⟩

/-- A run over different targets below the base gives one entry for each target with documentation,
and none in the place of another's, exactly if no two such targets collide. -/
theorem entries_document_eq_iff {project : Project} {options : DocOptions} {docs : ProjectDoc}
    (hbelow : ∀ target ∈ project.targets, project.base.components <+: target.path.components)
    (hdistinct : project.targets.Pairwise fun target other ↦ ¬ target.path.same other.path)
    (hdocs : project.document options = .ok docs) :
    docs.entries = project.targets.filterMap (project.keyed? options) ↔
      project.targets.Pairwise fun target other ↦
        project.IsDocumented options target → project.IsDocumented options other →
          ¬ project.Collide target other := by
  obtain ⟨-, -, rfl⟩ := (document_eq_ok_iff project options docs).mp hdocs
  have hnodup : (Table.ofEntries (project.targets.filterMap (project.keyed? options))).entries =
      project.targets.filterMap (project.keyed? options) ↔
        ((project.targets.filterMap (project.keyed? options)).map Prod.fst).Nodup :=
    ⟨fun h ↦ h ▸ Table.nodup _, Table.entries_ofEntries⟩
  rw [hnodup, nodup_keys_iff]
  constructor
  · intro h
    apply (hdistinct.and h).imp_of_mem
    rintro target other htarget hother ⟨hne, hkey⟩ hdoc hdoc' hcollide
    apply hkey hdoc hdoc'
    exact (relativePath_eq_iff (hbelow target htarget) (hbelow other hother) hne).mpr hcollide
  · intro h
    apply (hdistinct.and h).imp_of_mem
    rintro target other htarget hother ⟨hne, hcollide⟩ hdoc hdoc' hkey
    apply hcollide hdoc hdoc'
    exact (relativePath_eq_iff (hbelow target htarget) (hbelow other hother) hne).mp hkey

/-- A file with one component. -/
def componentAt (path : Path) : SourceFile :=
  { path
    source := .ofString "export function A() \x7b\x7d\n"
    root := .mk { kind := "program", stop := 23 } [
      .mk { kind := "export_statement", stop := 22 } [
        .mk { kind := "export", named := false, stop := 6 } [],
        .mk { kind := "function_declaration", field := "declaration", start := 7, stop := 22 } [
          .mk { kind := "function", named := false, start := 7, stop := 15 } [],
          .mk { kind := "identifier", field := "name", start := 16, stop := 17 } [],
          .mk { kind := "formal_parameters", field := "parameters", start := 17, stop := 19 } [],
          .mk { kind := "statement_block", field := "body", start := 20, stop := 22 } []]]] }

/-- A project of two such files. -/
def pairAt (first second : Path) : Project := ⟨⟨"/p"⟩, [componentAt first, componentAt second], 2⟩

/-- A file with a backslash in its name is listed under a key with a slash, beside a file whose key
is another one. -/
theorem entries_document_backslash :
    ∃ docs, (pairAt ⟨"/p/a\\b.tsx"⟩ ⟨"/p/a/c.tsx"⟩).document {} = .ok docs ∧
      docs.keys = ["a/b.tsx", "a/c.tsx"] ∧
      docs.entries = (pairAt ⟨"/p/a\\b.tsx"⟩ ⟨"/p/a/c.tsx"⟩).targets.filterMap
        ((pairAt ⟨"/p/a\\b.tsx"⟩ ⟨"/p/a/c.tsx"⟩).keyed? {}) := by
  have hkeys : ((pairAt ⟨"/p/a\\b.tsx"⟩ ⟨"/p/a/c.tsx"⟩).document {}).toOption.map Table.keys =
      some ["a/b.tsx", "a/c.tsx"] := by
    decide +kernel
  have hapart : ¬ (pairAt ⟨"/p/a\\b.tsx"⟩ ⟨"/p/a/c.tsx"⟩).Collide (componentAt ⟨"/p/a\\b.tsx"⟩)
      (componentAt ⟨"/p/a/c.tsx"⟩) := by
    rintro ⟨p, q, hp, hq, htwins⟩
    obtain rfl : Path.mk "a\\b.tsx" = p := Option.some.inj (Eq.trans (by decide) hp)
    obtain rfl : Path.mk "a/c.tsx" = q := Option.some.inj (Eq.trans (by decide) hq)
    exact absurd ((map_slash_eq_iff _ _).mpr htwins.alike) (by decide)
  cases hdocs : (pairAt ⟨"/p/a\\b.tsx"⟩ ⟨"/p/a/c.tsx"⟩).document {} with
  | error error =>
    rw [hdocs] at hkeys
    cases hkeys
  | ok docs =>
    rw [hdocs] at hkeys
    refine ⟨docs, rfl, Option.some.inj hkeys, ?_⟩
    apply (entries_document_eq_iff (by decide) (by decide) hdocs).mpr
    refine List.pairwise_pair.mpr fun _ _ ↦ hapart

/-- Two different targets below the base, both with documentation, and one entry for the two. -/
theorem document_slash_twins :
    (∀ target ∈ (pairAt ⟨"/p/a/b.tsx"⟩ ⟨"/p/a\\b.tsx"⟩).targets,
      (pairAt ⟨"/p/a/b.tsx"⟩ ⟨"/p/a\\b.tsx"⟩).base.components <+: target.path.components) ∧
    (pairAt ⟨"/p/a/b.tsx"⟩ ⟨"/p/a\\b.tsx"⟩).targets.Pairwise
      (fun target other ↦ ¬ target.path.same other.path) ∧
    ((pairAt ⟨"/p/a/b.tsx"⟩ ⟨"/p/a\\b.tsx"⟩).targets.filterMap
      ((pairAt ⟨"/p/a/b.tsx"⟩ ⟨"/p/a\\b.tsx"⟩).keyed? {})).map Prod.fst =
        ["a/b.tsx", "a/b.tsx"] ∧
    ((pairAt ⟨"/p/a/b.tsx"⟩ ⟨"/p/a\\b.tsx"⟩).document {}).toOption.map Table.keys =
      some ["a/b.tsx"] := by
  refine ⟨by decide, by decide, ?_, ?_⟩
  · decide +kernel
  · decide +kernel

end Project

end PropDoc
