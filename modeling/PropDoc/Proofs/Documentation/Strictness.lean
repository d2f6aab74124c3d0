import PropDoc.Documentation

/-!
# Strict and lenient runs

A run is strict or lenient about props types that nothing declares. Strictness only turns output
into an error: where the two runs differ, the strict one has ended with an unresolved type. The
relation between the two is carried from the lookup of a type through every stage to the project.
-/

namespace PropDoc

open PropDoc.Syntax

/-- An error says that nothing declares a props type. -/
def Error.IsUnresolved (error : Error) : Prop := ∃ path name, error = .unresolvedType path name

/-- A result is not the error that a type is unresolved. -/
def Resolves {α : Type} (result : Except Error α) : Prop :=
  ∀ error, result = .error error → ¬ error.IsUnresolved

/-- The second of two results is what the first becomes without strictness: the same, unless the
first is that a type is unresolved, which the second never is. -/
structure Softens {α : Type} (strict lenient : Except Error α) : Prop where
  same : Resolves strict → lenient = strict
  resolves : Resolves lenient

/-! ### Sequences of stages -/

section

variable {α β : Type}

private theorem resolves_ok (value : α) : Resolves (.ok value : Except Error α) := by
  intro error h
  cases h

private theorem resolves_error {error : Error} (h : ¬ error.IsUnresolved) :
    Resolves (.error error : Except Error α) := by
  intro other hother
  obtain rfl := Except.error.inj hother
  exact h

private theorem Resolves.bind {first : Except Error α} {next : α → Except Error β}
    (hfirst : Resolves first) (hnext : ∀ value, Resolves (next value)) :
    Resolves (first >>= next) := by
  cases first with
  | error error => exact resolves_error (hfirst error rfl)
  | ok value => exact hnext value

private theorem Resolves.softens {result : Except Error α} (h : Resolves result) :
    Softens result result :=
  ⟨fun _ ↦ rfl, h⟩

private theorem Softens.bind {strict lenient : Except Error α}
    {nextStrict nextLenient : α → Except Error β} (hfirst : Softens strict lenient)
    (hnext : ∀ value, Softens (nextStrict value) (nextLenient value)) :
    Softens (strict >>= nextStrict) (lenient >>= nextLenient) := by
  constructor
  · intro hresolves
    cases strict with
    | error error =>
      have hsame : lenient = .error error := by
        apply hfirst.same
        exact resolves_error (hresolves error rfl)
      rw [hsame]
      rfl
    | ok value =>
      have hsame : lenient = .ok value := hfirst.same (resolves_ok value)
      rw [hsame]
      exact (hnext value).same hresolves
  · exact hfirst.resolves.bind fun value ↦ (hnext value).resolves

private theorem softens_foldlM {strict lenient : β → α → Except Error β}
    (hstep : ∀ state item, Softens (strict state item) (lenient state item))
    (items : List α) (state : β) :
    Softens (items.foldlM strict state) (items.foldlM lenient state) := by
  induction items generalizing state with
  | nil => exact (resolves_ok state).softens
  | cons item items ih =>
    rw [List.foldlM_cons, List.foldlM_cons]
    exact (hstep state item).bind ih

end

/-! ### Stages that look up no type -/

private theorem resolves_checkSyntax (project : Project) : Resolves project.checkSyntax := by
  unfold Project.checkSyntax
  split
  · apply resolves_error
    rintro ⟨path, name, h⟩
    cases h
  · exact resolves_ok ()

private theorem resolves_isComponent (file : SourceFile) (item : Export) :
    Resolves (file.isComponent item) := by
  unfold SourceFile.isComponent
  split
  · apply resolves_error
    rintro ⟨path, name, h⟩
    cases h
  · split <;> exact resolves_ok _

private theorem resolves_filterAuxM {α : Type} {p : α → Except Error Bool}
    (hp : ∀ item, Resolves (p item)) (items kept : List α) :
    Resolves (List.filterAuxM p items kept) := by
  induction items generalizing kept with
  | nil => exact resolves_ok kept
  | cons item items ih => exact (hp item).bind fun _ ↦ ih _

private theorem resolves_components (file : SourceFile) : Resolves (Project.components file) :=
  (resolves_filterAuxM (resolves_isComponent file) file.exports []).bind fun _ ↦ resolves_ok _

private theorem resolves_functionOf (file : SourceFile) (item : Export) :
    Resolves (file.functionOf item) := by
  unfold SourceFile.functionOf
  dsimp only
  split
  · exact resolves_ok _
  · apply resolves_error
    rintro ⟨path, name, h⟩
    cases h

private theorem resolves_bindComment (table : PropTable) (tags : Comment.TagSet)
    (file : SourceFile) (anchor : Focus) : Resolves (table.bind tags file anchor) := by
  unfold PropTable.bind
  split
  · exact resolves_ok _
  · dsimp only
    split
    · apply resolves_error
      rintro ⟨path, name, h⟩
      cases h
    · exact resolves_ok _

/-! ### Stages from the lookup of a type on -/

namespace ParameterType

private theorem softens_lookUp (project : Project) (file : SourceFile) (name : String) :
    Softens (lookUp project file true name) (lookUp project file false name) := by
  unfold lookUp
  split
  · exact (resolves_ok _).softens
  · constructor
    · intro hresolves
      exact absurd ⟨file.path, name, rfl⟩ (hresolves _ rfl)
    · exact resolves_ok none

private theorem softens_ofFunction (project : Project) (file : SourceFile) (function : Node) :
    Softens (ofFunction project file true function) (ofFunction project file false function) := by
  unfold ofFunction
  split
  · exact (resolves_ok none).softens
  · split
    · exact (resolves_ok _).softens
    · split
      · exact softens_lookUp project file _
      · exact (resolves_ok none).softens

end ParameterType

namespace Project

private theorem softens_documentComponent (project : Project) (tags : Comment.TagSet)
    (file : SourceFile) (component : Export) :
    Softens (project.documentComponent ⟨tags, true⟩ file component)
      (project.documentComponent ⟨tags, false⟩ file component) := by
  apply (resolves_functionOf file component).softens.bind
  intro function
  have htable : Softens (project.propsOf ⟨tags, true⟩ file function)
      (project.propsOf ⟨tags, false⟩ file function) := by
    apply (ParameterType.softens_ofFunction project file function).bind
    intro type
    cases type <;> exact (resolves_ok _).softens
  apply htable.bind
  intro table
  apply (resolves_bindComment table tags file component.anchor).softens.bind
  exact fun described ↦ (resolves_ok _).softens

private theorem softens_documentFile (project : Project) (tags : Comment.TagSet)
    (file : SourceFile) :
    Softens (project.documentFile ⟨tags, true⟩ file)
      (project.documentFile ⟨tags, false⟩ file) := by
  apply (resolves_components file).softens.bind
  intro components
  rcases components with _ | ⟨component, _ | ⟨second, rest⟩⟩
  · exact (resolves_ok none).softens
  · apply (softens_documentComponent project tags file component).bind
    exact fun doc ↦ (resolves_ok (some doc)).softens
  · apply Resolves.softens
    apply resolves_error
    rintro ⟨path, name, h⟩
    cases h

private theorem softens_addFile (project : Project) (tags : Comment.TagSet) (docs : ProjectDoc)
    (file : SourceFile) :
    Softens (project.addFile ⟨tags, true⟩ docs file)
      (project.addFile ⟨tags, false⟩ docs file) := by
  apply (softens_documentFile project tags file).bind
  intro doc
  cases doc <;> exact (resolves_ok _).softens

private theorem softens_document (project : Project) (tags : Comment.TagSet) :
    Softens (project.document ⟨tags, true⟩) (project.document ⟨tags, false⟩) := by
  apply (resolves_checkSyntax project).softens.bind
  intro
  exact softens_foldlM (softens_addFile project tags) project.targets Table.empty

/-- Strictness about props types only turns output into an error. What a strict run gives, a
lenient one gives too, and so it is with every error of a strict run but that of an unresolved
type, with which a lenient run never ends. -/
theorem document_strict_lenient (project : Project) (tags : Comment.TagSet) :
    (∀ docs, project.document { tags, strictTypes := true } = .ok docs →
      project.document { tags, strictTypes := false } = .ok docs) ∧
    (∀ error, project.document { tags, strictTypes := true } = .error error →
      ¬ error.IsUnresolved → project.document { tags, strictTypes := false } = .error error) ∧
    (∀ error, project.document { tags, strictTypes := false } = .error error →
      ¬ error.IsUnresolved) := by
  have hsoftens := softens_document project tags
  refine ⟨?_, ?_, hsoftens.resolves⟩
  · intro docs hstrict
    rw [hsoftens.same (by rw [hstrict]; exact resolves_ok docs), hstrict]
  · intro error hstrict herror
    rw [hsoftens.same (by rw [hstrict]; exact resolves_error herror), hstrict]

end Project

end PropDoc
