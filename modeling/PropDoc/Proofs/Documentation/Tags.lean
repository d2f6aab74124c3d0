import PropDoc.Documentation
import PropDoc.Proofs.Comment.TagExtension

/-!
# Documentation under more tags

Tags that are added to a configuration do not change documentation that was already there. What
one stage gives under a tag set it gives under every larger one, and so does a sequence of stages;
only the stage that reads the comment looks at tags.
-/

namespace PropDoc

open Comment Syntax

/-- The second of two results holds whatever value the first holds. -/
def Persists {α : Type} (result result' : Except Error α) : Prop :=
  ∀ value, result = .ok value → result' = .ok value

/-! ### Sequences of stages -/

section

variable {α β : Type}

private theorem persists_refl (result : Except Error α) : Persists result result :=
  fun _ h ↦ h

private theorem Persists.bind {result result' : Except Error α} {next next' : α → Except Error β}
    (h : Persists result result') (hnext : ∀ value, Persists (next value) (next' value)) :
    Persists (result >>= next) (result' >>= next') := by
  intro value hvalue
  cases result with
  | error error => cases hvalue
  | ok first =>
    rw [h first rfl]
    exact hnext first value hvalue

private theorem persists_foldlM {step step' : β → α → Except Error β}
    (h : ∀ state item, Persists (step state item) (step' state item)) (items : List α)
    (state : β) : Persists (items.foldlM step state) (items.foldlM step' state) := by
  induction items generalizing state with
  | nil => exact persists_refl _
  | cons item items ih =>
    rw [List.foldlM_cons, List.foldlM_cons]
    exact (h state item).bind ih

end

/-! ### The stages -/

variable {tags more : TagSet}

private theorem persists_bindComment (h : more.Extends tags) (table : PropTable)
    (file : SourceFile) (anchor : Focus) :
    Persists (table.bind tags file anchor) (table.bind more file anchor) := by
  intro described hdescribed
  unfold PropTable.bind at hdescribed ⊢
  cases hcomment : (leadingComments file.source anchor).head? with
  | none =>
    rw [hcomment] at hdescribed
    exact hdescribed
  | some comment =>
    rw [hcomment] at hdescribed
    dsimp only at hdescribed ⊢
    generalize comment.node.startRow file.source + 1 = row at hdescribed ⊢
    cases hfirst : (read tags (file.text comment.node) row).diagnostics with
    | cons diagnostic others =>
      rw [hfirst] at hdescribed
      cases hdescribed
    | nil =>
      rw [read_of_extends h hfirst]
      exact hdescribed

namespace Project

private theorem persists_documentComponent (h : more.Extends tags) (strictTypes : Bool)
    (project : Project) (file : SourceFile) (component : Export) :
    Persists (project.documentComponent ⟨tags, strictTypes⟩ file component)
      (project.documentComponent ⟨more, strictTypes⟩ file component) := by
  apply (persists_refl (file.functionOf component)).bind
  intro function
  -- The props do not depend on the tags.
  apply (persists_refl (project.propsOf ⟨tags, strictTypes⟩ file function)).bind
  intro table
  apply (persists_bindComment h table file component.anchor).bind
  exact fun described ↦ persists_refl _

private theorem persists_documentFile (h : more.Extends tags) (strictTypes : Bool)
    (project : Project) (file : SourceFile) :
    Persists (project.documentFile ⟨tags, strictTypes⟩ file)
      (project.documentFile ⟨more, strictTypes⟩ file) := by
  apply (persists_refl (components file)).bind
  intro found
  rcases found with _ | ⟨component, _ | ⟨second, rest⟩⟩
  · exact persists_refl _
  · apply (persists_documentComponent h strictTypes project file component).bind
    exact fun doc ↦ persists_refl _
  · exact persists_refl _

private theorem persists_document (h : more.Extends tags) (strictTypes : Bool)
    (project : Project) :
    Persists (project.document ⟨tags, strictTypes⟩) (project.document ⟨more, strictTypes⟩) := by
  apply (persists_refl project.checkSyntax).bind
  intro
  apply persists_foldlM
  intro docs file
  apply (persists_documentFile h strictTypes project file).bind
  exact fun doc ↦ persists_refl _

/-- Adding tags changes nothing that was fine. Under a tag set that defines all that another does,
a comment with nothing wrong reads the same, with nothing wrong again, and documentation stays as
it is. Tags whose names the set does not define are added so. -/
theorem document_under_more_tags (tags : TagSet) :
    (∀ more : TagSet, more.Extends tags →
      (∀ text firstLine, (read tags text firstLine).diagnostics = [] →
        read more text firstLine = read tags text firstLine) ∧
      (∀ (project : Project) strictTypes docs,
        project.document { tags, strictTypes } = .ok docs →
        project.document { tags := more, strictTypes } = .ok docs)) ∧
    (∀ extra : List Tag, (∀ tag ∈ extra, tags.get? tag.name = none) →
      (tags.insertAll extra).Extends tags) := by
  refine ⟨?_, fun extra ↦ TagSet.extends_insertAll⟩
  intro more hmore
  refine ⟨fun text firstLine ↦ read_of_extends hmore, ?_⟩
  intro project strictTypes docs hdocs
  exact persists_document hmore strictTypes project docs hdocs

/-- A project of one file: a component after a comment that uses standard tags only. -/
def commented : Project :=
  let comment := "/** A \x7b@link B|button\x7d. @internal @remarks No props. */"
  let n := comment.length
  { base := ⟨""⟩
    files := [
      { path := ⟨"A.tsx"⟩
        source := .ofString (comment ++ "\nexport function A() \x7b\x7d\n")
        root := .mk { kind := "program", stop := n + 24 } [
          .mk { kind := "comment", stop := n } [],
          .mk { kind := "export_statement", start := n + 1, stop := n + 23 } [
            .mk { kind := "export", named := false, start := n + 1, stop := n + 7 } [],
            .mk { kind := "function_declaration", field := "declaration", start := n + 8,
                  stop := n + 23 } [
              .mk { kind := "function", named := false, start := n + 8, stop := n + 16 } [],
              .mk { kind := "identifier", field := "name", start := n + 17, stop := n + 18 } [],
              .mk { kind := "formal_parameters", field := "parameters", start := n + 18,
                    stop := n + 20 } [],
              .mk { kind := "statement_block", field := "body", start := n + 21,
                    stop := n + 23 } []]]] }]
    targetCount := 1 }

/-- A component is documented alike when a tag is defined that its comment does not have. -/
theorem document_under_more_tags_slot :
    (∀ tag ∈ [Tag.mk "@slot" .block .prop], TagSet.standard.get? tag.name = none) ∧
      ∃ docs, commented.document {} = .ok docs ∧
        docs.entries.map (fun entry ↦ (entry.1, entry.2.description)) = [("A.tsx", "A button.")] ∧
        commented.document { tags := .withCustom [⟨"@slot", .block, .prop⟩] } = .ok docs := by
  have hnew : ∀ tag ∈ [Tag.mk "@slot" .block .prop], TagSet.standard.get? tag.name = none := by
    decide +kernel
  have hseen : (commented.document {}).toOption.map (fun docs ↦
      docs.entries.map fun entry ↦ (entry.1, entry.2.description)) =
        some [("A.tsx", "A button.")] := by
    decide +kernel
  cases hdocs : commented.document {} with
  | error error =>
    rw [hdocs] at hseen
    cases hseen
  | ok docs =>
    rw [hdocs] at hseen
    have hmore := (document_under_more_tags .standard).2 _ hnew
    exact ⟨hnew, docs, rfl, Option.some.inj hseen,
      ((document_under_more_tags .standard).1 _ hmore).2 commented true docs hdocs⟩

end Project

end PropDoc
