import Mathlib.Data.List.Basic
import PropDoc.Documentation
import PropDoc.Proofs.List
import PropDoc.Proofs.SourceFile.Export
import PropDoc.Proofs.Table

/-!
# The outcome of a run

What documenting a project comes to, said without running it. A syntax issue anywhere decides the
run, then the first target that fails; otherwise the targets with one component are documented
under their paths, in order.
-/

namespace PropDoc

open PropDoc.Syntax

namespace SourceFile

/-- Every export of a file is called by a plain name. -/
def AllNamed (file : SourceFile) : Prop := ∀ item ∈ file.exports, file.exportName? item ≠ none

/-- An export is the first of a file that has no plain name. -/
def FirstUnnamed (file : SourceFile) (item : Export) : Prop :=
  ∃ before after, file.exports = before ++ item :: after ∧ file.exportName? item = none ∧
    ∀ other ∈ before, file.exportName? other ≠ none

/-- The exports whose plain name starts with an upper-case character. -/
def capitalised (file : SourceFile) : List Export :=
  file.exports.filter fun item ↦
    ((file.exportName? item).bind fun name ↦ name.toList.head?).any Text.isUppercase

end SourceFile

/-- Whether an error says what is wrong with a component: with its function, the type of its props
or a comment on it. -/
def Error.concernsComponent : Error → Bool
  | .missingFunction .. | .unresolvedType .. | .faultyComment .. => true
  | _ => false

namespace Project

/-- Why a file cannot be documented. The causes come in the order in which they are looked for:
each asks that those before it do not apply. -/
inductive Fails (project : Project) (options : DocOptions) (file : SourceFile) : Error → Prop where
  | unnamed {item : Export} :
      file.FirstUnnamed item →
      Fails project options file (.unnamedComponent file.path (file.span item.focus.node).line)
  | several {first second : Export} :
      file.AllNamed → first ∈ file.capitalised → second ∈ file.capitalised →
      first.focus.address ≠ second.focus.address →
      Fails project options file (.multipleComponents file.path)
  | function {item : Export} {error : Error} :
      file.AllNamed → file.capitalised = [item] → file.functionOf item = .error error →
      Fails project options file error
  | propsType {item : Export} {function : Node} {error : Error} :
      file.AllNamed → file.capitalised = [item] → file.functionOf item = .ok function →
      ParameterType.ofFunction project file options.strictTypes function = .error error →
      Fails project options file error
  | comment {item : Export} {function : Node} {table : PropTable} {error : Error} :
      file.AllNamed → file.capitalised = [item] → file.functionOf item = .ok function →
      project.propsOf options file function = .ok table →
      table.bind options.tags file item.anchor = .error error →
      Fails project options file error

/-- The first file of some with a syntax issue, and its first issue. -/
def FirstIssue (files : List SourceFile) (file : SourceFile) (issue : SyntaxIssue) : Prop :=
  ∃ before after others, files = before ++ file :: after ∧ file.issues = issue :: others ∧
    ∀ earlier ∈ before, earlier.issues = []

/-- The first target that cannot be documented, and why. -/
def FirstFailure (project : Project) (options : DocOptions) (error : Error) : Prop :=
  ∃ before target after, project.targets = before ++ target :: after ∧
    Fails project options target error ∧
    ∀ earlier ∈ before, ∀ other, ¬ Fails project options earlier other

/-- The targets that have one component. -/
def documented (project : Project) : List SourceFile :=
  project.targets.filter fun target ↦ decide (target.capitalised.length = 1)

/-- The last target with one component that is shown under a path, and its documentation. -/
def LastDocumented (project : Project) (options : DocOptions) (key : String)
    (doc : ComponentDoc) : Prop :=
  ∃ before target after, project.documented = before ++ target :: after ∧
    project.relativePath target = key ∧ project.documentFile options target = .ok (some doc) ∧
    ∀ later ∈ after, project.relativePath later ≠ key

/-! ### Components of a file -/

private theorem isComponent_of_named {file : SourceFile} {item : Export}
    (hitem : item ∈ file.exports) (hnamed : file.exportName? item ≠ none) :
    file.isComponent item =
      .ok (((file.exportName? item).bind fun name ↦ name.toList.head?).any Text.isUppercase) := by
  have hconsistent := SourceFile.consistent_of_mem_exports hitem
  unfold SourceFile.isComponent
  cases hname : file.exportName? item with
  | none => exact absurd hname hnamed
  | some name =>
    have hhas : item.hasName = true := by
      unfold SourceFile.exportName? at hname
      split at hname
      · assumption
      · cases hname
    cases hkind : item.kind with
    | function => cases hhead : name.toList.head? <;> simp [hhead]
    | binding => cases hhead : name.toList.head? <;> simp [hhead]
    | anonymousFunction =>
      rw [hconsistent hkind] at hhas
      cases hhas

private theorem isComponent_of_unnamed {file : SourceFile} {item : Export}
    (hnone : file.exportName? item = none) :
    file.isComponent item =
      .error (.unnamedComponent file.path (file.span item.focus.node).line) := by
  rw [SourceFile.isComponent, hnone]

private theorem components_of_allNamed {file : SourceFile} (h : file.AllNamed) :
    components file = .ok file.capitalised := by
  have hitems := fun item hitem ↦ isComponent_of_named hitem (h item hitem)
  rw [components, List.filterM, filterAuxM_eq_ok hitems]
  simp [SourceFile.capitalised, bind, Except.bind, pure, Except.pure]

private theorem components_of_firstUnnamed {file : SourceFile} {item : Export}
    (h : file.FirstUnnamed item) :
    components file = .error (.unnamedComponent file.path (file.span item.focus.node).line) := by
  obtain ⟨before, after, hsplit, hnone, hbefore⟩ := h
  have hitems : ∀ other ∈ before, file.isComponent other = .ok _ := fun other hother ↦
    isComponent_of_named (by rw [hsplit]; exact List.mem_append_left _ hother)
      (hbefore other hother)
  rw [components, List.filterM, hsplit, filterAuxM_eq_error hitems (isComponent_of_unnamed hnone)]
  rfl

private theorem exists_firstUnnamed {file : SourceFile} (h : ¬ file.AllNamed) :
    ∃ item, file.FirstUnnamed item := by
  cases hfound : file.exports.find? fun item ↦ (file.exportName? item).isNone with
  | none =>
    rw [List.find?_eq_none] at hfound
    exact absurd (fun item hitem ↦ by simpa using hfound item hitem) h
  | some item =>
    obtain ⟨hnone, before, after, hsplit, hbefore⟩ := List.find?_eq_some_iff_append.mp hfound
    refine ⟨item, before, after, hsplit, by simpa using hnone, ?_⟩
    intro other hother
    exact Option.isSome_iff_ne_none.mp (by simpa using hbefore other hother)

/-! ### One file -/

private theorem documentFile_of_firstUnnamed (project : Project) (options : DocOptions)
    {file : SourceFile} {item : Export} (h : file.FirstUnnamed item) :
    project.documentFile options file =
      .error (.unnamedComponent file.path (file.span item.focus.node).line) := by
  rw [documentFile, components_of_firstUnnamed h]
  rfl

private theorem documentFile_of_allNamed (project : Project) (options : DocOptions)
    {file : SourceFile} (h : file.AllNamed) :
    project.documentFile options file =
      match file.capitalised with
      | [] => .ok none
      | [component] => (project.documentComponent options file component).map some
      | _ => .error (.multipleComponents file.path) := by
  rw [documentFile, components_of_allNamed h]
  rcases file.capitalised with _ | ⟨component, _ | ⟨second, rest⟩⟩
  · rfl
  · cases hdoc : project.documentComponent options file component <;>
      simp [bind, Except.bind, Except.map, pure, Except.pure, hdoc]
  · rfl

private theorem propsOf_eq_error_iff (project : Project) (options : DocOptions)
    (file : SourceFile) (function : Node) (error : Error) :
    project.propsOf options file function = .error error ↔
      ParameterType.ofFunction project file options.strictTypes function = .error error := by
  unfold propsOf
  rcases ParameterType.ofFunction project file options.strictTypes function with
    error' | _ | type <;> simp [bind, Except.bind, pure, Except.pure]

private theorem documentComponent_eq_error_iff (project : Project) (options : DocOptions)
    (file : SourceFile) (item : Export) (error : Error) :
    project.documentComponent options file item = .error error ↔
      file.functionOf item = .error error ∨
      ∃ function, file.functionOf item = .ok function ∧
        (ParameterType.ofFunction project file options.strictTypes function = .error error ∨
          ∃ table, project.propsOf options file function = .ok table ∧
            table.bind options.tags file item.anchor = .error error) := by
  unfold documentComponent
  cases hfunction : file.functionOf item with
  | error error' => simp [bind, Except.bind]
  | ok function =>
    cases htable : project.propsOf options file function with
    | error error' =>
      have htype := (propsOf_eq_error_iff project options file function error').mp htable
      simp [bind, Except.bind, htable, htype]
    | ok table =>
      have htype : ParameterType.ofFunction project file options.strictTypes function ≠
          .error error := by
        intro htype
        rw [(propsOf_eq_error_iff project options file function error).mpr htype] at htable
        cases htable
      cases hbind : table.bind options.tags file item.anchor <;>
        simp [bind, Except.bind, pure, Except.pure, htable, htype, hbind]

/-- What stops the documentation of a component is wrong with the component itself. -/
theorem concernsComponent_of_documentComponent {project : Project} {options : DocOptions}
    {file : SourceFile} {item : Export} {error : Error}
    (h : project.documentComponent options file item = .error error) :
    error.concernsComponent = true := by
  rcases (documentComponent_eq_error_iff project options file item error).mp h with
    hfunction | ⟨function, -, htype | ⟨table, -, hbind⟩⟩
  · unfold SourceFile.functionOf at hfunction
    dsimp only at hfunction
    split at hfunction <;> cases hfunction
    rfl
  · unfold ParameterType.ofFunction ParameterType.lookUp at htype
    repeat' split at htype
    all_goals cases htype
    rfl
  · unfold PropTable.bind at hbind
    dsimp only at hbind
    repeat' split at hbind
    all_goals cases hbind
    all_goals rfl

private theorem fails_of_allNamed {project : Project} {options : DocOptions} {file : SourceFile}
    {error : Error} (hnamed : file.AllNamed)
    (h : project.documentFile options file = .error error) :
    Fails project options file error := by
  rw [documentFile_of_allNamed project options hnamed] at h
  have hplaces := file.pairwise_exports.filter fun item ↦
    ((file.exportName? item).bind fun name ↦ name.toList.head?).any Text.isUppercase
  change file.capitalised.Pairwise _ at hplaces
  rcases hcapitalised : file.capitalised with _ | ⟨item, _ | ⟨second, rest⟩⟩
  · rw [hcapitalised] at h
    cases h
  · rw [hcapitalised] at h
    have hcomponent : project.documentComponent options file item = .error error := by
      cases hdoc : project.documentComponent options file item with
      | error error' => simpa [Except.map, hdoc] using h
      | ok doc => simp [Except.map, hdoc] at h
    rcases (documentComponent_eq_error_iff project options file item error).mp hcomponent with
      hfunction | ⟨function, hfunction, htype | ⟨table, htable, hbind⟩⟩
    · exact .function hnamed hcapitalised hfunction
    · exact .propsType hnamed hcapitalised hfunction htype
    · exact .comment hnamed hcapitalised hfunction htable hbind
  · rw [hcapitalised] at h hplaces
    obtain rfl : Error.multipleComponents file.path = error := Except.error.inj h
    have hne := (List.pairwise_cons.mp hplaces).1 second List.mem_cons_self
    exact .several hnamed (by simp [hcapitalised]) (by simp [hcapitalised]) hne

private theorem documentFile_of_component_error {project : Project} {options : DocOptions}
    {file : SourceFile} {item : Export} {error : Error} (hnamed : file.AllNamed)
    (hsole : file.capitalised = [item])
    (h : project.documentComponent options file item = .error error) :
    project.documentFile options file = .error error := by
  rw [documentFile_of_allNamed project options hnamed, hsole]
  simp only [h]
  rfl

private theorem documentFile_of_fails {project : Project} {options : DocOptions}
    {file : SourceFile} {error : Error} (h : Fails project options file error) :
    project.documentFile options file = .error error := by
  cases h with
  | unnamed hfirst => exact documentFile_of_firstUnnamed project options hfirst
  | several hnamed hfirst hsecond hne =>
    rw [documentFile_of_allNamed project options hnamed]
    rcases hcapitalised : file.capitalised with _ | ⟨item, _ | ⟨other, rest⟩⟩
    · rw [hcapitalised] at hfirst
      cases hfirst
    · rw [hcapitalised, List.mem_singleton] at hfirst hsecond
      exact absurd (by rw [hfirst, hsecond]) hne
    · rfl
  | @function item _ hnamed hsole hfunction =>
    exact documentFile_of_component_error hnamed hsole
      ((documentComponent_eq_error_iff project options file item error).mpr (.inl hfunction))
  | @propsType item function _ hnamed hsole hfunction htype =>
    exact documentFile_of_component_error hnamed hsole
      ((documentComponent_eq_error_iff project options file item error).mpr
        (.inr ⟨function, hfunction, .inl htype⟩))
  | @comment item function table _ hnamed hsole hfunction htable hbind =>
    exact documentFile_of_component_error hnamed hsole
      ((documentComponent_eq_error_iff project options file item error).mpr
        (.inr ⟨function, hfunction, .inr ⟨table, htable, hbind⟩⟩))

/-- The causes of failure are exactly the errors of documenting a file. -/
theorem documentFile_eq_error_iff (project : Project) (options : DocOptions) (file : SourceFile)
    (error : Error) :
    project.documentFile options file = .error error ↔ Fails project options file error := by
  refine ⟨?_, documentFile_of_fails⟩
  intro h
  by_cases hnamed : file.AllNamed
  · exact fails_of_allNamed hnamed h
  · obtain ⟨item, hfirst⟩ := exists_firstUnnamed hnamed
    rw [documentFile_of_firstUnnamed project options hfirst] at h
    obtain rfl := Except.error.inj h
    exact .unnamed hfirst

/-- A file fails for its exports, or for its one component. -/
theorem Fails.form {project : Project} {options : DocOptions} {file : SourceFile} {error : Error}
    (h : Fails project options file error) :
    (∃ line, error = .unnamedComponent file.path line) ∨ error = .multipleComponents file.path ∨
      error.concernsComponent = true := by
  have hcomponent := fun item hitem ↦ concernsComponent_of_documentComponent
    ((documentComponent_eq_error_iff project options file item error).mpr hitem)
  cases h with
  | unnamed => exact .inl ⟨_, rfl⟩
  | several => exact .inr (.inl rfl)
  | @function item _ _ _ hfunction => exact .inr (.inr (hcomponent item (.inl hfunction)))
  | @propsType item function _ _ _ hfunction htype =>
    exact .inr (.inr (hcomponent item (.inr ⟨function, hfunction, .inl htype⟩)))
  | @comment item function table _ _ _ hfunction htable hbind =>
    exact .inr (.inr (hcomponent item (.inr ⟨function, hfunction, .inr ⟨table, htable, hbind⟩⟩)))

private theorem documentFile_of_not_fails {project : Project} {options : DocOptions}
    {file : SourceFile} (h : ∀ error, ¬ Fails project options file error) :
    file.capitalised.length = 1 ∧
        (∃ doc, project.documentFile options file = .ok (some doc)) ∨
      file.capitalised.length ≠ 1 ∧ project.documentFile options file = .ok none := by
  have hok : ∀ error, project.documentFile options file ≠ .error error :=
    fun error herror ↦ h error ((documentFile_eq_error_iff ..).mp herror)
  have hnamed : file.AllNamed := by
    apply Classical.byContradiction
    intro hnot
    obtain ⟨item, hfirst⟩ := exists_firstUnnamed hnot
    exact hok _ (documentFile_of_firstUnnamed project options hfirst)
  have hfile := documentFile_of_allNamed project options hnamed
  rcases hcapitalised : file.capitalised with _ | ⟨item, _ | ⟨second, rest⟩⟩
  · rw [hcapitalised] at hfile
    exact .inr ⟨by simp, hfile⟩
  · cases hdoc : project.documentComponent options file item with
    | error error => exact absurd (documentFile_of_component_error hnamed hcapitalised hdoc) (hok _)
    | ok doc =>
      rw [hcapitalised] at hfile
      exact .inl ⟨rfl, doc, by simpa only [hdoc, Except.map] using hfile⟩
  · rw [hcapitalised] at hfile
    exact absurd hfile (hok _)

/-! ### All targets in order -/

/-- The path that a target is shown under and its documentation, if it has any. -/
def keyed? (project : Project) (options : DocOptions) (target : SourceFile) :
    Option (String × ComponentDoc) :=
  match project.documentFile options target with
  | .ok (some doc) => some (project.relativePath target, doc)
  | _ => none

private theorem addFile_of_ok {project : Project} {options : DocOptions} {file : SourceFile}
    {result : Option ComponentDoc} (h : project.documentFile options file = .ok result)
    (docs : ProjectDoc) :
    project.addFile options docs file =
      .ok (match project.keyed? options file with
        | some entry => docs.insert entry.1 entry.2
        | none => docs) := by
  rw [addFile, keyed?, h]
  cases result <;> rfl

private theorem foldlM_addFile_of_ok {project : Project} {options : DocOptions}
    {targets : List SourceFile}
    (h : ∀ target ∈ targets, ∃ result, project.documentFile options target = .ok result)
    (docs : ProjectDoc) :
    targets.foldlM (project.addFile options) docs =
      .ok ((targets.filterMap (project.keyed? options)).foldl
        (fun table entry ↦ table.insert entry.1 entry.2) docs) := by
  induction targets generalizing docs with
  | nil => rfl
  | cons target targets ih =>
    obtain ⟨result, hresult⟩ := h target List.mem_cons_self
    have hrest := ih fun other hother ↦ h other (List.mem_cons_of_mem target hother)
    rw [List.foldlM_cons, addFile_of_ok hresult]
    change targets.foldlM (project.addFile options) _ = _
    rw [hrest]
    cases hentry : project.keyed? options target with
    | none => simp [hentry]
    | some entry => simp [hentry]

private theorem foldlM_addFile_of_error {project : Project} {options : DocOptions}
    {before after : List SourceFile} {target : SourceFile} {error : Error}
    (hbefore : ∀ earlier ∈ before, ∃ result, project.documentFile options earlier = .ok result)
    (htarget : project.documentFile options target = .error error) (docs : ProjectDoc) :
    (before ++ target :: after).foldlM (project.addFile options) docs = .error error := by
  have hstop : ∀ docs, project.addFile options docs target = .error error := by
    intro docs
    rw [addFile, htarget]
    rfl
  rw [List.foldlM_append, foldlM_addFile_of_ok hbefore]
  change (target :: after).foldlM (project.addFile options) _ = _
  rw [List.foldlM_cons, hstop]
  rfl

private theorem exists_ok_of_not_fails {project : Project} {options : DocOptions}
    {file : SourceFile} (h : ∀ error, ¬ Fails project options file error) :
    ∃ result, project.documentFile options file = .ok result := by
  rcases documentFile_of_not_fails h with ⟨-, doc, hdoc⟩ | ⟨-, hnone⟩
  · exact ⟨some doc, hdoc⟩
  · exact ⟨none, hnone⟩

private theorem filterMap_keyed?_targets {project : Project} {options : DocOptions}
    (h : ∀ target ∈ project.targets, ∀ error, ¬ Fails project options target error) :
    project.targets.filterMap (project.keyed? options) =
      project.documented.filterMap (project.keyed? options) := by
  rw [documented, List.filterMap_filter]
  apply List.filterMap_congr
  intro target htarget
  rcases documentFile_of_not_fails (h target htarget) with ⟨hone, -⟩ | ⟨hnot, hnone⟩
  · simp [hone]
  · simp [hnot, keyed?, hnone]

private theorem exists_keyed?_of_documented {project : Project} {options : DocOptions}
    (h : ∀ target ∈ project.targets, ∀ error, ¬ Fails project options target error)
    {target : SourceFile} (htarget : target ∈ project.documented) :
    ∃ doc, project.documentFile options target = .ok (some doc) ∧
      project.keyed? options target = some (project.relativePath target, doc) := by
  obtain ⟨hmem, hone⟩ := List.mem_filter.mp htarget
  rcases documentFile_of_not_fails (h target hmem) with ⟨-, doc, hdoc⟩ | ⟨hnot, -⟩
  · exact ⟨doc, hdoc, by rw [keyed?, hdoc]⟩
  · exact absurd (by simpa using hone) hnot

/-- A target is listed under its relative path, with its documentation. -/
theorem keyed?_eq_some_iff (project : Project) (options : DocOptions)
    (target : SourceFile) (key : String) (doc : ComponentDoc) :
    project.keyed? options target = some (key, doc) ↔
      project.relativePath target = key ∧ project.documentFile options target = .ok (some doc) := by
  unfold keyed?
  split
  · next other hother => simp [hother]
  · next hnone =>
    simp only [reduceCtorEq, false_iff, not_and]
    intro _ hdoc
    exact hnone doc hdoc

private theorem map_fst_filterMap_keyed? {project : Project} {options : DocOptions}
    {targets : List SourceFile}
    (h : ∀ target ∈ targets, ∃ doc,
      project.keyed? options target = some (project.relativePath target, doc)) :
    (targets.filterMap (project.keyed? options)).map Prod.fst =
      targets.map project.relativePath := by
  induction targets with
  | nil => rfl
  | cons target targets ih =>
    obtain ⟨doc, hdoc⟩ := h target List.mem_cons_self
    rw [List.filterMap_cons_some hdoc, List.map_cons, List.map_cons,
      ih fun other hother ↦ h other (List.mem_cons_of_mem target hother)]

private theorem lastEntry_iff_lastDocumented {project : Project} {options : DocOptions}
    (h : ∀ target ∈ project.documented, ∃ doc,
      project.keyed? options target = some (project.relativePath target, doc))
    (key : String) (doc : ComponentDoc) :
    (∃ before after, project.documented.filterMap (project.keyed? options) =
        before ++ (key, doc) :: after ∧ ∀ later ∈ after, later.1 ≠ key) ↔
      LastDocumented project options key doc := by
  constructor
  · rintro ⟨before, after, hentries, hafter⟩
    obtain ⟨front, back, hsplit, -, hback⟩ := List.filterMap_eq_append_iff.mp hentries
    obtain ⟨skipped, target, rest, rfl, -, htarget, rfl⟩ := List.filterMap_eq_cons_iff.mp hback
    obtain ⟨hkey, hdoc⟩ := (keyed?_eq_some_iff ..).mp htarget
    refine ⟨front ++ skipped, target, rest, by rw [hsplit, List.append_assoc], hkey, hdoc, ?_⟩
    intro later hlater
    obtain ⟨doc', hentry⟩ := h later (by rw [hsplit]; simp [hlater])
    exact hafter (project.relativePath later, doc')
      (List.mem_filterMap.mpr ⟨later, hlater, hentry⟩)
  · rintro ⟨before, target, after, hsplit, hkey, hdoc, hafter⟩
    have htarget := (keyed?_eq_some_iff project options target key doc).mpr ⟨hkey, hdoc⟩
    refine ⟨before.filterMap (project.keyed? options), after.filterMap (project.keyed? options),
      by rw [hsplit, List.filterMap_append, List.filterMap_cons_some htarget], ?_⟩
    intro entry hentry
    obtain ⟨later, hlater, hsome⟩ := List.mem_filterMap.mp hentry
    obtain ⟨hpath, -⟩ := (keyed?_eq_some_iff project options later entry.1 entry.2).mp hsome
    rw [← hpath]
    exact hafter later hlater

/-! ### The project -/

/-- The check fails with the first issue of the first file that has one. -/
theorem checkSyntax_of_firstIssue {project : Project} {file : SourceFile}
    {issue : SyntaxIssue} (h : FirstIssue project.files file issue) :
    project.checkSyntax = .error (.unreadable file.path issue) := by
  obtain ⟨before, after, others, hfiles, hissues, hbefore⟩ := h
  have hfirst : (project.files.findSome? fun file ↦ file.issues.head?.map fun issue ↦
      (file.path, issue)) = some (file.path, issue) := by
    rw [List.findSome?_eq_some_iff]
    refine ⟨before, file, after, hfiles, by simp [hissues], ?_⟩
    intro earlier hearlier
    simp [hbefore earlier hearlier]
  rw [checkSyntax, hfirst]

private theorem checkSyntax_of_clean {project : Project}
    (h : ∀ file ∈ project.files, file.issues = []) : project.checkSyntax = .ok () := by
  have hnone : (project.files.findSome? fun file ↦ file.issues.head?.map fun issue ↦
      (file.path, issue)) = none := by
    rw [List.findSome?_eq_none_iff]
    intro file hfile
    simp [h file hfile]
  rw [checkSyntax, hnone]

private theorem document_of_clean {project : Project} {options : DocOptions}
    (h : ∀ file ∈ project.files, file.issues = []) :
    project.document options =
      project.targets.foldlM (project.addFile options) Table.empty := by
  rw [document, checkSyntax_of_clean h]
  rfl

private theorem document_of_firstFailure {project : Project} {options : DocOptions}
    (hclean : ∀ file ∈ project.files, file.issues = []) {error : Error}
    (h : FirstFailure project options error) : project.document options = .error error := by
  obtain ⟨before, target, after, htargets, hfails, hbefore⟩ := h
  rw [document_of_clean hclean, htargets]
  exact foldlM_addFile_of_error (fun earlier hearlier ↦
    exists_ok_of_not_fails (hbefore earlier hearlier)) (documentFile_of_fails hfails) _

private theorem document_of_no_failure {project : Project} {options : DocOptions}
    (hclean : ∀ file ∈ project.files, file.issues = [])
    (h : ∀ target ∈ project.targets, ∀ error, ¬ Fails project options target error) :
    project.document options =
      .ok (Table.ofEntries (project.documented.filterMap (project.keyed? options))) := by
  rw [document_of_clean hclean, ← filterMap_keyed?_targets h]
  exact foldlM_addFile_of_ok (fun target htarget ↦ exists_ok_of_not_fails (h target htarget)) _

/-- The check passes exactly if no file has an issue. -/
theorem checkSyntax_eq_ok_iff (project : Project) :
    project.checkSyntax = .ok () ↔ ∀ file ∈ project.files, file.issues = [] := by
  refine ⟨?_, checkSyntax_of_clean⟩
  intro h
  unfold checkSyntax at h
  split at h
  · cases h
  · next hnone =>
    intro file hfile
    simpa using List.findSome?_eq_none_iff.mp hnone file hfile

private theorem exists_ok_of_foldlM_addFile {project : Project} {options : DocOptions}
    {targets : List SourceFile} {docs docs' : ProjectDoc}
    (h : targets.foldlM (project.addFile options) docs = .ok docs') :
    ∀ target ∈ targets, ∃ result, project.documentFile options target = .ok result := by
  induction targets generalizing docs with
  | nil => simp
  | cons target targets ih =>
    cases hresult : project.documentFile options target with
    | error error =>
      have hstop : ([] ++ target :: targets).foldlM (project.addFile options) docs = .error error :=
        foldlM_addFile_of_error (by simp) hresult docs
      rw [List.nil_append, h] at hstop
      cases hstop
    | ok result =>
      rw [List.foldlM_cons, addFile_of_ok hresult] at h
      intro other hother
      rcases List.mem_cons.mp hother with rfl | hrest
      · exact ⟨result, hresult⟩
      · exact ih h other hrest

/-- A run succeeds exactly if no file has a syntax issue and every target can be documented. What it
gives are the entries of the targets, written one after the other. -/
theorem document_eq_ok_iff (project : Project) (options : DocOptions) (docs : ProjectDoc) :
    project.document options = .ok docs ↔
      (∀ file ∈ project.files, file.issues = []) ∧
      (∀ target ∈ project.targets, ∃ result, project.documentFile options target = .ok result) ∧
      docs = Table.ofEntries (project.targets.filterMap (project.keyed? options)) := by
  constructor
  · intro h
    have hclean : ∀ file ∈ project.files, file.issues = [] := by
      apply (checkSyntax_eq_ok_iff project).mp
      cases hsyntax : project.checkSyntax with
      | error error =>
        rw [document, hsyntax] at h
        cases h
      | ok => rfl
    rw [document_of_clean hclean] at h
    have hok := exists_ok_of_foldlM_addFile h
    rw [foldlM_addFile_of_ok hok] at h
    exact ⟨hclean, hok, (Except.ok.inj h).symm⟩
  · rintro ⟨hclean, hok, rfl⟩
    rw [document_of_clean hclean]
    exact foldlM_addFile_of_ok hok _

private theorem exists_of_foldlM_addFile_eq_error {project : Project} {options : DocOptions}
    {targets : List SourceFile} {docs : ProjectDoc} {error : Error}
    (h : targets.foldlM (project.addFile options) docs = .error error) :
    ∃ target ∈ targets, project.documentFile options target = .error error := by
  induction targets generalizing docs with
  | nil => cases h
  | cons target targets ih =>
    cases hresult : project.documentFile options target with
    | error other =>
      have hstop : ([] ++ target :: targets).foldlM (project.addFile options) docs = .error other :=
        foldlM_addFile_of_error (by simp) hresult docs
      rw [List.nil_append, h] at hstop
      exact ⟨target, List.mem_cons_self, by rw [hresult, Except.error.inj hstop]⟩
    | ok result =>
      rw [List.foldlM_cons, addFile_of_ok hresult] at h
      obtain ⟨other, hother, herror⟩ := ih h
      exact ⟨other, List.mem_cons_of_mem target hother, herror⟩

/-- A run fails on a syntax issue or on a target that cannot be documented. -/
theorem exists_of_document_eq_error {project : Project} {options : DocOptions} {error : Error}
    (h : project.document options = .error error) :
    (∃ path issue, error = .unreadable path issue) ∨
      ∃ target ∈ project.targets, Fails project options target error := by
  cases hsyntax : project.checkSyntax with
  | error other =>
    rw [document, hsyntax] at h
    obtain rfl := Except.error.inj h
    unfold checkSyntax at hsyntax
    split at hsyntax
    · next path issue _ => exact .inl ⟨path, issue, (Except.error.inj hsyntax).symm⟩
    · cases hsyntax
  | ok =>
    rw [document, hsyntax] at h
    obtain ⟨target, htarget, herror⟩ := exists_of_foldlM_addFile_eq_error h
    exact .inr ⟨target, htarget, (documentFile_eq_error_iff project options target error).mp herror⟩

/-- What documenting a project comes to. The first syntax issue of any file, dependencies included,
ends the run; otherwise the first target that fails does. If none fails, the documentation lists the
targets with one component under their paths, in the order in which the paths come first, and holds
under each path what the last such target with that path gives. -/
theorem document_outcome (project : Project) (options : DocOptions) :
    (∀ file issue, FirstIssue project.files file issue →
      project.document options = .error (.unreadable file.path issue)) ∧
    ((∀ file ∈ project.files, file.issues = []) →
      (∀ error, FirstFailure project options error → project.document options = .error error) ∧
      ((∀ target ∈ project.targets, ∀ error, ¬ Fails project options target error) →
        ∃ docs, project.document options = .ok docs ∧
          docs.keys = (project.documented.map project.relativePath).eraseDups ∧
          ∀ key doc, docs.get? key = some doc ↔ LastDocumented project options key doc)) := by
  refine ⟨?_, fun hclean ↦ ⟨fun error ↦ document_of_firstFailure hclean, ?_⟩⟩
  · intro file issue hissue
    rw [document, checkSyntax_of_firstIssue hissue]
    rfl
  · intro hnone
    have hentry : ∀ target ∈ project.documented, ∃ doc,
        project.keyed? options target = some (project.relativePath target, doc) := by
      intro target htarget
      obtain ⟨doc, -, hdoc⟩ := exists_keyed?_of_documented hnone htarget
      exact ⟨doc, hdoc⟩
    refine ⟨_, document_of_no_failure hclean hnone, ?_, ?_⟩
    · rw [Table.keys_ofEntries, map_fst_filterMap_keyed? hentry]
    · intro key doc
      rw [Table.get?_ofEntries_eq_some_iff]
      exact lastEntry_iff_lastDocumented hentry key doc

end Project

end PropDoc
