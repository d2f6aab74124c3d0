import PropDoc.Proofs.Command.Generate
import PropDoc.Proofs.FileSystem.Frame

/-!
# What the command leaves behind

The command that documents a path writes nothing before all of it is documented. So a run that is
refused or stopped leaves no trace, unless it is the writing that fails; and a run that ends well
leaves only the output file and the directories that were missing above it.
-/

namespace PropDoc.Command

variable {setting : Setting} {fs : FileSystem} {options : GenerateOptions} {outcome : Outcome}

/-- A command was refused, or it was stopped by something else than writing its output. -/
def Outcome.StoppedEarly (outcome : Outcome) : Prop :=
  outcome.ending = .exit Outcome.refused ∨
    ∃ failure, outcome.ending = .failed failure ∧ ∀ path fault, failure ≠ .unwritten path fault

-- How documenting a path comes to an end. Only with an output file is anything written.
private inductive Concludes (setting : Setting) (fs : FileSystem) (options : GenerateOptions)
    (outcome : Outcome) : Prop where
  | refused {lines : List String} : outcome = .refuse fs lines →
      Concludes setting fs options outcome
  | stopped {failure : Failure} : outcome = .stop fs failure → Concludes setting fs options outcome
  | printed :
      options.output = none → outcome.ending = .exit Outcome.success → outcome.fileSystem = fs →
      Concludes setting fs options outcome
  | written {output : Path} {content : Syntax.Source} :
      options.output = some output → outcome.ending = .exit Outcome.success →
      fs.writeWithParents (setting.directory.join output) content = (outcome.fileSystem, none) →
      Concludes setting fs options outcome
  | unwritten {output : Path} {fault : Fault} :
      outcome.ending = .failed (.unwritten output fault) → Concludes setting fs options outcome

private theorem concludes_deliver (format : Format) (config : Config) (configPath : Option Path)
    (result : Documented) :
    Concludes setting fs options (deliver setting fs options format config configPath result) := by
  cases houtput : options.output with
  | none =>
    apply Concludes.printed houtput <;> simp [deliver, writeDocs, houtput]
  | some output =>
    cases hwrite : fs.writeWithParents (setting.directory.join output)
        (.ofString (result.docs.render (options.pretty || config.pretty))) with
    | mk written fault? =>
      cases fault? with
      | none =>
        refine .written houtput ?_ (hwrite.trans ?_) <;> simp [deliver, writeDocs, houtput, hwrite]
      | some fault =>
        have hending : (deliver setting fs options format config configPath result).ending =
            .failed (.unwritten output fault) := by
          simp [deliver, writeDocs, Outcome.stop, houtput, hwrite]
        exact .unwritten hending

private theorem concludes_generate (setting : Setting) (fs : FileSystem)
    (options : GenerateOptions) :
    Concludes setting fs options (generate setting fs options) := by
  unfold generate
  split
  · exact .refused rfl
  · split
    · exact .refused rfl
    · split
      · exact .refused rfl
      · split
        · exact .stopped rfl
        · split
          · exact .stopped rfl
          · exact concludes_deliver ..

private theorem not_stoppedEarly_of_success (h : outcome.ending = .exit Outcome.success) :
    ¬ outcome.StoppedEarly := by
  simp [Outcome.StoppedEarly, h, Outcome.success, Outcome.refused]

private theorem Concludes.of_stoppedEarly (h : Concludes setting fs options outcome)
    (hstopped : outcome.StoppedEarly) :
    outcome.fileSystem = fs ∧ ∀ elapsed, outcome.printed elapsed = "" := by
  cases h with
  | refused houtcome =>
    subst houtcome
    exact ⟨rfl, fun _ ↦ rfl⟩
  | stopped houtcome =>
    subst houtcome
    exact ⟨rfl, fun _ ↦ rfl⟩
  | printed _ hending _ => exact absurd hstopped (not_stoppedEarly_of_success hending)
  | written _ hending _ => exact absurd hstopped (not_stoppedEarly_of_success hending)
  | unwritten hending => simp [Outcome.StoppedEarly, hending] at hstopped

private theorem Concludes.of_success (h : Concludes setting fs options outcome)
    (hsuccess : outcome.ending = .exit Outcome.success) :
    (options.output = none ∧ outcome.fileSystem = fs) ∨
      ∃ output content, options.output = some output ∧
        fs.writeWithParents (setting.directory.join output) content =
          (outcome.fileSystem, none) := by
  cases h with
  | refused houtcome =>
    subst houtcome
    cases hsuccess
  | stopped houtcome =>
    subst houtcome
    cases hsuccess
  | printed hnone _ hfs => exact .inl ⟨hnone, hfs⟩
  | @written output content houtput _ hwrite => exact .inr ⟨output, content, houtput, hwrite⟩
  | unwritten hending =>
    rw [hending] at hsuccess
    cases hsuccess

/-- A run that is refused, or that fails before its output is written, leaves the file system as it
was and prints nothing. A run that ends well changes nothing without an output file. With one, every
place that changes its state is that of the output file, or else that of a directory above it that
was missing. -/
theorem generate_touches_only_output (houtcome : generate setting fs options = outcome) :
    (outcome.StoppedEarly →
      outcome.fileSystem = fs ∧ ∀ elapsed, outcome.printed elapsed = "") ∧
    (outcome.ending = .exit Outcome.success →
      (options.output = none → outcome.fileSystem = fs) ∧
      ∀ output, options.output = some output →
        ∀ location, outcome.fileSystem.stateAt location ≠ fs.stateAt location →
          (outcome.fileSystem.locate (setting.directory.join output) = .ok location ∧
            ∃ content, outcome.fileSystem.stateAt location = .file content) ∨
          (∃ above ∈ (setting.directory.join output).ancestors,
              outcome.fileSystem.locate above = .ok location) ∧
            fs.stateAt location = .absent ∧
            outcome.fileSystem.stateAt location = .directory) := by
  have hconcludes : Concludes setting fs options outcome := by
    rw [← houtcome]
    exact concludes_generate setting fs options
  refine ⟨hconcludes.of_stoppedEarly, ?_⟩
  intro hsuccess
  rcases hconcludes.of_success hsuccess with ⟨hnone, hfs⟩ | ⟨output, content, houtput, hwrite⟩
  · refine ⟨fun _ ↦ hfs, ?_⟩
    intro output houtput
    rw [hnone] at houtput
    cases houtput
  · rw [houtput]
    refine ⟨by rintro ⟨⟩, ?_⟩
    rintro _ ⟨⟩ location hne
    exact (FileSystem.changed_of_writeWithParents hwrite hne).imp_left
      fun ⟨hlocate, hfile⟩ ↦ ⟨hlocate, content, hfile⟩

/-- The setting of a run in the directory with one component. -/
def inDirectory : Setting := { parse := oneComponent.parser, directory := ⟨"/p"⟩ }

/-- A format that does not exist leaves the file system as it is, and a run that writes its output
leaves the source as it is. -/
theorem generate_touches_only_output_toFile :
    (generate inDirectory oneComponent.fileSystem { toFile with format := "xml" }).fileSystem =
      oneComponent.fileSystem ∧
    (generate inDirectory oneComponent.fileSystem toFile).ending = .exit Outcome.success ∧
    (generate inDirectory oneComponent.fileSystem toFile).fileSystem.locate
      ⟨"/p/out/docs.json"⟩ = .ok ["p", "out", "docs.json"] ∧
    (generate inDirectory oneComponent.fileSystem toFile).fileSystem.stateAt ["p", "A.tsx"] =
      oneComponent.fileSystem.stateAt ["p", "A.tsx"] := by
  have hsuccess : (generate inDirectory oneComponent.fileSystem toFile).ending =
      .exit Outcome.success := by decide +kernel
  have hlocate : (generate inDirectory oneComponent.fileSystem toFile).fileSystem.locate
      ⟨"/p/out/docs.json"⟩ = .ok ["p", "out", "docs.json"] := by decide +kernel
  refine ⟨?_, hsuccess, hlocate, ?_⟩
  · exact ((generate_touches_only_output rfl).1 (.inl rfl)).1
  · by_contra hne
    rcases ((generate_touches_only_output rfl).2 hsuccess).2 ⟨"out/docs.json"⟩ rfl _ hne with
      ⟨hplace, -⟩ | ⟨-, habsent, -⟩
    · exact absurd (Except.ok.inj (hlocate.symm.trans hplace)) (by decide)
    · cases habsent

end PropDoc.Command
