import PropDoc.Command.Run
import PropDoc.Proofs.Documentation.Keys
import PropDoc.Proofs.FileSystem.Writing
import PropDoc.Snapshot.Basic

/-!
# The command and the library

The command that documents a path and the function that does so for a program go the same way and
give the same documentation. What the command prints and what it writes to a file is the same JSON,
but for the newline at the end of what is printed. It is stopped by the error of the function,
except that it answers in its own words if the path or the working directory cannot be resolved.
-/

namespace PropDoc.Command

open PropDoc

variable {setting : Setting} {fs : FileSystem} {options : GenerateOptions} {config : Config}
  {configPath : Option Path}

/-! ### What the library gives -/

section

variable {parse : Parser} {directory target base path : Path} {fault : Fault}

private theorem documentPath_of_inaccessible (htarget : fs.canonical target = .error fault) :
    documentPath parse fs config directory target = .error (.inaccessible target fault) := by
  rw [documentPath, FileSystem.resolve, htarget]
  rfl

private theorem documentPath_of_lostDirectory (htarget : fs.canonical target = .ok path)
    (hdirectory : fs.canonical directory = .error fault) :
    documentPath parse fs config directory target = .error (.inaccessible directory fault) := by
  rw [documentPath, FileSystem.resolve, htarget, FileSystem.resolve, hdirectory]
  rfl

private theorem documentPath_of_resolved (htarget : fs.canonical target = .ok path)
    (hdirectory : fs.canonical directory = .ok base) :
    documentPath parse fs config directory target =
      (documented parse fs config base path).map Documented.docs := by
  rw [documentPath, FileSystem.resolve, htarget, FileSystem.resolve, hdirectory, documented]
  dsimp only [bind, Except.bind]
  cases Project.ofPath parse fs config base path with
  | error error => rfl
  | ok project =>
    dsimp only
    cases project.document config.docOptions <;> rfl

end

/-! ### What the command does -/

private theorem generate_of_config (hformat : options.format = "json")
    (hconfig : Config.load fs setting.directory options.config = .ok (config, configPath)) :
    generate setting fs options =
      match fs.canonical (setting.directory.join options.path) with
      | .error fault =>
        .refuse fs ["Error: cannot access path " ++ Text.quoted options.path.text ++ ": " ++
          fault.message]
      | .ok path =>
        match fs.canonical setting.directory with
        | .error fault => .stop fs (.lostDirectory fault)
        | .ok base =>
          match documented setting.parse fs config base path with
          | .error error => .stop fs (.stopped error)
          | .ok result => deliver setting fs options .json config configPath result := by
  rewrite [generate, hformat, hconfig, show Format.ofWord? "json" = some .json from rfl]
  rfl

private theorem generate_of_documentPath_eq_ok (hformat : options.format = "json")
    (hconfig : Config.load fs setting.directory options.config = .ok (config, configPath))
    {docs : ProjectDoc} (hdocs : documentPath setting.parse fs config setting.directory
      (setting.directory.join options.path) = .ok docs) :
    ∃ result, result.docs = docs ∧
      generate setting fs options = deliver setting fs options .json config configPath result := by
  cases htarget : fs.canonical (setting.directory.join options.path) with
  | error fault =>
    rw [documentPath_of_inaccessible htarget] at hdocs
    cases hdocs
  | ok path =>
    cases hdirectory : fs.canonical setting.directory with
    | error fault =>
      rw [documentPath_of_lostDirectory htarget hdirectory] at hdocs
      cases hdocs
    | ok base =>
      rw [documentPath_of_resolved htarget hdirectory] at hdocs
      cases hdocumented : documented setting.parse fs config base path with
      | error error =>
        rw [hdocumented] at hdocs
        cases hdocs
      | ok result =>
        rw [hdocumented] at hdocs
        refine ⟨result, Except.ok.inj hdocs, ?_⟩
        rw [generate_of_config hformat hconfig, htarget, hdirectory]
        dsimp only
        rw [hdocumented]

private theorem ending_of_documentPath_eq_error (hformat : options.format = "json")
    (hconfig : Config.load fs setting.directory options.config = .ok (config, configPath))
    {error : Error} (herror : documentPath setting.parse fs config setting.directory
      (setting.directory.join options.path) = .error error) :
    (∃ fault, error = .inaccessible (setting.directory.join options.path) fault ∧
      fs.canonical (setting.directory.join options.path) = .error fault ∧
      (generate setting fs options).ending = .exit Outcome.refused) ∨
    (∃ fault, error = .inaccessible setting.directory fault ∧
      fs.canonical setting.directory = .error fault ∧
      (generate setting fs options).ending = .failed (.lostDirectory fault)) ∨
    (generate setting fs options).ending = .failed (.stopped error) := by
  rw [generate_of_config hformat hconfig]
  cases htarget : fs.canonical (setting.directory.join options.path) with
  | error fault =>
    rw [documentPath_of_inaccessible htarget] at herror
    exact .inl ⟨fault, (Except.error.inj herror).symm, rfl, rfl⟩
  | ok path =>
    cases hdirectory : fs.canonical setting.directory with
    | error fault =>
      rw [documentPath_of_lostDirectory htarget hdirectory] at herror
      exact .inr (.inl ⟨fault, (Except.error.inj herror).symm, rfl, rfl⟩)
    | ok base =>
      rw [documentPath_of_resolved htarget hdirectory] at herror
      dsimp only
      cases hdocumented : documented setting.parse fs config base path with
      | error other =>
        rw [hdocumented] at herror
        exact .inr (.inr (by rw [← Except.error.inj herror]; rfl))
      | ok result =>
        rw [hdocumented] at herror
        cases herror

/-! ### What is delivered -/

section

variable {result : Documented} {output : Path} {written : FileSystem} {fault : Fault}

private theorem deliver_printed (houtput : options.output = none) :
    (deliver setting fs options .json config configPath result).ending = .exit Outcome.success ∧
      ∀ elapsed, (deliver setting fs options .json config configPath result).printed elapsed =
        result.docs.render (options.pretty || config.pretty) ++ "\n" := by
  simp [deliver, writeDocs, printedDocs, writtenLine, Outcome.printed, houtput]

private theorem deliver_written (houtput : options.output = some output)
    (hwrite : fs.writeWithParents (setting.directory.join output)
      (.ofString (result.docs.render (options.pretty || config.pretty))) = (written, none)) :
    (deliver setting fs options .json config configPath result).ending = .exit Outcome.success ∧
      (deliver setting fs options .json config configPath result).fileSystem = written := by
  simp [deliver, writeDocs, houtput, hwrite]

private theorem deliver_unwritten (houtput : options.output = some output)
    (hwrite : fs.writeWithParents (setting.directory.join output)
      (.ofString (result.docs.render (options.pretty || config.pretty))) = (written, some fault)) :
    (deliver setting fs options .json config configPath result).ending =
      .failed (.unwritten output fault) := by
  simp [deliver, writeDocs, Outcome.stop, houtput, hwrite]

end

/-- With JSON as the form of the output, the command comes to what the library gives. If that is
documentation, the command prints it or writes it to the output file, from which it can be read, and
ends well unless the file cannot be written. If it is an error, the command is stopped by it; only
where the path or the working directory cannot be resolved has it an answer of its own. -/
theorem generate_json (hformat : options.format = "json")
    (hconfig : Config.load fs setting.directory options.config = .ok (config, configPath)) :
    (∀ docs, documentPath setting.parse fs config setting.directory
        (setting.directory.join options.path) = .ok docs →
      (options.output = none →
        (generate setting fs options).ending = .exit Outcome.success ∧
        ∀ elapsed, (generate setting fs options).printed elapsed =
          docs.render (options.pretty || config.pretty) ++ "\n") ∧
      ∀ output, options.output = some output → ∀ written,
        (fs.writeWithParents (setting.directory.join output)
            (.ofString (docs.render (options.pretty || config.pretty))) = (written, none) →
          (generate setting fs options).ending = .exit Outcome.success ∧
          (generate setting fs options).fileSystem.read (setting.directory.join output) =
            .ok (.ofString (docs.render (options.pretty || config.pretty)))) ∧
        ∀ fault, fs.writeWithParents (setting.directory.join output)
            (.ofString (docs.render (options.pretty || config.pretty))) = (written, some fault) →
          (generate setting fs options).ending = .failed (.unwritten output fault)) ∧
    (∀ error, documentPath setting.parse fs config setting.directory
        (setting.directory.join options.path) = .error error →
      (∃ fault, error = .inaccessible (setting.directory.join options.path) fault ∧
        fs.canonical (setting.directory.join options.path) = .error fault ∧
        (generate setting fs options).ending = .exit Outcome.refused) ∨
      (∃ fault, error = .inaccessible setting.directory fault ∧
        fs.canonical setting.directory = .error fault ∧
        (generate setting fs options).ending = .failed (.lostDirectory fault)) ∨
      (generate setting fs options).ending = .failed (.stopped error)) := by
  refine ⟨?_, fun error ↦ ending_of_documentPath_eq_error hformat hconfig⟩
  intro docs hdocs
  obtain ⟨result, rfl, hgenerate⟩ := generate_of_documentPath_eq_ok hformat hconfig hdocs
  rw [hgenerate]
  refine ⟨deliver_printed, ?_⟩
  intro output houtput written
  refine ⟨?_, fun fault ↦ deliver_unwritten houtput⟩
  intro hwrite
  obtain ⟨hending, hfiles⟩ :
      (deliver setting fs options .json config configPath result).ending = .exit Outcome.success ∧
        (deliver setting fs options .json config configPath result).fileSystem = written :=
    deliver_written houtput hwrite
  refine ⟨hending, ?_⟩
  rw [hfiles]
  exact FileSystem.read_of_writeWithParents hwrite

/-- A directory with one file, which exports a component. -/
def oneComponent : Snapshot :=
  { fileSystem := ⟨.directory [("p", .directory
      [("A.tsx", .file (Project.componentAt ⟨"/p/A.tsx"⟩).source)])]⟩
    parsed := [{
      dialect := .tsx
      source := (Project.componentAt ⟨"/p/A.tsx"⟩).source
      tree := (Project.componentAt ⟨"/p/A.tsx"⟩).root }] }

/-- The command line `generate A.tsx --output out/docs.json --pretty`. -/
def toFile : GenerateOptions :=
  { path := ⟨"A.tsx"⟩, output := some ⟨"out/docs.json"⟩, pretty := true }

/-- The documentation of one component is written to the file that was named, indented and without a
line break at its end. -/
theorem generate_json_toFile :
    ∃ docs, documentPath oneComponent.parser oneComponent.fileSystem {} ⟨"/p"⟩ ⟨"/p/A.tsx"⟩ =
        .ok docs ∧
      docs.keys = ["A.tsx"] ∧
      (generate ⟨oneComponent.parser, ⟨"/p"⟩, false⟩ oneComponent.fileSystem toFile).ending =
        .exit Outcome.success ∧
      (generate ⟨oneComponent.parser, ⟨"/p"⟩, false⟩ oneComponent.fileSystem
        toFile).fileSystem.read ⟨"/p/out/docs.json"⟩ = .ok (.ofString (docs.render true)) := by
  have hkeys : (documentPath oneComponent.parser oneComponent.fileSystem {} ⟨"/p"⟩
      ⟨"/p/A.tsx"⟩).toOption.map Table.keys = some ["A.tsx"] := by
    decide +kernel
  have hconfig : Config.load oneComponent.fileSystem ⟨"/p"⟩ none = .ok ({}, none) := rfl
  have hwrite : ∀ content, (oneComponent.fileSystem.writeWithParents ⟨"/p/out/docs.json"⟩
      content).2 = none := fun _ ↦ rfl
  cases hdocs : documentPath oneComponent.parser oneComponent.fileSystem {} ⟨"/p"⟩ ⟨"/p/A.tsx"⟩ with
  | error error =>
    rw [hdocs] at hkeys
    cases hkeys
  | ok docs =>
    rw [hdocs] at hkeys
    obtain ⟨-, hfile⟩ := (@generate_json ⟨oneComponent.parser, ⟨"/p"⟩, false⟩
      oneComponent.fileSystem toFile {} none rfl hconfig).1 docs hdocs
    obtain ⟨hending, hread⟩ := (hfile ⟨"out/docs.json"⟩ rfl _).1 (Prod.ext rfl (hwrite _))
    exact ⟨docs, rfl, Option.some.inj hkeys, hending, hread⟩

end PropDoc.Command
