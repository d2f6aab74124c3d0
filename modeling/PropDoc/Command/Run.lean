import PropDoc.Command.Basic
import PropDoc.Config.Reader
import PropDoc.Error
import PropDoc.FileSystem
import PropDoc.Project.Run
import PropDoc.Report
import PropDoc.Text.Hex

/-!
# Running commands

A command line that was understood is carried out on a file system: a first configuration is
written, or a path is documented. One that was not is answered with how the program is used.
-/

namespace PropDoc

/-! ### Outcomes

What a command leaves behind: the file system, what it printed, and how it ended. The time that a
run takes is not known here; an outcome only says whether it is to be printed.
-/

namespace Error

/-- The error in words, followed by what lies behind it. -/
def report (error : Error) : String :=
  match error with
  | inaccessible _ fault => error.message ++ ": " ++ fault.message
  | walkStopped _ fault => error.message ++ ": " ++ fault.message
  | _ => error.message

end Error

namespace Command

/-- What stopped a command on its way. -/
inductive Failure where
  /-- The working directory could not be resolved. -/
  | lostDirectory (fault : Fault)
  | stopped (error : Error)
  /-- The documentation could not be written. -/
  | unwritten (path : Path) (fault : Fault)
  deriving DecidableEq

/-- The failure in words. -/
def Failure.message : Failure → String
  | lostDirectory fault => fault.message
  | stopped error => error.report
  | unwritten path fault => "failed to write " ++ path.text ++ ": " ++ fault.message

/-- How a command ended. -/
inductive Ending where
  | exit (code : Nat)
  | failed (failure : Failure)
  deriving DecidableEq

/-- What a command leaves behind. -/
structure Outcome where
  fileSystem : FileSystem
  output : String := ""
  /-- What went to the stream for errors. -/
  errors : String := ""
  /-- Whether the output ends with the time that the run took. -/
  timed : Bool := false
  ending : Ending

namespace Outcome

/-- The code of a command that did what it was asked to. -/
def success : Nat := 0

/-- The code of a command that was refused. -/
def refused : Nat := 2

/-- A command that was refused with some lines. -/
def refuse (fs : FileSystem) (lines : List String) : Outcome :=
  { fileSystem := fs
    errors := String.join (lines.map fun line ↦ line ++ "\n")
    ending := .exit refused }

/-- A command that was stopped. -/
def stop (fs : FileSystem) (failure : Failure) : Outcome :=
  { fileSystem := fs, ending := .failed failure }

/-- The whole output, given the time that the run took. -/
def printed (outcome : Outcome) (elapsed : String) : String :=
  outcome.output ++ if outcome.timed then "Finished in " ++ elapsed ++ "\n" else ""

end Outcome

end Command

end PropDoc

namespace PropDoc.Config

/-! ### The first configuration

The text that a new configuration file starts with. It states the defaults, leaves out tests and
stories, and shows in a comment how a tag is added.
-/

/-- The lines of a new configuration file. -/
def templateLines : List String :=
  ["# react-tsdoc configuration",
    "",
    "# File extensions loaded into the compilation unit.",
    "extensions: [ts, tsx]",
    "",
    "# Glob patterns for paths to leave out.",
    "excluded_paths:",
    "  - \"**/*.test.tsx\"",
    "  - \"**/*.stories.tsx\"",
    "",
    "# Fail when a props type reference cannot be found in the loaded files.",
    "strict_type_references: true",
    "",
    "# Indent JSON output.",
    "pretty: false",
    "",
    "# Extra comment tags. syntax: block | modifier | inline",
    "# binding: text | named | prop (prop descriptions are merged into the table)",
    "tags: []",
    "#  - name: \"@slot\"",
    "#    syntax: block",
    "#    binding: prop"]

/-- The text of a new configuration file. -/
def template : String := String.join (templateLines.map fun line ↦ line ++ "\n")

end PropDoc.Config

namespace PropDoc.Command

/-! ### The command that writes a first configuration

What is already there is never replaced. Directories above the file are made.
-/

/-- What is printed after a configuration was written. -/
def nextSteps (output : Path) : String :=
  "Created " ++ output.text ++ "\n\nNext steps:\n  1. Edit " ++ output.text ++
    " to customize for your project\n  2. Run: react-tsdoc generate src --config " ++
    output.text ++ "\n"

/-- Write a first configuration, seen from a working directory. -/
def init (directory : Path) (fs : FileSystem) (options : InitOptions) : Outcome :=
  let path := directory.join options.output
  if fs.contains path then
    .refuse fs ["Error: file already exists: " ++ options.output.text,
      "Remove it or use --output to specify a different path"]
  else
    match fs.makeParents path with
    | (fs, some fault) => .refuse fs ["Error: failed to create directory: " ++ fault.message]
    | (fs, none) =>
      match fs.write path (Syntax.Source.ofString Config.template) with
      | .error fault => .refuse fs ["Error: failed to write config: " ++ fault.message]
      | .ok fs =>
        { fileSystem := fs, output := nextSteps options.output, ending := .exit Outcome.success }

/-! ### The command that documents a path

The form of the output, the configuration and the path are checked first, and each can be refused.
Then the path is documented; nothing is written or printed before all of it is. The documentation
goes to the output file, or is printed as JSON if there is none; a report is printed in any case if
it was asked for.
-/

/-- What a command works with besides the file system. -/
structure Setting where
  parse : Parser
  /-- The working directory, an absolute path. -/
  directory : Path
  /-- Whether the output is colored. -/
  colored : Bool := false

/-- The form of the output. -/
inductive Format where
  | json
  | report
  deriving DecidableEq

/-- The form that a word names. -/
def Format.ofWord? (word : String) : Option Format :=
  if word = "json" then some .json else if word = "pretty" then some .report else none

/-- What documenting a path gave. -/
structure Documented where
  docs : ProjectDoc
  /-- The number of files that were asked for. -/
  fileCount : Nat

/-- Document what a resolved path stands for, seen from a resolved base directory. -/
def documented (parse : Parser) (fs : FileSystem) (config : Config) (base path : Path) :
    Except Error Documented := do
  let project ← Project.ofPath parse fs config base path
  return ⟨← project.document config.docOptions, project.targets.length⟩

/-- What is printed when all has gone well. -/
def printedDocs (setting : Setting) (options : GenerateOptions) (format : Format)
    (configPath : Option Path) (indented : Bool) (result : Documented) : String :=
  match format, options.output with
  | .report, _ =>
    Report.render setting.colored
      ⟨options.path.text, configPath.map Path.text, result.docs, result.fileCount⟩
  | .json, none => result.docs.render indented ++ "\n"
  | .json, some _ => ""

/-- The line that says what was written where. -/
def writtenLine (options : GenerateOptions) (result : Documented) : String :=
  match options.output with
  | none => ""
  | some output =>
    "Wrote " ++ toString result.docs.size ++ " component(s) to " ++ output.text ++ "\n"

/-- Write the documentation to the output file, if there is one. -/
def writeDocs (setting : Setting) (fs : FileSystem) (options : GenerateOptions) (indented : Bool)
    (docs : ProjectDoc) : FileSystem × Option Failure :=
  match options.output with
  | none => (fs, none)
  | some output =>
    let written := fs.writeWithParents (setting.directory.join output)
      (Syntax.Source.ofString (docs.render indented))
    (written.1, written.2.map (Failure.unwritten output))

/-- Write and print what documenting a path gave. -/
def deliver (setting : Setting) (fs : FileSystem) (options : GenerateOptions) (format : Format)
    (config : Config) (configPath : Option Path) (result : Documented) : Outcome :=
  let indented := options.pretty || config.pretty
  let warning := if result.fileCount = 0 then "Warning: no files to document\n" else ""
  match writeDocs setting fs options indented result.docs with
  | (fs, some failure) => { Outcome.stop fs failure with errors := warning }
  | (fs, none) =>
    { fileSystem := fs
      output := printedDocs setting options format configPath indented result ++
        writtenLine options result
      errors := warning
      timed := options.output.isSome
      ending := .exit Outcome.success }

/-- Document a path. -/
def generate (setting : Setting) (fs : FileSystem) (options : GenerateOptions) : Outcome :=
  match Format.ofWord? options.format with
  | none =>
    .refuse fs ["Error: invalid format " ++ Text.quoted options.format ++
      ", must be 'json' or 'pretty'"]
  | some format =>
    match Config.load fs setting.directory options.config with
    | .error error => .refuse fs ["Error: " ++ error.message]
    | .ok (config, configPath) =>
      match fs.canonical (setting.directory.join options.path) with
      | .error fault =>
        .refuse fs ["Error: cannot access path " ++ Text.quoted options.path.text ++ ": " ++
          fault.message]
      | .ok path =>
        match fs.canonical setting.directory with
        | .error fault => .stop fs (.lostDirectory fault)
        | .ok base =>
          match documented setting.parse fs config base path with
          | .error error => .stop fs (.stopped error)
          | .ok result => deliver setting fs options format config configPath result

/-! ### Usage

What a reader is told when the arguments ask for help or cannot be carried out.
-/

/-- How the program is used. -/
def usage : String :=
  "Usage: react-tsdoc [-v | -q] <COMMAND>\n\nCommands:\n" ++
    "  generate <PATH> [-o FILE] [-c FILE] [-f json|pretty] [--pretty]  (alias gen)\n" ++
    "  init [-o FILE]\n" ++
    "  help [COMMAND]\n"

/-- Why the arguments are answered without a command. -/
def UsageError.message : UsageError → String
  | nothingGiven | helpAsked => usage
  | versionAsked => Report.programName ++ " " ++ Report.version ++ "\n"
  | noCommand => "Error: a command is required\n"
  | unknownCommand => "Error: unknown command\n"
  | unknownArgument => "Error: unexpected argument\n"
  | missingArgument => "Error: a path is required\n"
  | conflict => "Error: an argument cannot be used twice or with another\n"
  | invalidValue => "Error: a value is required\n"
  | unexpectedValue => "Error: unexpected value for a flag\n"

/-- Whether the answer is what was asked for. -/
def UsageError.isAnswer : UsageError → Bool
  | helpAsked | versionAsked => true
  | _ => false

/-! ### Running commands

A command line that was understood is carried out on a file system.
-/

/-- Carry out a command. -/
def run (command : Command) (setting : Setting) (fs : FileSystem) : Outcome :=
  match command.task with
  | .generate options => generate setting fs options
  | .init options => init setting.directory fs options

end PropDoc.Command
