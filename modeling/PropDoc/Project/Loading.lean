import PropDoc.Error
import PropDoc.FileSystem
import PropDoc.SourceFile.Declaration

/-!
# Projects

A project is the files of a run: those that were asked for, and those they link to. Modules and
types are looked up among its files.
-/

namespace PropDoc

/-! ### Projects

A project is the files of a run. Those that were asked for come first, in the order in which they
were found; the files they link to follow and serve only to look up types.
-/

/-- The files of a run. -/
structure Project where
  /-- The directory from which paths are shown. -/
  base : Path
  files : List SourceFile
  /-- How many of the files were asked for. -/
  targetCount : Nat

namespace Project

/-- The files that were asked for. -/
def targets (project : Project) : List SourceFile := project.files.take project.targetCount

/-- The number of files. -/
def size (project : Project) : Nat := project.files.length

/-- Whether there is no file. -/
def isEmpty (project : Project) : Bool := project.files.isEmpty

/-- Refuse a file whose extension no grammar reads. -/
def requireDialect (path : Path) : Except Error Dialect :=
  match Dialect.ofPath? path with
  | some dialect => .ok dialect
  | none => .error (.unsupportedFile path)

/-- The project of some files, all of them asked for. -/
def ofFiles (base : Path) (files : List SourceFile) : Except Error Project := do
  files.forM fun file ↦ discard (requireDialect file.path)
  return ⟨base, files, files.length⟩

/-- The first syntax issue of the project, as an error. -/
def checkSyntax (project : Project) : Except Error Unit :=
  match project.files.findSome? fun file ↦ file.issues.head?.map fun issue ↦ (file.path, issue) with
  | some (path, issue) => .error (.unreadable path issue)
  | none => .ok ()

/-- A file's path from the base directory, as it is shown. -/
def relativePath (project : Project) (file : SourceFile) : String :=
  String.ofList (((file.path.relativeTo? project.base).getD file.path).text.toList.map fun c ↦
    if c = '\\' then '/' else c)

end Project

/-! ### Resolving modules and types

A relative specifier may name several files, which are tried in a fixed order. A type name is
looked up in the file that uses it, then through the import that binds it and the modules that
pass it on, and only where no relative import binds it in the rest of the project.
-/

/-- The files that a specifier written in some file may name, in the order they are tried. -/
def moduleCandidates (origin : Path) (specifier : String) : List Path :=
  let base := ((origin.parent?.getD ⟨""⟩).join ⟨specifier⟩).normalize
  let stem :=
    if base.extension? = some "js" ∨ base.extension? = some "jsx" then base.dropExtension
    else base
  (if (Dialect.ofPath? base).isSome then [base] else []) ++
    [".ts", ".tsx", ".d.ts"].map stem.withSuffix ++
    ["index.ts", "index.tsx"].map fun index ↦ base.join ⟨index⟩

namespace Project

/-- The first file of the project that is at a path. -/
def fileAt? (project : Project) (path : Path) : Option SourceFile :=
  project.files.find? fun file ↦ file.path.same path

/-- The file of the project that a specifier written in some file names. -/
def resolve? (project : Project) (origin : SourceFile) (specifier : String) : Option SourceFile :=
  (moduleCandidates origin.path specifier).findSome? project.fileAt?

/-- A declared type and the file that declares it. -/
abbrev FoundType := SourceFile × TypeDeclaration

/-- A type that a file itself declares. -/
def ownType? (file : SourceFile) (name : String) : Option FoundType :=
  (file.typeNamed? name).map fun declaration ↦ (file, declaration)

/-- What a link calls a name that it passes on from a relative module. -/
def forwarded? (link : Link) (name : String) : Option String :=
  if link.kind = .passesOn ∧ link.isRelative then
    if link.wildcard then some name else link.there? name
  else none

/-- How many modules in a row may pass a type on. -/
def maxForwards : Nat := 8

/-- The type that a link leads to: declared by the module it names, or passed on by that module,
at most `forwards` times. -/
def linkedType? (project : Project) :
    (forwards : Nat) → (origin : SourceFile) → (link : Link) → (name : String) → Option FoundType
  | 0, origin, link, name =>
    (project.resolve? origin link.specifier).bind fun target ↦ ownType? target name
  | forwards + 1, origin, link, name =>
    (project.resolve? origin link.specifier).bind fun target ↦
      (ownType? target name).or <|
        target.links.findSome? fun next ↦
          (forwarded? next name).bind fun name ↦ project.linkedType? forwards target next name

/-- The first import of a file that binds a name, and what the name is called there. -/
def importOf? (file : SourceFile) (name : String) : Option (Link × String) :=
  (file.links.filter fun link ↦ decide (link.kind = .brings)).findSome? fun link ↦
    (link.there? name).map fun imported ↦ (link, imported)

/-- The first type of a name in the project, whichever file declares it. -/
def anyType? (project : Project) (name : String) : Option FoundType :=
  project.files.findSome? fun file ↦ ownType? file name

/-- The type that a name means in a file. -/
def findType? (project : Project) (origin : SourceFile) (name : String) : Option FoundType :=
  (ownType? origin name).or <|
    match importOf? origin name with
    | some (link, imported) =>
      if link.isRelative then project.linkedType? maxForwards origin link imported
      else project.anyType? name
    | none => project.anyType? name

end Project

/-! ### Loading projects

The files that were asked for are read first, in their order. Then come the files they link to by
relative specifiers, and the files those link to, round by round and each file once, until a round
finds nothing new. Every round but the last reads a file that was not known, so that a bound on the
number of paths a file can be linked by bounds the number of rounds.
-/

namespace Project

/-- Read and parse a file. -/
def readFile (parse : Parser) (fs : FileSystem) (path : Path) : Except Error SourceFile :=
  match fs.read path with
  | .error fault => .error (.inaccessible path fault)
  | .ok source => (requireDialect path).map fun dialect ↦ ⟨path, source, parse dialect source⟩

/-- The file that a specifier written in some file leads to. -/
def linkedPath? (fs : FileSystem) (origin : Path) (specifier : String) : Option Path :=
  (moduleCandidates origin specifier).find? fs.isFile

/-- The files that a file links to, in the order of its links. -/
def linkedPaths (fs : FileSystem) (file : SourceFile) : List Path :=
  (file.links.filter Link.isRelative).filterMap fun link ↦
    linkedPath? fs file.path link.specifier

/-- Add the paths that are not known yet, each once. -/
def addUnknown (known : List Path) : List Path → List Path
  | [] => []
  | path :: paths =>
    if known.any path.same then addUnknown known paths
    else path :: addUnknown (path :: known) paths

/-- The paths that some files link to and that are not those of known files. -/
def newPaths (fs : FileSystem) (known files : List SourceFile) : List Path :=
  addUnknown (known.map SourceFile.path) (files.flatMap (linkedPaths fs))

/-- Read the files that the newest files link to, then those that these link to, for a number of
rounds. -/
def readLinked (parse : Parser) (fs : FileSystem) :
    Nat → List SourceFile → List SourceFile → Except Error (List SourceFile)
  | 0, known, _ => .ok known
  | rounds + 1, known, newest => do
    match newPaths fs known newest with
    | [] => return known
    | paths =>
      let found ← paths.mapM (readFile parse fs)
      readLinked parse fs rounds (known ++ found) found

/-- A bound on the rounds. A resolved path starts at the root or not, and goes up once or not, so
that a file can be linked by at most four. -/
def roundLimit (fs : FileSystem) : Nat := 4 * fs.fileCount + 1

/-- Read files and all they link to. -/
def load (parse : Parser) (fs : FileSystem) (base : Path) (paths : List Path) :
    Except Error Project := do
  let files ← paths.mapM (readFile parse fs)
  return ⟨base, ← readLinked parse fs (roundLimit fs) files files, paths.length⟩

end Project

end PropDoc
