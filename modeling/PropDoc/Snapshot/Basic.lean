import PropDoc.FileSystem
import PropDoc.Json
import PropDoc.SourceFile.Basic
import PropDoc.Syntax.Outline

/-!
# File systems with syntax trees

What a run works on, and how it is handed over.
-/

namespace PropDoc

/-! ### Snapshots

A snapshot is a file system together with the syntax trees of its sources. It stands in for a
parser: the tree of some bytes is the one that came with them. Bytes that came with none have a
tree without statements.
-/

/-- The syntax tree of some bytes in a dialect. -/
structure ParsedText where
  dialect : Dialect
  source : Syntax.Source
  tree : Syntax.Node

/-- A file system with the trees of its sources. -/
structure Snapshot where
  fileSystem : FileSystem := {}
  parsed : List ParsedText := []

namespace Snapshot

/-- The tree of a source without statements. -/
def emptyTree : Syntax.Node := .mk { kind := "program" } []

/-- The parser that gives each text the tree that came with it. -/
def parser (snapshot : Snapshot) : Parser := fun dialect source ↦
  let found := snapshot.parsed.find? fun text ↦
    decide (text.dialect = dialect) && decide (text.source.bytes.data = source.bytes.data)
  (found.map ParsedText.tree).getD emptyTree

/-- The snapshot with one more directory. -/
def addDirectory (snapshot : Snapshot) (path : Path) : Snapshot :=
  { snapshot with fileSystem := (snapshot.fileSystem.makeDirectories path).1 }

/-- The snapshot with one more file. Its tree is kept if its extension has a grammar. -/
def addFile (snapshot : Snapshot) (path : Path) (source : Syntax.Source) (tree : Syntax.Node) :
    Snapshot :=
  { fileSystem := (snapshot.fileSystem.writeWithParents path source).1
    parsed := match Dialect.ofPath? path with
      | some dialect => ⟨dialect, source, tree⟩ :: snapshot.parsed
      | none => snapshot.parsed }

end Snapshot

/-! ### Reading snapshots

A snapshot is handed over as a JSON object: the working directory and a list of files, each with
its path, its text and the outline of its syntax tree. A node of an outline is a list of its depth,
kind, field, flags and the two offsets it lies between.
-/

namespace Json

/-- The value of a member of an object. -/
def member? (key : String) : Json → Option Json
  | object members => members.lookup key
  | _ => none

/-- The text of a string. -/
def asText? : Json → Option String
  | string value => some value
  | _ => none

/-- The value of a number that is not negative. -/
def asNat? : Json → Option Nat
  | number value => value.toNat?
  | _ => none

/-- The items of an array. -/
def asItems? : Json → Option (List Json)
  | array items => some items
  | _ => none

/-- Whether a value is the word for true. -/
def isTrue : Json → Bool
  | bool value => value
  | _ => false

end Json

namespace Snapshot

/-- A node of an outline. The flags are, from the lowest bit: named, missing, error, and error
below. -/
def outlineNode? (value : Json) : Option (Nat × Syntax.Label) := do
  match ← value.asItems? with
  | [depth, kind, field, flags, start, stop] =>
    let flags ← flags.asNat?
    return (← depth.asNat?,
      { kind := ← kind.asText?
        field := ← field.asText?
        named := flags.testBit 0
        missing := flags.testBit 1
        error := flags.testBit 2
        hasError := flags.testBit 3
        start := ← start.asNat?
        stop := ← stop.asNat? })
  | _ => none

/-- The syntax tree that an outline stands for. -/
def tree? (value : Json) : Option Syntax.Node := do
  Syntax.Node.ofOutline? (← (← value.asItems?).mapM outlineNode?)

/-- Add the file or the directory that an object describes. -/
def addItem? (directory : Path) (snapshot : Snapshot) (value : Json) : Option Snapshot := do
  let path := directory.join ⟨← (← value.member? "path").asText?⟩
  if ((value.member? "dir").map Json.isTrue).getD false then return snapshot.addDirectory path
  let source ← (← value.member? "source").asText?
  let tree := ((value.member? "tree").bind tree?).getD emptyTree
  return snapshot.addFile path (.ofString source) tree

/-- The working directory and the snapshot that a text describes. -/
def parse? (text : String) : Option (Path × Snapshot) := do
  let value ← Json.parse? text
  let directory : Path := ⟨← (← value.member? "directory").asText?⟩
  let files ← (← value.member? "files").asItems?
  let bare := Snapshot.addDirectory {} directory
  return (directory, ← files.foldlM (addItem? directory) bare)

end Snapshot

end PropDoc
