import PropDoc.Path
import PropDoc.Syntax.Node
import PropDoc.Text.Basic

/-!
# Source files

A file of a project: where it is, its bytes, and the syntax tree that a parser made of them. Its
extension decides how it is read, and its tree where it could not be.
-/

namespace PropDoc

/-! ### Dialects

The file extension decides whether a source can be read and which grammar applies.
-/

/-- The grammar that a file is read with. -/
inductive Dialect where
  | ts
  | tsx
  deriving DecidableEq

namespace Dialect

/-- Every extension that can be read, with its dialect. -/
def byExtension : List (String × Dialect) :=
  [("ts", .ts), ("tsx", .tsx), ("mts", .ts), ("cts", .ts)]

/-- The dialect of an extension. -/
def ofExtension? (extension : String) : Option Dialect :=
  (byExtension.find? fun entry ↦ entry.1 == extension).map Prod.snd

/-- The dialect of the file that a path names. -/
def ofPath? (path : Path) : Option Dialect := path.extension?.bind ofExtension?

/-- The short name of a dialect. -/
def word : Dialect → String
  | ts => "ts"
  | tsx => "tsx"

end Dialect

/-! ### Source files

A file of a project: where it is, its bytes, and the syntax tree that a parser made of them.
-/

open PropDoc.Syntax

/-- A file with its syntax tree. -/
structure SourceFile where
  path : Path
  source : Source
  root : Node

/-- What turns the bytes of a file into a syntax tree. -/
abbrev Parser := Dialect → Source → Node

namespace SourceFile

/-- The root in its place. -/
def rootFocus (file : SourceFile) : Focus := ⟨file.root, []⟩

/-- The statements of the file, comments included. -/
def statements (file : SourceFile) : List Focus := file.rootFocus.namedChildren

/-- The text of a node of the file. -/
def text (file : SourceFile) (node : Node) : String := node.text file.source

/-- Where a node of the file lies. -/
def span (file : SourceFile) (node : Node) : Span := node.span file.source

end SourceFile

/-! ### Syntax issues

The topmost places where a file could not be read, in source order. What lies below such a place
is not reported again.
-/

/-- What is wrong at a place of a file. -/
inductive SyntaxProblem where
  /-- A token of some kind is missing. -/
  | expected (kind : String)
  /-- Some text fits nowhere. -/
  | unexpected (snippet : String)
  /-- The text ends too early. -/
  | unexpectedEnd
  deriving DecidableEq

/-- The problem in words. -/
def SyntaxProblem.message : SyntaxProblem → String
  | expected kind => "'" ++ kind ++ "' expected"
  | unexpected snippet => "Unexpected '" ++ snippet ++ "'"
  | unexpectedEnd => "Unexpected end of input"

/-- A problem and the line it is on. -/
structure SyntaxIssue where
  line : Nat
  problem : SyntaxProblem
  deriving DecidableEq

namespace SyntaxIssue

/-- The longest piece of source that an issue quotes. -/
def snippetLength : Nat := 24

/-- The first line of a text. A carriage return goes with the line break it precedes. -/
def firstLine (text : List Char) : List Char :=
  match text.span (· != '\n') with
  | (line, []) => line
  | (line, _) => if line.getLast? = some '\r' then line.dropLast else line

/-- The start of a text that an issue quotes. -/
def snippet (text : List Char) : List Char :=
  let line := firstLine (Text.trim text)
  if line.length > snippetLength then line.take snippetLength ++ ['.', '.', '.'] else line

/-- What is wrong where the parser could not go on. -/
def problemAt (text : String) : SyntaxProblem :=
  let quoted := snippet text.toList
  if quoted.isEmpty then .unexpectedEnd else .unexpected (String.ofList quoted)

mutual

/-- The topmost issues in and below a node. -/
def ofNode (source : Source) : Node → List SyntaxIssue
  | .mk label children =>
    if label.missing then [⟨source.row label.start + 1, .expected label.kind⟩]
    else if label.error then
      [⟨source.row label.start + 1, problemAt (source.slice label.start label.stop)⟩]
    else if label.hasError then ofNodes source children
    else []

/-- The topmost issues in and below some nodes. -/
def ofNodes (source : Source) : List Node → List SyntaxIssue
  | [] => []
  | node :: nodes => ofNode source node ++ ofNodes source nodes

end

end SyntaxIssue

/-- The syntax issues of a file. -/
def SourceFile.issues (file : SourceFile) : List SyntaxIssue :=
  if file.root.hasError then SyntaxIssue.ofNode file.source file.root else []

end PropDoc
