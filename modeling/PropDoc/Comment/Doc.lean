import PropDoc.Comment.Event
import PropDoc.Text.Basic

/-!
# Comments

What a comment says: paragraphs of text, a summary, blocks and modifiers.
-/

namespace PropDoc.Comment

/-! ### Paragraphs

A paragraph is a maximal run of lines that are not blank. Its text is the lines, each trimmed,
joined by one space.
-/

/-- The runs of lines between blank lines, each line trimmed, with the run at the front left open:
it may be empty, the others are not. -/
def runs : List (List Char) → List (List Char) × List (List (List Char))
  | [] => ([], [])
  | line :: lines =>
    let (first, others) := runs lines
    let text := Text.trim line
    if text.isEmpty then ([], if first.isEmpty then others else first :: others)
    else (text :: first, others)

/-- The paragraphs of some lines, in order. -/
def paragraphs (lines : List (List Char)) : List (List Char) :=
  let (first, others) := runs lines
  ((if first.isEmpty then others else first :: others).map fun run ↦ [' '].intercalate run)

/-! ### Documentation comments

A comment is a summary, blocks and modifiers. Reading never stops at a problem: the result holds
the comment together with every diagnostic, first those of the lines in order, then those of
blocks that lack a name or a hyphen.
-/

/-- A name and its description. -/
structure Named where
  name : String
  description : String
  deriving DecidableEq

/-- A block tag and its content. -/
structure Block where
  tag : String
  binding : Binding
  line : Nat
  lines : List (List Char)
  named : Option Named := none
  deriving DecidableEq

/-- A summary, blocks and modifiers. -/
structure Doc where
  summaryLines : List (List Char) := []
  blocks : List Block := []
  modifiers : List String := []
  deriving DecidableEq

/-- A comment and all that is wrong with it. -/
structure Reading where
  doc : Doc
  diagnostics : List Diagnostic

namespace Block

/-- The paragraphs with a blank line between them, as characters. -/
def content (block : Block) : List Char := ['\n', '\n'].intercalate (paragraphs block.lines)

/-- The paragraphs with a blank line between them. -/
def text (block : Block) : String := String.ofList block.content

/-- Split at the first hyphen between spaces, or at a hyphen that ends the text. -/
def splitNamed? (text : List Char) : Option (List Char × List Char) :=
  match Text.cut? [' ', '-', ' '] text with
  | some (name, description) => some (Text.trim name, Text.trim description)
  | none => (Text.dropEnding? [' ', '-'] (Text.trimEnd text)).map fun name ↦ (Text.trim name, [])

/-- The name and description of a block, or what it lacks. -/
def readNamed (block : Block) : Except Problem Named :=
  match splitNamed? block.content with
  | some (name, description) =>
    if name.isEmpty then .error (.missingName block.tag)
    else .ok ⟨String.ofList name, String.ofList description⟩
  | none =>
    if Text.allBlank block.content then .error (.missingName block.tag)
    else .error (.missingHyphen block.tag)

/-- The block with its name and description filled in, where its binding asks for them. -/
def settle (block : Block) : Block :=
  if block.binding.isNamed then
    match block.readNamed with
    | .ok named => { block with named := some named }
    | .error _ => block
  else block

/-- Settling fills in the name and description, and changes nothing else. -/
theorem settle_eq (block : Block) : block.settle = { block with named := block.settle.named } := by
  unfold settle
  repeat' split
  all_goals rfl

/-- What a block lacks, where its binding asks for a name and a description. -/
def diagnostic? (block : Block) : Option Diagnostic :=
  if block.binding.isNamed then
    match block.readNamed with
    | .ok _ => none
    | .error problem => some ⟨problem, block.line⟩
  else none

/-- The blocks that some events open, each with the text up to the next. -/
def ofEvents : List Event → List Block
  | [] => []
  | .opens tag binding line :: rest =>
    { tag, binding, line, lines := Event.leadingText rest } :: ofEvents rest
  | .text _ :: rest => ofEvents rest
  | .modifier _ :: rest => ofEvents rest
  | .problem _ :: rest => ofEvents rest

end Block

namespace Doc

/-- The first paragraph of the summary, or nothing. -/
def summary (doc : Doc) : String :=
  String.ofList ((paragraphs doc.summaryLines).head?.getD [])

/-- The blocks with a binding, in order. -/
def blocksWith (doc : Doc) (binding : Binding) : List Block :=
  doc.blocks.filter fun block ↦ decide (block.binding = binding)

/-- Whether a modifier was given. -/
def hasModifier (doc : Doc) (name : String) : Bool := doc.modifiers.contains name

end Doc

/-- The text between the delimiters of a comment, if it has both. -/
def body? (text : List Char) : Option (List Char) :=
  match Text.trim text with
  | '/' :: '*' :: '*' :: rest => Text.dropEnding? ['*', '/'] rest
  | _ => none

/-- A line without its margin: leading blanks, one star and one space after it. -/
def dropMargin (line : List Char) : List Char :=
  match Text.trimStart line with
  | '*' :: ' ' :: rest => rest
  | '*' :: rest => rest
  | trimmed => trimmed

/-- The lines between the delimiters, without carriage returns at their ends and without their
margins. -/
def bodyLines (body : List Char) : List (List Char) :=
  (body.splitOn '\n').map fun line ↦ dropMargin (Text.dropEndWhile (· == '\r') line)

namespace Reading

/-- Gather the events of a comment. -/
def ofEvents (events : List Event) : Reading :=
  let blocks := Block.ofEvents events
  { doc :=
      { summaryLines := Event.leadingText events
        blocks := blocks.map Block.settle
        modifiers := events.filterMap Event.modifier? }
    diagnostics := events.filterMap Event.diagnostic? ++ blocks.filterMap Block.diagnostic? }

/-- Whether anything is wrong with the comment. -/
def hasErrors (reading : Reading) : Bool := !reading.diagnostics.isEmpty

end Reading

/-- Read the text of a comment that starts on a given line of its file. -/
def read (tags : TagSet) (text : String) (firstLine : Nat) : Reading :=
  match body? text.toList with
  | none => Reading.ofEvents [.problem ⟨.missingOpening, firstLine⟩]
  | some body => Reading.ofEvents (Event.ofLines tags false firstLine (bodyLines body))

end PropDoc.Comment
