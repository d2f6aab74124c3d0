/-!
# Sources and syntax trees

The bytes of a file, the tree that a parser of TypeScript makes of them, and what the nodes of
types, parameters and members say. A node is followed to its place in the tree by a focus.
-/

namespace PropDoc.Syntax

/-! ### Source texts

A source is the bytes of a file. Places in it are byte offsets, and every read is total: a slice
beyond the end is clipped, and a slice that is not valid UTF-8 reads as the empty text.
-/

/-- The bytes of a file. -/
structure Source where
  bytes : ByteArray

/-- Where a piece of source lies: byte offsets, and the line and column it starts on, both counted
from one. -/
structure Span where
  start : Nat
  stop : Nat
  line : Nat
  column : Nat
  deriving DecidableEq

/-- The line and column of a span. -/
def Span.text (span : Span) : String := toString span.line ++ ":" ++ toString span.column

namespace Source

/-- The source with the given text. -/
def ofString (text : String) : Source := ⟨text.toUTF8⟩

/-- The text between two offsets. -/
def slice (source : Source) (start stop : Nat) : String :=
  (String.fromUTF8? (source.bytes.extract start stop)).getD ""

/-- The bytes before an offset. -/
def before (source : Source) (offset : Nat) : List UInt8 := source.bytes.data.toList.take offset

/-- The number of line breaks before an offset. -/
def row (source : Source) (offset : Nat) : Nat := (source.before offset).count 10

/-- The number of bytes between the last line break and an offset. -/
def column (source : Source) (offset : Nat) : Nat :=
  ((source.before offset).reverse.takeWhile fun byte ↦ byte != 10).length

/-- The span between two offsets. -/
def span (source : Source) (start stop : Nat) : Span :=
  ⟨start, stop, source.row start + 1, source.column start + 1⟩

end Source

/-! ### Syntax trees

The trees that a parser of TypeScript produces. A node has a kind, possibly a field name that says
which part of its parent it is, some flags, the bytes it spans and its children in source order.
-/

/-- What a node says about itself. -/
structure Label where
  kind : String
  field : String := ""
  named : Bool := true
  missing : Bool := false
  error : Bool := false
  hasError : Bool := false
  start : Nat := 0
  stop : Nat := 0
  deriving DecidableEq

/-- A node of a syntax tree. -/
inductive Node where
  | mk (label : Label) (children : List Node)

namespace Node

/-- What the node says about itself. -/
def label : Node → Label
  | mk label _ => label

/-- The children in source order, punctuation included. -/
def children : Node → List Node
  | mk _ children => children

/-- The kind of a node. A token without a name has its text as kind. -/
def kind (node : Node) : String := node.label.kind

/-- The field of its parent that a node is, empty if none. -/
def field (node : Node) : String := node.label.field

/-- Whether a node is more than punctuation or a keyword. -/
def named (node : Node) : Bool := node.label.named

/-- Whether the parser supplied the node to go on after an error. -/
def missing (node : Node) : Bool := node.label.missing

/-- Whether the node is source that the parser could not read. -/
def error (node : Node) : Bool := node.label.error

/-- Whether an error is said to lie in or below the node. -/
def hasError (node : Node) : Bool := node.label.hasError

/-- The offset of the first byte. -/
def start (node : Node) : Nat := node.label.start

/-- The offset after the last byte. -/
def stop (node : Node) : Nat := node.label.stop

/-- Whether a node is a comment. -/
def isComment (node : Node) : Bool := node.kind == "comment"

/-- The children other than punctuation and keywords. -/
def namedChildren (node : Node) : List Node := node.children.filter named

/-- The named children other than comments. -/
def parts (node : Node) : List Node := node.namedChildren.filter fun child ↦ !child.isComment

/-- The first child that is a given field. -/
def field? (node : Node) (name : String) : Option Node :=
  node.children.find? fun child ↦ child.field == name

/-- The text that a node spans. -/
def text (source : Source) (node : Node) : String := source.slice node.start node.stop

/-- Where a node lies. -/
def span (source : Source) (node : Node) : Span := source.span node.start node.stop

/-- The row on which a node starts. -/
def startRow (source : Source) (node : Node) : Nat := source.row node.start

/-- The row on which a node ends. -/
def stopRow (source : Source) (node : Node) : Nat := source.row node.stop

variable {α : Type}

mutual

/-- Compute a value for a node from the values of its children. -/
def fold (step : Node → List α → α) : Node → α
  | mk label children => step (mk label children) (foldAll step children)

/-- The values of some nodes. -/
def foldAll (step : Node → List α → α) : List Node → List α
  | [] => []
  | node :: nodes => fold step node :: foldAll step nodes

end

/-- The values of some nodes are the values of each. -/
theorem foldAll_eq_map (step : Node → List α → α) (nodes : List Node) :
    foldAll step nodes = nodes.map (fold step) := by
  induction nodes with
  | nil => rfl
  | cons node nodes ih => simp [foldAll, ih]

/-- The value of a node comes from the values of its children. -/
theorem fold_eq (step : Node → List α → α) (node : Node) :
    fold step node = step node (node.children.map (fold step)) := by
  cases node with
  | mk label children => simp [fold, foldAll_eq_map, Node.children]

end Node

end PropDoc.Syntax

namespace PropDoc.Syntax.Node

/-! ### Parts of types, parameters and members

What a node of a type, a parameter or a member of an object type says without looking into the
types below it: the type inside an annotation, the key of a member, whether it is optional.
-/

/-- Whether a node is a colon and the type after it. -/
def isTypeClause (node : Node) : Bool :=
  ["type_annotation", "opting_type_annotation", "omitting_type_annotation",
    "adding_type_annotation"].contains node.kind

/-- The type inside an annotation; any other node is taken for the type itself. -/
def annotatedType? (node : Node) : Option Node :=
  if node.isTypeClause then node.parts.head? else some node

/-- Whether a node is a parameter with a pattern and possibly a type. -/
def isParameter (node : Node) : Bool :=
  node.kind == "required_parameter" || node.kind == "optional_parameter"

/-- The first parameter of a function. -/
def firstParameter? (function : Node) : Option Node :=
  (function.field? "parameters").bind fun list ↦ list.namedChildren.find? isParameter

/-- Whether a node is a property or a method of an object type. -/
def isMember (node : Node) : Bool :=
  node.kind == "property_signature" || node.kind == "method_signature"

/-- Whether a member has a question mark. -/
def isOptional (member : Node) : Bool :=
  member.children.any fun child ↦ !child.named && child.kind == "?"

/-- Whether a character opens or closes a string. -/
def isQuote (c : Char) : Bool := c == '"' || c == '\x27'

/-- A text without its quotes, if it has one at each end. -/
def unquote (text : String) : String :=
  match text.toList with
  | first :: rest =>
    match rest.reverse with
    | last :: inner =>
      if isQuote first && isQuote last then String.ofList inner.reverse else text
    | [] => text
  | [] => text

/-- The key of a member. A computed key is none. -/
def memberKey? (source : Source) (member : Node) : Option String :=
  (member.field? "name").bind fun name ↦
    if ["property_identifier", "identifier", "private_property_identifier", "number"].contains
        name.kind then
      some (name.text source)
    else if name.kind == "string" then some (unquote (name.text source))
    else none

end PropDoc.Syntax.Node

namespace PropDoc.Syntax

/-! ### Nodes in their place

A focus is a node together with the way down to it: its ancestors, nearest first, each with the
position of the child that was taken. The positions alone tell the nodes of one tree apart.
-/

/-- A node and the way down to it. -/
structure Focus where
  node : Node
  above : List (Node × Nat) := []

namespace Focus

/-- The positions of the children taken, nearest first. -/
def address (focus : Focus) : List Nat := focus.above.map Prod.snd

/-- The child at a position. -/
def child (focus : Focus) (position : Nat) (node : Node) : Focus :=
  ⟨node, (focus.node, position) :: focus.above⟩

/-- The children in source order. -/
def children (focus : Focus) : List Focus :=
  focus.node.children.zipIdx.map fun (node, position) ↦ focus.child position node

/-- The children other than punctuation and keywords. -/
def namedChildren (focus : Focus) : List Focus := focus.children.filter fun child ↦ child.node.named

/-- The first child that is a given field. -/
def field? (focus : Focus) (name : String) : Option Focus :=
  focus.children.find? fun child ↦ child.node.field == name

/-- The kind of the node. -/
def kind (focus : Focus) : String := focus.node.kind

/-- The parent in its place. -/
def parent? (focus : Focus) : Option Focus :=
  match focus.above with
  | [] => none
  | (node, _) :: above => some ⟨node, above⟩

/-- The siblings before the node, nearest first. -/
def earlierSiblings (focus : Focus) : List Focus :=
  match focus.above with
  | [] => []
  | (node, position) :: above => ((Focus.mk node above).children.take position).reverse

mutual

/-- A node and all below it in pre-order, given the way down to the node. -/
def preorderFrom (above : List (Node × Nat)) : Node → List Focus
  | .mk label children =>
    ⟨.mk label children, above⟩ :: preorderBelow (.mk label children) above 0 children

/-- Children from a position on, and all below them, in pre-order. -/
def preorderBelow (parent : Node) (above : List (Node × Nat)) (position : Nat) :
    List Node → List Focus
  | [] => []
  | node :: nodes =>
    preorderFrom ((parent, position) :: above) node ++
      preorderBelow parent above (position + 1) nodes

end

/-- The node and all below it in pre-order. -/
def preorder (focus : Focus) : List Focus := preorderFrom focus.above focus.node

end Focus

end PropDoc.Syntax
