import PropDoc.Syntax.Node

/-!
# Type signatures

What is documented of a type, and how it is read from the syntax.
-/

namespace PropDoc

/-! ### Signatures

What a type annotation comes down to in documentation. Named types are kept as written and not
looked into, and a shape that is not listed here is unknown.
-/

/-- Keyword types that stand for themselves. -/
inductive Primitive where
  | string
  | number
  | boolean
  | any
  | void
  deriving DecidableEq

/-- What a member of an object type is called. -/
inductive PropertyKey where
  /-- By a name of its own. -/
  | name (text : String)
  /-- By every key of a type, kept as written. -/
  | index (type : String)
  deriving DecidableEq

/-- A parameter of a function type. -/
structure Argument (τ : Type) where
  name : String
  type : τ

/-- A member of an object type. -/
structure Property (τ : Type) where
  key : PropertyKey
  required : Bool
  type : τ

/-- What a type annotation comes down to. -/
inductive Signature where
  | primitive (type : Primitive)
  /-- A literal type, as written. -/
  | literal (text : String)
  /-- A named type, as written. -/
  | reference (text : String)
  | union (elements : List Signature)
  | array (element : Signature)
  | tuple (elements : List Signature)
  | function (arguments : List (Argument Signature)) (returns : Signature)
  | object (properties : List (Property Signature))
  | unknown

namespace Primitive

/-- The keyword of a primitive type. -/
def word : Primitive → String
  | string => "string"
  | number => "number"
  | boolean => "boolean"
  | any => "any"
  | void => "void"

/-- The primitive type that a keyword means. -/
def ofWord? (word : String) : Option Primitive :=
  [string, number, boolean, any, void].find? fun type ↦ type.word == word

end Primitive

namespace Signature

/-- The short name under which a signature is listed. -/
def name : Signature → String
  | primitive type => type.word
  | literal _ => "literal"
  | reference text => text
  | union _ => "union"
  | array _ => "Array"
  | tuple _ => "tuple"
  | function .. => "signature"
  | object _ => "signature"
  | unknown => "unknown"

end Signature

namespace Signature

open PropDoc.Syntax

/-! ### Reading signatures

A type is read bottom-up. Every node is given a reading, which says what it is as a type, as an
annotation, as a list of parameters and as a member of an object type; its parent picks the one it
needs. Comments below a node take no part.
-/

/-- What a node means to the types around it. -/
structure Reading where
  node : Node
  /-- The node as a type. -/
  type : Signature
  /-- The alternatives of a union, nested unions included; for any other type the type alone. -/
  alternatives : List Signature
  /-- The type inside an annotation; any other node as a type. -/
  annotated : Option Signature
  /-- The type that the node declares for itself after a colon. -/
  declared : Signature
  /-- The node as a list of parameters. -/
  parameters : List (Argument Signature)
  /-- The type of a property or method. -/
  member : Signature
  /-- The node as a member of an object type. -/
  property : Option (Property Signature)

namespace Reading

variable (source : Source) (node : Node) (below : List Reading)

/-- The reading of the first child that is a given field. -/
def field? (name : String) : Option Reading :=
  below.find? fun reading ↦ reading.node.field == name

/-- The readings of the named children other than comments. -/
def parts : List Reading :=
  below.filter fun reading ↦ reading.node.named && !reading.node.isComment

/-- The annotated type of a field, unknown without one. -/
def annotatedField (name : String) : Signature :=
  ((field? below name).bind annotated).getD .unknown

/-- The parameters of a function or method. -/
def argumentsOf : List (Argument Signature) :=
  ((field? below "parameters").map parameters).getD []

/-- The alternatives of a union. -/
def alternativesOf : List Signature := (parts below).flatMap alternatives

/-- The elements of a tuple. A labelled element is its declared type. -/
def elementsOf : List Signature :=
  (parts below).map fun reading ↦
    if reading.node.isParameter then reading.declared else reading.type

/-- The result type of a function type: its field, or else the last part. -/
def resultOf : Signature :=
  (((field? below "return_type").or (parts below).getLast?).map type).getD .unknown

/-- A node as a type, given the readings of its children. -/
def typeOf : Signature :=
  match node.kind with
  | "predefined_type" =>
    ((Primitive.ofWord? (node.text source)).map Signature.primitive).getD .unknown
  | "literal_type" => .literal (node.text source)
  | "type_identifier" => .reference (node.text source)
  | "nested_type_identifier" => .reference (node.text source)
  | "generic_type" => .reference (node.text source)
  | "union_type" => .union (alternativesOf below)
  | "array_type" =>
    ((parts below).head?.map fun reading ↦ Signature.array reading.type).getD .unknown
  | "tuple_type" => .tuple (elementsOf below)
  | "function_type" => .function (argumentsOf below) (resultOf below)
  | "object_type" => .object ((parts below).filterMap property)
  | "parenthesized_type" => ((parts below).head?.map type).getD .unknown
  | _ => .unknown

/-- A node as a list of parameters. -/
def parametersOf : List (Argument Signature) :=
  (below.filter fun reading ↦ reading.node.named && reading.node.isParameter).map fun reading ↦
    ⟨((reading.node.field? "pattern").map (Node.text source)).getD "", reading.declared⟩

/-- The type of a property, or of a method as a function. -/
def memberOf : Signature :=
  if node.kind == "method_signature" then
    .function (argumentsOf below) (annotatedField below "return_type")
  else annotatedField below "type"

/-- A node as a member of an object type. An index signature is always required. -/
def propertyOf : Option (Property Signature) :=
  if node.isMember then
    (node.memberKey? source).map fun key ↦
      ⟨.name key, !node.isOptional, memberOf node below⟩
  else if node.kind == "index_signature" then
    (node.field? "index_type").map fun index ↦
      ⟨.index (index.text source), true, annotatedField below "type"⟩
  else none

/-- The reading of a node from those of its children. -/
def step : Reading where
  node := node
  type := typeOf source node below
  alternatives :=
    if node.kind == "union_type" then alternativesOf below else [typeOf source node below]
  annotated :=
    if node.isTypeClause then (parts below).head?.map type
    else some (typeOf source node below)
  declared := annotatedField below "type"
  parameters := parametersOf source below
  member := memberOf node below
  property := propertyOf source node below

/-- The reading of a node. -/
def ofNode : Reading := node.fold (step source)

end Reading

/-- The signature of a type. -/
def ofNode (source : Source) (node : Node) : Signature := (Reading.ofNode source node).type

/-- The signature of a property or method. -/
def ofMember (source : Source) (member : Node) : Signature := (Reading.ofNode source member).member

end Signature

end PropDoc
