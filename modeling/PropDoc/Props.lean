import PropDoc.Comment.Doc
import PropDoc.Project.Loading
import PropDoc.Signature.Printer
import PropDoc.Table

/-!
# Props

What is documented of a prop, where its description comes from, and where the type of the props is
found.
-/

namespace PropDoc

/-! ### Prop records

What is documented of a prop: whether it has to be given, the default it is destructured with, its
type, and its description.
-/

/-- The documentation of one prop. The default is kept as written. -/
structure PropRecord where
  required : Bool
  default? : Option String := none
  type : Signature
  description? : Option String := none

/-- The props of a component, in the order of their declaration. -/
abbrev PropTable := Table PropRecord

namespace PropRecord

/-- A default as JSON. It is never evaluated. -/
def defaultJson (text : String) : Json :=
  .object [("value", .string text), ("computed", .bool false)]

/-- A record as JSON. What is absent is left out. -/
def toJson (record : PropRecord) : Json :=
  .object <|
    [("required", .bool record.required)] ++
      (record.default?.map fun text ↦ ("defaultValue", defaultJson text)).toList ++
      [("tsType", record.type.toJson)] ++
      (record.description?.map fun text ↦ ("description", Json.string text)).toList

end PropRecord

/-- A prop table as JSON. -/
def PropTable.toJson (table : PropTable) : Json :=
  .object (table.entries.map fun entry ↦ (entry.1, entry.2.toJson))

/-! ### Descriptions from the leading comment

The comments right before a statement lead it, unless they trail what stands before them on the
same line. The first leading comment gives a component its summary and its props their
descriptions.
-/

open PropDoc.Syntax

/-- A summary and a prop table with its descriptions. -/
structure Described where
  summary : String
  table : PropTable

/-- The comments that lead a statement, first one first. One that starts on the row where the node
before the comments ends belongs to that node. -/
def leadingComments (source : Source) (anchor : Focus) : List Focus :=
  let earlier := anchor.earlierSiblings
  let comments := earlier.takeWhile fun sibling ↦ sibling.node.isComment
  match earlier.dropWhile fun sibling ↦ sibling.node.isComment with
  | [] => comments.reverse
  | before :: _ =>
    (comments.filter fun comment ↦
      comment.node.startRow source != before.node.stopRow source).reverse

/-- The names and descriptions that the prop blocks of a comment give. -/
def descriptionsIn (doc : Comment.Doc) : List Comment.Named :=
  (doc.blocksWith .prop).filterMap Comment.Block.named

namespace PropTable

/-- Give a prop its description. A name that is no prop has no effect. -/
def describe (table : PropTable) (named : Comment.Named) : PropTable :=
  table.modify named.name fun record ↦ { record with description? := some named.description }

/-- Fill in summary and descriptions from the first comment that leads a statement. A problem in
that comment is an error. -/
def bind (table : PropTable) (tags : Comment.TagSet) (file : SourceFile) (anchor : Focus) :
    Except Error Described :=
  match (leadingComments file.source anchor).head? with
  | none => .ok ⟨"", table⟩
  | some comment =>
    let reading :=
      Comment.read tags (file.text comment.node) (comment.node.startRow file.source + 1)
    match reading.diagnostics.head? with
    | some diagnostic => .error (.faultyComment file.path diagnostic)
    | none => .ok ⟨reading.doc.summary, (descriptionsIn reading.doc).foldl describe table⟩

end PropTable

/-! ### The props parameter of a component

The props of a component are the members of the type of its first parameter. That type is an
object type written in place or a name, which is looked up in the project; a name that stands for
another name is not followed. Defaults come from the pattern that destructures the parameter.
-/

/-- Where the members of a props type are written. -/
inductive ParameterType where
  /-- In the type itself. -/
  | inPlace (members : Node)
  /-- In a declaration of some file. -/
  | declared (name : String) (members : Node) (file : SourceFile)

namespace ParameterType

/-- The node whose children are the members. -/
def members : ParameterType → Node
  | inPlace members => members
  | declared _ members _ => members

/-- The source that holds the members, given that of the component. -/
def source (here : Source) : ParameterType → Source
  | inPlace _ => here
  | declared _ _ file => file.source

/-- The node with the members of a declared type. A synonym has them if it stands for an object
type. -/
def membersOf? (declaration : TypeDeclaration) : Option Node :=
  match declaration.kind with
  | .interface => declaration.focus.node.field? "body"
  | .synonym =>
    (declaration.focus.node.field? "value").filter fun value ↦ value.kind == "object_type"

/-- The node with the name of a type, if the type is a reference. -/
def referenceName? (type : Node) : Option Node :=
  if type.kind == "type_identifier" then some type
  else if type.kind == "generic_type" || type.kind == "nested_type_identifier" then
    type.field? "name"
  else none

/-- The type that the first parameter of a function is annotated with. -/
def propsType? (function : Node) : Option Node :=
  (function.firstParameter?.bind fun parameter ↦ parameter.field? "type").bind Node.annotatedType?

/-- Where a named type has its members. If nothing has the name, that is an error in strict mode
and no type otherwise. -/
def lookUp (project : Project) (file : SourceFile) (strict : Bool) (name : String) :
    Except Error (Option ParameterType) :=
  match project.findType? file name with
  | some (owner, declaration) =>
    .ok ((membersOf? declaration).map fun members ↦ .declared name members owner)
  | none => if strict then .error (.unresolvedType file.path name) else .ok none

/-- Where the members of the props type of a function are written, if it has one with members. -/
def ofFunction (project : Project) (file : SourceFile) (strict : Bool) (function : Node) :
    Except Error (Option ParameterType) :=
  match propsType? function with
  | none => .ok none
  | some type =>
    if type.kind == "object_type" then
      .ok (if type.parts.isEmpty then none else some (.inPlace type))
    else match referenceName? type with
      | some name => lookUp project file strict (file.text name)
      | none => .ok none

end ParameterType

/-- A property that a pattern reads, and the default it is given. -/
structure Destructured where
  name : String
  default? : Option String
  deriving DecidableEq

namespace Destructured

/-- The name and default of one element of a pattern. Computed names and rests are none. -/
def ofElement? (source : Source) (element : Node) : Option Destructured :=
  match element.kind with
  | "shorthand_property_identifier_pattern" => some ⟨element.text source, none⟩
  | "object_assignment_pattern" =>
    (element.field? "left").map fun left ↦
      ⟨left.text source, (element.field? "right").map (Node.text source)⟩
  | "pair_pattern" =>
    (element.field? "key").bind fun key ↦
      if key.kind == "computed_property_name" then none
      else
        let name :=
          if key.kind == "string" then Node.unquote (key.text source) else key.text source
        let value := (element.field? "value").filter fun value ↦
          value.kind == "assignment_pattern"
        some ⟨name, (value.bind fun value ↦ value.field? "right").map (Node.text source)⟩
  | _ => none

/-- What the pattern of the first parameter reads. -/
def ofFunction (source : Source) (function : Node) : List Destructured :=
  let pattern := (function.firstParameter?.bind fun parameter ↦ parameter.field? "pattern").filter
    fun pattern ↦ pattern.kind == "object_pattern"
  match pattern with
  | some pattern => pattern.namedChildren.filterMap (ofElement? source)
  | none => []

end Destructured

namespace PropTable

/-- The default of a property: that of the first element that reads it. -/
def defaultFor? (read : List Destructured) (name : String) : Option String :=
  (read.find? fun item ↦ item.name == name).bind Destructured.default?

/-- The name and record of a member, if its name is fixed. -/
def ofMember? (source : Source) (read : List Destructured) (member : Node) :
    Option (String × PropRecord) :=
  if member.isMember then
    (member.memberKey? source).map fun name ↦
      (name,
       { required := !member.isOptional
         default? := defaultFor? read name
         type := Signature.ofMember source member })
  else none

/-- The table of a function's props. Of members with the same name the first counts. -/
def ofFunction (function : Node) (file : SourceFile) (type : ParameterType) : PropTable :=
  let read := Destructured.ofFunction file.source function
  (type.members.parts.filterMap (ofMember? (type.source file.source) read)).foldl
    (fun table entry ↦ table.insertNew entry.1 entry.2) Table.empty

end PropTable

end PropDoc
