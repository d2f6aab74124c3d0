import PropDoc.Error
import PropDoc.SourceFile.Declaration
import PropDoc.Text.Basic

/-!
# Components

A component is an exported function or variable whose name starts with an upper-case character.
Behind a variable stands the first function in its value, so that wrappers are looked through.
-/

namespace PropDoc

open PropDoc.Syntax

namespace Syntax.Node

/-- Whether a node is a function that can be a value. -/
def isFunctionValue (node : Node) : Bool :=
  node.kind == "arrow_function" || node.kind == "function_expression"

mutual

/-- The first function value in a node: the node itself, or else in its named children in order. -/
def firstFunction? : Node → Option Node
  | mk label children =>
    if (mk label children).isFunctionValue then some (mk label children)
    else firstFunctionIn? children

/-- The first function value in some nodes, of which only the named ones count. -/
def firstFunctionIn? : List Node → Option Node
  | [] => none
  | node :: nodes =>
    if node.named then (firstFunction? node).or (firstFunctionIn? nodes)
    else firstFunctionIn? nodes

end

end Syntax.Node

namespace SourceFile

/-- The plain name of an export. -/
def exportName? (file : SourceFile) (item : Export) : Option String :=
  if item.hasName then (item.focus.field? "name").map fun name ↦ file.text name.node else none

/-- Whether an export is a component. An export without a plain name is an error. -/
def isComponent (file : SourceFile) (item : Export) : Except Error Bool :=
  match file.exportName? item with
  | none => .error (.unnamedComponent file.path (file.span item.focus.node).line)
  | some name =>
    match item.kind with
    | .function | .binding => .ok ((name.toList.head?.map Text.isUppercase).getD false)
    | .anonymousFunction => .ok false

/-- The function behind an export. -/
def functionOf (file : SourceFile) (item : Export) : Except Error Node :=
  let found := match item.kind with
    | .function | .anonymousFunction => some item.focus.node
    | .binding => (item.focus.node.field? "value").bind Node.firstFunction?
  match found with
  | some function => .ok function
  | none => .error (.missingFunction file.path ((file.exportName? item).getD ""))

end SourceFile

/-- The statement that the comment on an export precedes: the outermost one that holds it. -/
def Export.anchor (item : Export) : Focus :=
  let statement := match item.kind with
    | .binding =>
      match item.focus.parent? with
      | some parent => if Export.isVariables parent then parent else item.focus
      | none => item.focus
    | .function | .anonymousFunction => item.focus
  match statement.parent? with
  | some parent => if parent.kind == "export_statement" then parent else statement
  | none => statement

end PropDoc
