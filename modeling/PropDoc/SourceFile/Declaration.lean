import PropDoc.SourceFile.Basic

/-!
# Declarations and links

What a file declares that documentation is about: the functions and variables that it exports, and
its interfaces and type aliases. What it takes from other modules, or passes on, are its links.
-/

namespace PropDoc

open PropDoc.Syntax

/-! ### Exported declarations

A file exports functions and variables: where they are declared, by name in a list, or as the
default. Each export is resolved to the node that declares it, and a declaration that is exported
in several ways is listed once.
-/

/-- The form of an exported declaration. -/
inductive ExportKind where
  | function
  | binding
  | anonymousFunction
  deriving DecidableEq

/-- The words for a form. -/
def ExportKind.word : ExportKind → String
  | function => "function"
  | binding => "variable"
  | anonymousFunction => "anonymous function"

/-- A declaration that a file exports. -/
structure Export where
  focus : Focus
  kind : ExportKind
  /-- Whether the declaration is called by a plain name. -/
  hasName : Bool

namespace Export

/-- A function as an export. -/
def ofFunction (focus : Focus) : Export := ⟨focus, .function, (focus.field? "name").isSome⟩

/-- A variable as an export. A pattern is no plain name. -/
def ofVariable (focus : Focus) : Export :=
  ⟨focus, .binding, ((focus.field? "name").map fun name ↦ name.kind == "identifier").getD false⟩

/-- Whether a node declares a function. -/
def isFunction (focus : Focus) : Bool :=
  focus.kind == "function_declaration" || focus.kind == "generator_function_declaration"

/-- Whether a node declares variables. -/
def isVariables (focus : Focus) : Bool :=
  focus.kind == "lexical_declaration" || focus.kind == "variable_declaration"

/-- The variables that a declaration declares. -/
def declaredVariables (focus : Focus) : List Focus :=
  focus.namedChildren.filter fun child ↦ child.kind == "variable_declarator"

/-- The exports of a declaration right after `export`. Classes, types and ambient declarations
make none. -/
def ofDeclaration (focus : Focus) : List Export :=
  if isFunction focus then [ofFunction focus]
  else if isVariables focus then (declaredVariables focus).map ofVariable
  else []

/-- Keep the first of the exports that declare at the same place. -/
def distinct : List Export → List Export
  | [] => []
  | first :: rest =>
    first :: (distinct rest).filter fun later ↦
      decide (later.focus.address ≠ first.focus.address)

end Export

namespace SourceFile

open Export

/-- Whether a node has a field `name` with the given text. -/
def isNamed (file : SourceFile) (name : String) (focus : Focus) : Bool :=
  ((focus.field? "name").map fun found ↦ file.text found.node == name).getD false

/-- Whether a variable is called by the given plain name. -/
def isVariableNamed (file : SourceFile) (name : String) (focus : Focus) : Bool :=
  ((focus.field? "name").map fun found ↦
    found.kind == "identifier" && file.text found.node == name).getD false

/-- What a statement declares, looking behind `export`. -/
def declarationIn? (statement : Focus) : Option Focus :=
  if statement.kind == "export_statement" then statement.field? "declaration" else some statement

/-- The function or variable of a given name that a statement declares. -/
def declared? (file : SourceFile) (name : String) (statement : Focus) : Option Export :=
  (declarationIn? statement).bind fun declaration ↦
    if isFunction declaration then
      if file.isNamed name declaration then some (ofFunction declaration) else none
    else if isVariables declaration then
      ((declaredVariables declaration).find? (file.isVariableNamed name)).map ofVariable
    else none

/-- The first function or variable of a given name that the file declares. -/
def declaration? (file : SourceFile) (name : String) : Option Export :=
  file.statements.findSome? (file.declared? name)

/-- The export that a default value makes: a name stands for its declaration. -/
def exportsOfValue (file : SourceFile) (value : Focus) : List Export :=
  if value.kind == "identifier" then (file.declaration? (file.text value.node)).toList
  else if value.kind == "function_expression" || value.kind == "function" then
    if (value.field? "name").isSome then [ofFunction value]
    else [⟨value, .anonymousFunction, false⟩]
  else []

/-- The exports that a list of names makes. -/
def exportsOfClause (file : SourceFile) (clause : Focus) : List Export :=
  (clause.namedChildren.filter fun child ↦ child.kind == "export_specifier").filterMap
    fun specifier ↦ (specifier.field? "name").bind fun name ↦
      file.declaration? (file.text name.node)

/-- The exports that a statement makes. One that passes on another module makes none. -/
def exportsOfStatement (file : SourceFile) (statement : Focus) : List Export :=
  if statement.kind != "export_statement" || (statement.field? "source").isSome then []
  else match statement.field? "declaration" with
    | some declaration => ofDeclaration declaration
    | none => match statement.field? "value" with
      | some value => file.exportsOfValue value
      | none =>
        match statement.namedChildren.find? fun child ↦ child.kind == "export_clause" with
        | some clause => file.exportsOfClause clause
        | none => []

/-- The declarations that the file exports, in order, each once. -/
def exports (file : SourceFile) : List Export :=
  distinct (file.statements.flatMap file.exportsOfStatement)

end SourceFile

/-! ### Type declarations

The interfaces and type aliases that a file declares at file scope, in source order: directly in
the program or right behind `export`.
-/

/-- The form of a type declaration. -/
inductive TypeDeclarationKind where
  | interface
  | synonym
  deriving DecidableEq

namespace TypeDeclarationKind

/-- The word for a form. -/
def word : TypeDeclarationKind → String
  | interface => "interface"
  | synonym => "alias"

/-- The form of a type declaration of some node kind. -/
def ofKind? (kind : String) : Option TypeDeclarationKind :=
  if kind == "interface_declaration" then some interface
  else if kind == "type_alias_declaration" then some synonym
  else none

end TypeDeclarationKind

/-- A named type that a file declares. -/
structure TypeDeclaration where
  focus : Focus
  kind : TypeDeclarationKind

namespace TypeDeclaration

/-- A node as a type declaration: it has to have a name. -/
def ofFocus? (focus : Focus) : Option TypeDeclaration :=
  if focus.node.children.any fun child ↦
      child.field == "name" && child.kind == "type_identifier" then
    (TypeDeclarationKind.ofKind? focus.kind).map fun kind ↦ ⟨focus, kind⟩
  else none

/-- Whether a node stands directly in the program, possibly behind `export`. -/
def atFileScope (focus : Focus) : Bool :=
  match focus.parent? with
  | none => false
  | some parent =>
    parent.kind == "program" ||
      (parent.kind == "export_statement" &&
        (parent.parent?.map fun outer ↦ outer.kind == "program").getD false)

end TypeDeclaration

namespace SourceFile

/-- The types that the file declares, in source order. -/
def typeDeclarations (file : SourceFile) : List TypeDeclaration :=
  ((file.rootFocus.preorder.filterMap TypeDeclaration.ofFocus?).filter fun declaration ↦
      TypeDeclaration.atFileScope declaration.focus).mergeSort fun first second ↦
    decide (first.focus.node.start ≤ second.focus.node.start)

/-- The name of a type that the file declares. -/
def typeName? (file : SourceFile) (declaration : TypeDeclaration) : Option String :=
  (declaration.focus.node.field? "name").map file.text

/-- The first type of a given name that the file declares. -/
def typeNamed? (file : SourceFile) (name : String) : Option TypeDeclaration :=
  file.typeDeclarations.find? fun declaration ↦ decide (file.typeName? declaration = some name)

end SourceFile

/-! ### Links between modules

An import brings names into a file, and an export with a source passes them on. Both are links to
the module that their specifier names.
-/

/-- Whether a link brings names in or passes them on. -/
inductive LinkKind where
  | brings
  | passesOn
  deriving DecidableEq

/-- A name that goes over a link: what it is called on either side. -/
structure LinkedName where
  here : String
  there : String
  deriving DecidableEq

/-- A statement that names another module. -/
structure Link where
  kind : LinkKind
  specifier : String
  names : List LinkedName
  /-- Whether every name is passed on. -/
  wildcard : Bool
  deriving DecidableEq

namespace Link

/-- Whether the specifier is a path from the file that holds the link. -/
def isRelative (link : Link) : Bool :=
  link.specifier == "." || link.specifier == ".." ||
    ['.', '/'].isPrefixOf link.specifier.toList ||
    ['.', '.', '/'].isPrefixOf link.specifier.toList

/-- What a name is called on the far side, by the first entry for it. -/
def there? (link : Link) (name : String) : Option String :=
  (link.names.find? fun linked ↦ linked.here == name).map LinkedName.there

end Link

namespace SourceFile

-- Whether a character quotes a specifier or a name.
private def isNameQuote (c : Char) : Bool := c == '"' || c == '\x27'

/-- The text of a name or a string without its quotes. -/
def nameText (file : SourceFile) (node : Node) : String :=
  let inner := (file.text node).toList.dropWhile isNameQuote
  String.ofList (inner.reverse.dropWhile isNameQuote).reverse

/-- The names of a list in braces. An alias is the name on this side. -/
def specifierNames (file : SourceFile) (kind : String) (list : Node) : List LinkedName :=
  (list.namedChildren.filter fun child ↦ child.kind == kind).filterMap fun specifier ↦
    (specifier.field? "name").map fun name ↦
      ⟨file.nameText ((specifier.field? "alias").getD name), file.nameText name⟩

/-- The names that an import binds. A namespace binds none. -/
def importedNames (file : SourceFile) (clause : Node) : List LinkedName :=
  clause.namedChildren.flatMap fun child ↦
    if child.kind == "identifier" then [⟨file.text child, "default"⟩]
    else if child.kind == "named_imports" then file.specifierNames "import_specifier" child
    else []

/-- The names that a part of a link statement carries. -/
def linkedNames (file : SourceFile) (child : Node) : List LinkedName :=
  if child.kind == "import_clause" then file.importedNames child
  else if child.kind == "export_clause" then file.specifierNames "export_specifier" child
  else []

/-- The kind of link that a statement can be. -/
def linkKind? (statement : Node) : Option LinkKind :=
  if statement.kind == "import_statement" then some .brings
  else if statement.kind == "export_statement" then some .passesOn
  else none

/-- The link that a statement makes, if it names a module. -/
def link? (file : SourceFile) (statement : Node) : Option Link :=
  (linkKind? statement).bind fun kind ↦
    (statement.field? "source").map fun source ↦
      { kind
        specifier := file.nameText source
        names := statement.children.flatMap file.linkedNames
        wildcard := statement.children.any fun child ↦ child.kind == "*" }

/-- The links of a file, in source order. -/
def links (file : SourceFile) : List Link :=
  file.root.namedChildren.filterMap file.link?

end SourceFile

end PropDoc
