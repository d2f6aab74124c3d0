import PropDoc.Documentation
import PropDoc.FileSystem
import PropDoc.Glob
import PropDoc.SourceFile.Basic
import PropDoc.Text.Basic
import PropDoc.Text.Hex
import PropDoc.Yaml.Node

/-!
# Configurations

Which files are documented and which tags are known, when that makes sense, and how it is found and
read from a file.
-/

namespace PropDoc

/-! ### Settings

Every setting has a default. A configuration is valid if its extensions can be read, its tags can
be written in comments and its patterns can be matched; the first thing that is not so is reported.
-/

/-- The settings of a run. -/
structure Config where
  /-- The extensions of the files that are documented. -/
  extensions : List String := ["ts", "tsx"]
  /-- Patterns of paths that are left out. -/
  excludedPaths : List String := []
  /-- Whether a props type that nothing declares is an error. -/
  strictTypes : Bool := true
  /-- Whether the output is indented. -/
  pretty : Bool := false
  /-- Tags beside the standard ones. -/
  tags : List Comment.Tag := []
  deriving DecidableEq

/-- Why a configuration is not valid. -/
inductive ConfigProblem where
  | noExtensions
  | unsupportedExtension (extension : String)
  | invalidTagName (name : String)
  | invalidPattern (pattern : String) (problem : Glob.Problem)
  deriving DecidableEq

/-- The problem in words. -/
def ConfigProblem.message : ConfigProblem → String
  | noExtensions => "extensions must not be empty"
  | unsupportedExtension extension =>
    "unsupported extension " ++ Text.quoted extension ++ ", must be one of: " ++
      String.intercalate ", " (Dialect.byExtension.map Prod.fst)
  | invalidTagName name =>
    "invalid tag name " ++ Text.quoted name ++ ", must be '@' followed by letters or digits"
  | invalidPattern pattern problem =>
    "invalid excluded_paths pattern " ++ Text.quoted pattern ++ ": " ++ problem.message pattern

namespace Config

/-- Whether files with an extension are documented. -/
def handles (config : Config) (extension : String) : Bool := config.extensions.contains extension

/-- Whether a path is left out. A pattern that cannot be read leaves out nothing. -/
def excludes (config : Config) (path : String) : Bool :=
  config.excludedPaths.any fun pattern ↦ Glob.isMatch pattern path

/-- The standard tags and the configured ones. -/
def tagSet (config : Config) : Comment.TagSet := .withCustom config.tags

/-- What the configuration says about documentation. -/
def docOptions (config : Config) : DocOptions := ⟨config.tagSet, config.strictTypes⟩

/-- Whether a name is an at sign, a letter, and letters and digits, all of them ASCII. -/
def isTagName (name : String) : Bool :=
  match name.toList with
  | '@' :: first :: rest => first.isAlpha && rest.all Char.isAlphanum
  | _ => false

/-- What is wrong with a pattern. -/
def patternProblem? (pattern : String) : Option ConfigProblem :=
  match Glob.parse pattern with
  | .ok _ => none
  | .error problem => some (.invalidPattern pattern problem)

/-- The first thing that is wrong with a configuration. -/
def problem? (config : Config) : Option ConfigProblem :=
  if config.extensions.isEmpty then some .noExtensions
  else
    ((config.extensions.find? fun extension ↦ (Dialect.ofExtension? extension).isNone).map
        ConfigProblem.unsupportedExtension).or <|
      ((config.tags.find? fun tag ↦ !isTagName tag.name).map fun tag ↦
        ConfigProblem.invalidTagName tag.name).or <|
        config.excludedPaths.findSome? patternProblem?

/-- Accept a configuration, or say what is wrong with it. -/
def validate (config : Config) : Except ConfigProblem Unit :=
  match config.problem? with
  | some problem => .error problem
  | none => .ok ()

end Config

/-! ### Reading configurations

A configuration file is a YAML mapping from setting names to values. Settings that are not given
have their defaults, unknown ones are ignored, and a known one that is given twice is refused, as
is a value of the wrong kind.
-/

namespace Yaml.Node

/-- A scalar as text, however it is written. -/
def text? : Node → Option String
  | scalar text _ => some text
  | sequence _ => none
  | mapping _ => none

/-- A boolean word. In quotes it is a text. -/
def bool? : Node → Option Bool
  | scalar text true =>
    if ["true", "True", "TRUE"].contains text then some true
    else if ["false", "False", "FALSE"].contains text then some false
    else none
  | _ => none

/-- The items of a sequence. Where nothing is written there are none. -/
def items? : Node → Option (List Node)
  | sequence items => some items
  | scalar "" true => some []
  | _ => none

/-- The entries of a mapping by key. Where nothing is written there are none. -/
def fields? : Node → Option (List (String × Node))
  | mapping entries => entries.mapM fun entry ↦ entry.1.text?.map fun key ↦ (key, entry.2)
  | scalar "" true => some []
  | _ => none

/-- A sequence of texts. -/
def texts? (node : Node) : Option (List String) := node.items?.bind fun items ↦ items.mapM text?

end Yaml.Node

open Yaml

/-- The value of a field that may be given once. -/
def oneField? (fields : List (String × Node)) (name : String) : Option (Option Node) :=
  match fields.filter fun field ↦ field.1 == name with
  | [] => some none
  | [field] => some (some field.2)
  | _ => none

/-- The value of a field that has to be given. -/
def fieldValue? (fields : List (String × Node)) (name : String) (read : Node → Option α) :
    Option α := do
  (← oneField? fields name).bind read

/-- The value of a field, or a default if it is not given. -/
def fieldValueOr? (fields : List (String × Node)) (name : String) (fallback : α)
    (read : Node → Option α) : Option α := do
  match ← oneField? fields name with
  | none => return fallback
  | some node => read node

namespace Comment.Tag

/-- A tag definition. The form has to be given, the binding need not be. -/
def ofNode? (node : Node) : Option Tag := do
  let fields ← node.fields?
  return {
    name := ← fieldValue? fields "name" Node.text?
    form := ← fieldValue? fields "syntax" fun value ↦ value.text?.bind TagForm.ofWord?
    binding := ← fieldValueOr? fields "binding" .text fun value ↦
      value.text?.bind Binding.ofWord? }

end Comment.Tag

namespace Config

/-- The configuration that a document holds. -/
def ofNode? (node : Node) : Option Config := do
  let fields ← node.fields?
  let defaults : Config := {}
  return {
    extensions := ← fieldValueOr? fields "extensions" defaults.extensions Node.texts?
    excludedPaths := ← fieldValueOr? fields "excluded_paths" defaults.excludedPaths Node.texts?
    strictTypes :=
      ← fieldValueOr? fields "strict_type_references" defaults.strictTypes Node.bool?
    pretty := ← fieldValueOr? fields "pretty" defaults.pretty Node.bool?
    tags := ← fieldValueOr? fields "tags" defaults.tags fun value ↦
      value.items?.bind fun items ↦ items.mapM Comment.Tag.ofNode? }

/-- The configuration that a text holds. A blank text holds the defaults. -/
def parse? (text : String) : Option Config :=
  if Text.allBlank text.toList then some {} else (Yaml.parse? text).bind ofNode?

end Config

/-! ### Finding the configuration

The configuration is read from the file that was named, or else from the first of two files in the
working directory that is there; without either, everything has its default. A configuration that
was read also has to be valid.
-/

/-- Why a configuration cannot be used. -/
inductive ConfigError where
  /-- The file cannot be read. -/
  | unreadable (path : Path) (fault : Fault)
  /-- The file does not hold text. -/
  | notText (path : Path)
  /-- The text is no configuration. -/
  | malformed (path : Path)
  | invalid (problem : ConfigProblem)
  deriving DecidableEq

/-- The error in words. -/
def ConfigError.message : ConfigError → String
  | unreadable path fault => "failed to parse config " ++ path.text ++ ": " ++ fault.message
  | notText path => "failed to parse config " ++ path.text ++ ": stream did not contain valid UTF-8"
  | malformed path => "failed to parse config " ++ path.text ++ ": not a configuration"
  | invalid problem => "invalid config: " ++ problem.message

namespace Config

/-- The names of configuration files, in the order they are looked for. -/
def fileNames : List String := ["react-tsdoc.yaml", ".react-tsdoc.yaml"]

/-- The configuration file of a directory. -/
def fileIn? (fs : FileSystem) (directory : Path) : Option Path :=
  (fileNames.map fun name ↦ directory.join ⟨name⟩).find? fs.isFile

/-- Read a configuration file, which is named as it was given. -/
def readFile (fs : FileSystem) (directory path : Path) : Except ConfigError Config :=
  match fs.read (directory.join path) with
  | .error fault => .error (.unreadable path fault)
  | .ok content =>
    match String.fromUTF8? content.bytes with
    | none => .error (.notText path)
    | some text =>
      match parse? text with
      | none => .error (.malformed path)
      | some config => .ok config

/-- Accept a configuration if it is valid. -/
def requireValid (config : Config) : Except ConfigError Config :=
  match config.problem? with
  | none => .ok config
  | some problem => .error (.invalid problem)

/-- The configuration for a working directory, and the file it came from. -/
def load (fs : FileSystem) (directory : Path) (named : Option Path) :
    Except ConfigError (Config × Option Path) :=
  match named.or (fileIn? fs directory) with
  | none => .ok ({}, none)
  | some path => do
    let config ← readFile fs directory path
    return (← config.requireValid, some path)

end Config

end PropDoc
