import PropDoc.Json
import PropDoc.Signature.Basic

/-!
# Writing signatures

A signature is written as text for reports and as a JSON value for the documentation.
-/

namespace PropDoc

/-! ### Signatures as text

A signature is written the way its type would be in TypeScript. A union or a function that is the
element of an array stands in parentheses.
-/

/-- The key of a member as it is written in an object type. -/
def PropertyKey.text : PropertyKey → String
  | name text => text
  | index type => "[key: " ++ type ++ "]"

namespace Signature

/-- Whether a signature stands in parentheses as the element of an array. -/
def needsParentheses : Signature → Bool
  | union _ => true
  | function .. => true
  | _ => false

mutual

/-- A signature as text. -/
def text : Signature → String
  | primitive type => type.word
  | literal text => text
  | reference text => text
  | union elements => String.intercalate " | " (texts elements)
  | array element =>
    if element.needsParentheses then "(" ++ element.text ++ ")[]" else element.text ++ "[]"
  | tuple elements => "[" ++ String.intercalate ", " (texts elements) ++ "]"
  | function arguments returns =>
    "(" ++ String.intercalate ", " (argumentTexts arguments) ++ ") => " ++ returns.text
  | object [] => "\x7b\x7d"
  | object (property :: properties) =>
    "\x7b " ++ String.intercalate "; " (propertyTexts (property :: properties)) ++ " \x7d"
  | unknown => "unknown"

/-- Some signatures as texts. -/
def texts : List Signature → List String
  | [] => []
  | element :: elements => element.text :: texts elements

/-- The parameters of a function as texts. -/
def argumentTexts : List (Argument Signature) → List String
  | [] => []
  | ⟨name, type⟩ :: arguments => (name ++ ": " ++ type.text) :: argumentTexts arguments

/-- The members of an object as texts. -/
def propertyTexts : List (Property Signature) → List String
  | [] => []
  | ⟨key, required, type⟩ :: properties =>
    (key.text ++ (if required then "" else "?") ++ ": " ++ type.text) :: propertyTexts properties

end

end Signature

/-! ### Signatures as JSON

Every signature is an object whose first member is its short name. A member of an object type is
written as the object of its own type with a last member that says whether it is required.
-/

/-- A key as JSON: a name as a string, an index as an object with the type of the keys. -/
def PropertyKey.toJson : PropertyKey → Json
  | name text => .string text
  | index type => .object [("name", .string type)]

namespace Signature

mutual

/-- The members of the object that a signature is written as. -/
def members : Signature → List (String × Json)
  | primitive type => [("name", .string type.word)]
  | literal text => [("name", .string "literal"), ("value", .string text)]
  | reference text => [("name", .string text)]
  | union elements => [("name", .string "union"), ("elements", .array (jsonAll elements))]
  | array element =>
    [("name", .string "Array"), ("elements", .array [.object element.members])]
  | tuple elements => [("name", .string "tuple"), ("elements", .array (jsonAll elements))]
  | function arguments returns =>
    [("name", .string "signature"), ("type", .string "function"),
     ("signature", .object
      [("arguments", .array (argumentsJson arguments)), ("return", .object returns.members)])]
  | object properties =>
    [("name", .string "signature"), ("type", .string "object"),
     ("signature", .object [("properties", .array (propertiesJson properties))])]
  | unknown => [("name", .string "unknown")]

/-- Some signatures as JSON. -/
def jsonAll : List Signature → List Json
  | [] => []
  | element :: elements => .object element.members :: jsonAll elements

/-- The parameters of a function as JSON. -/
def argumentsJson : List (Argument Signature) → List Json
  | [] => []
  | ⟨name, type⟩ :: arguments =>
    .object [("name", .string name), ("type", .object type.members)] :: argumentsJson arguments

/-- The members of an object type as JSON. -/
def propertiesJson : List (Property Signature) → List Json
  | [] => []
  | ⟨key, required, type⟩ :: properties =>
    .object [("key", key.toJson),
      ("value", .object (type.members ++ [("required", .bool required)]))]
      :: propertiesJson properties

end

/-- A signature as JSON. -/
def toJson (signature : Signature) : Json := .object signature.members

end Signature

end PropDoc
