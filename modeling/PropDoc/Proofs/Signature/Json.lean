import PropDoc.Signature.Printer

/-!
# Reading signatures from JSON

A signature is read back from the object it is written as. The members of the object are read from
the front and those left over are kept, so that the flag after the type of a property is left over
there. A reference that is named like a keyword is written like the keyword, and is the only
signature that is not read back.
-/

namespace PropDoc

namespace Json

/-- No object in a value has a key twice. -/
inductive DistinctKeys : Json → Prop where
  | null : DistinctKeys null
  | bool (value : Bool) : DistinctKeys (bool value)
  | number (value : Int) : DistinctKeys (number value)
  | string (value : String) : DistinctKeys (string value)
  | array {items : List Json} : (∀ item ∈ items, DistinctKeys item) → DistinctKeys (array items)
  | object {members : List (String × Json)} :
      (members.map Prod.fst).Nodup → (∀ member ∈ members, DistinctKeys member.2) →
      DistinctKeys (object members)

end Json

/-- The key that a value writes. -/
def PropertyKey.ofJson? : Json → Option PropertyKey
  | .string text => some (.name text)
  | .object [("name", .string type)] => some (.index type)
  | _ => none

namespace Signature

/-- The words that a signature without further parts is written as, besides references. -/
def keywords : List String := ["string", "number", "boolean", "any", "void", "unknown"]

/-- The signature that is written as a name alone. -/
def ofName (name : String) : Signature :=
  match Primitive.ofWord? name with
  | some type => .primitive type
  | none => if name = "unknown" then .unknown else .reference name

/-- The signature of some elements that is written under a name. -/
def ofElements? (name : String) (elements : List Signature) : Option Signature :=
  match name, elements with
  | "union", elements => some (.union elements)
  | "tuple", elements => some (.tuple elements)
  | "Array", [element] => some (.array element)
  | _, _ => none

mutual

/-- The signature that the first of some members write, and the members after them. -/
def ofMembers? : List (String × Json) → Option (Signature × List (String × Json))
  | ("name", .string name) :: ("value", .string text) :: rest =>
    if name = "literal" then some (.literal text, rest) else none
  | ("name", .string name) :: ("elements", .array items) :: rest =>
    ((ofItems? items).bind (ofElements? name)).map fun signature ↦ (signature, rest)
  | ("name", .string _) :: ("type", .string "function") ::
      ("signature", .object [("arguments", .array items), ("return", .object returns)]) ::
      rest =>
    (ofArguments? items).bind fun arguments ↦
      (ofMembers? returns).map fun read ↦ (.function arguments read.1, rest)
  | ("name", .string _) :: ("type", .string "object") ::
      ("signature", .object [("properties", .array items)]) :: rest =>
    (ofProperties? items).map fun properties ↦ (.object properties, rest)
  | ("name", .string name) :: rest => some (ofName name, rest)
  | _ => none

/-- The signatures that some items write. -/
def ofItems? : List Json → Option (List Signature)
  | [] => some []
  | .object members :: items =>
    (ofMembers? members).bind fun read ↦ (ofItems? items).map fun rest ↦ read.1 :: rest
  | _ => none

/-- The parameters that some items write. -/
def ofArguments? : List Json → Option (List (Argument Signature))
  | [] => some []
  | .object [("name", .string name), ("type", .object members)] :: items =>
    (ofMembers? members).bind fun read ↦
      (ofArguments? items).map fun rest ↦ ⟨name, read.1⟩ :: rest
  | _ => none

/-- The members of an object type that some items write. -/
def ofProperties? : List Json → Option (List (Property Signature))
  | [] => some []
  | .object [("key", key), ("value", .object members)] :: items =>
    match PropertyKey.ofJson? key, ofMembers? members with
    | some key, some (type, [("required", .bool required)]) =>
      (ofProperties? items).map fun rest ↦ ⟨key, required, type⟩ :: rest
    | _, _ => none
  | _ => none

end

/-- The signature that a value writes. -/
def ofJson? : Json → Option Signature
  | .object members =>
    match ofMembers? members with
    | some (signature, []) => some signature
    | _ => none
  | _ => none

mutual

/-- The names of the references in a signature. -/
def references : Signature → List String
  | primitive _ => []
  | literal _ => []
  | reference text => [text]
  | union elements => referencesIn elements
  | array element => element.references
  | tuple elements => referencesIn elements
  | function arguments returns => argumentReferences arguments ++ returns.references
  | object properties => propertyReferences properties
  | unknown => []

/-- The names of the references in some signatures. -/
def referencesIn : List Signature → List String
  | [] => []
  | element :: elements => element.references ++ referencesIn elements

/-- The names of the references in some parameters. -/
def argumentReferences : List (Argument Signature) → List String
  | [] => []
  | ⟨_, type⟩ :: arguments => type.references ++ argumentReferences arguments

/-- The names of the references in some members of an object type. -/
def propertyReferences : List (Property Signature) → List String
  | [] => []
  | ⟨_, _, type⟩ :: properties => type.references ++ propertyReferences properties

end

/-- Members that may follow those of a signature: none, or the flag of a property. -/
def Leftover (rest : List (String × Json)) : Prop :=
  rest = [] ∨ ∃ required, rest = [("required", .bool required)]

/-- No name of some is that of a keyword. -/
def Free (names : List String) : Prop := ∀ name ∈ names, name ∉ keywords

private theorem free_append_iff (first second : List String) :
    Free (first ++ second) ↔ Free first ∧ Free second :=
  List.forall_mem_append

private theorem ofJson?_toJson_key (key : PropertyKey) :
    PropertyKey.ofJson? key.toJson = some key := by
  cases key <;> rfl

private theorem ofMembers?_name {rest : List (String × Json)} (h : Leftover rest)
    (name : String) : ofMembers? (("name", .string name) :: rest) = some (ofName name, rest) := by
  rcases h with rfl | ⟨required, rfl⟩ <;> simp [ofMembers?]

/-- The word of a primitive type is read as that type. -/
theorem ofName_word (type : Primitive) : ofName type.word = .primitive type := by
  cases type <;> rfl

/-- A name that is no keyword is read as a reference. -/
theorem ofName_of_free {name : String} (h : name ∉ keywords) :
    ofName name = .reference name := by
  simp only [keywords, List.mem_cons, List.not_mem_nil, or_false, not_or] at h
  obtain ⟨hstring, hnumber, hboolean, hany, hvoid, hunknown⟩ := h
  have hword : Primitive.ofWord? name = none := by
    simp [Primitive.ofWord?, Primitive.word, Ne.symm hstring, Ne.symm hnumber, Ne.symm hboolean,
      Ne.symm hany, Ne.symm hvoid]
  rw [ofName, hword]
  exact if_neg hunknown

mutual

private theorem ofMembers?_members :
    ∀ (signature : Signature), Free signature.references →
      ∀ rest, Leftover rest → ofMembers? (signature.members ++ rest) = some (signature, rest)
  | primitive type, _, rest, hrest => by
    rw [members, List.singleton_append, ofMembers?_name hrest, ofName_word]
  | literal text, _, rest, _ => by
    simp [members, ofMembers?]
  | reference text, hfree, rest, hrest => by
    rw [members, List.singleton_append, ofMembers?_name hrest,
      ofName_of_free (hfree text (by simp [references]))]
  | union elements, hfree, rest, _ => by
    have helements := ofItems?_jsonAll elements hfree
    simp [members, ofMembers?, helements, ofElements?]
  | array element, hfree, rest, _ => by
    have helement := ofMembers?_members element hfree [] (.inl rfl)
    rw [List.append_nil] at helement
    simp [members, ofMembers?, ofItems?, helement, ofElements?]
  | tuple elements, hfree, rest, _ => by
    have helements := ofItems?_jsonAll elements hfree
    simp [members, ofMembers?, helements, ofElements?]
  | function arguments returns, hfree, rest, _ => by
    rw [references, free_append_iff] at hfree
    have harguments := ofArguments?_argumentsJson arguments hfree.1
    have hreturns := ofMembers?_members returns hfree.2 [] (.inl rfl)
    rw [List.append_nil] at hreturns
    simp [members, ofMembers?, harguments, hreturns]
  | object properties, hfree, rest, _ => by
    have hproperties := ofProperties?_propertiesJson properties hfree
    simp [members, ofMembers?, hproperties]
  | unknown, _, rest, hrest => by
    rw [members, List.singleton_append, ofMembers?_name hrest]
    rfl

private theorem ofItems?_jsonAll :
    ∀ (elements : List Signature), Free (referencesIn elements) →
      ofItems? (jsonAll elements) = some elements
  | [], _ => by rw [jsonAll, ofItems?]
  | element :: elements, hfree => by
    rw [referencesIn, free_append_iff] at hfree
    have helement := ofMembers?_members element hfree.1 [] (.inl rfl)
    rw [List.append_nil] at helement
    rw [jsonAll, ofItems?, helement, ofItems?_jsonAll elements hfree.2]
    rfl

private theorem ofArguments?_argumentsJson :
    ∀ (arguments : List (Argument Signature)), Free (argumentReferences arguments) →
      ofArguments? (argumentsJson arguments) = some arguments
  | [], _ => by rw [argumentsJson, ofArguments?]
  | ⟨name, type⟩ :: arguments, hfree => by
    rw [argumentReferences, free_append_iff] at hfree
    have htype := ofMembers?_members type hfree.1 [] (.inl rfl)
    rw [List.append_nil] at htype
    rw [argumentsJson, ofArguments?, htype, ofArguments?_argumentsJson arguments hfree.2]
    rfl

private theorem ofProperties?_propertiesJson :
    ∀ (properties : List (Property Signature)), Free (propertyReferences properties) →
      ofProperties? (propertiesJson properties) = some properties
  | [], _ => by rw [propertiesJson, ofProperties?]
  | ⟨key, required, type⟩ :: properties, hfree => by
    rw [propertyReferences, free_append_iff] at hfree
    have htype := ofMembers?_members type hfree.1 [("required", .bool required)] (.inr ⟨_, rfl⟩)
    rw [propertiesJson, ofProperties?, ofJson?_toJson_key, htype,
      ofProperties?_propertiesJson properties hfree.2]
    rfl

end

/-- A signature is read back from what it is written as, unless it holds a reference that is named
like a keyword. -/
theorem ofJson?_toJson {signature : Signature} (h : Free signature.references) :
    ofJson? signature.toJson = some signature := by
  have hmembers := ofMembers?_members signature h [] (.inl rfl)
  rw [List.append_nil] at hmembers
  rw [toJson, ofJson?, hmembers]

/-! ### Keys -/

private theorem nodup_keys (signature : Signature) :
    (signature.members.map Prod.fst).Nodup ∧ "required" ∉ signature.members.map Prod.fst := by
  cases signature <;> simp [members]

private theorem distinctKeys_of_members {signature : Signature}
    (h : ∀ member ∈ signature.members, member.2.DistinctKeys) :
    (Json.object signature.members).DistinctKeys :=
  .object (nodup_keys signature).1 h

private theorem distinctKeys_of_property {signature : Signature}
    (h : ∀ member ∈ signature.members, member.2.DistinctKeys) (required : Bool) :
    (Json.object (signature.members ++ [("required", .bool required)])).DistinctKeys := by
  obtain ⟨hnodup, hfresh⟩ := nodup_keys signature
  constructor
  · rw [List.map_append, List.map_singleton, List.nodup_append]
    refine ⟨hnodup, by simp, ?_⟩
    intro key hkey flag hflag heq
    rw [heq, List.mem_singleton.mp hflag] at hkey
    exact hfresh hkey
  · intro member hmember
    rcases List.mem_append.mp hmember with hold | hflag
    · exact h member hold
    · rw [List.mem_singleton.mp hflag]
      exact .bool required

private theorem distinctKeys_key (key : PropertyKey) : key.toJson.DistinctKeys := by
  cases key with
  | name text => exact .string text
  | index type => exact .object (by simp) (by simp [Json.DistinctKeys.string])

mutual

private theorem distinctKeys_members :
    ∀ (signature : Signature), ∀ member ∈ signature.members, member.2.DistinctKeys
  | primitive _ => by simp [members, Json.DistinctKeys.string]
  | literal _ => by simp [members, Json.DistinctKeys.string]
  | reference _ => by simp [members, Json.DistinctKeys.string]
  | unknown => by simp [members, Json.DistinctKeys.string]
  | union elements => by
    have helements := Json.DistinctKeys.array (distinctKeys_jsonAll elements)
    simp [members, Json.DistinctKeys.string, helements]
  | tuple elements => by
    have helements := Json.DistinctKeys.array (distinctKeys_jsonAll elements)
    simp [members, Json.DistinctKeys.string, helements]
  | array element => by
    have helement := distinctKeys_of_members (distinctKeys_members element)
    have helements : (Json.array [.object element.members]).DistinctKeys :=
      .array (by simpa using helement)
    simp [members, Json.DistinctKeys.string, helements]
  | function arguments returns => by
    have harguments := Json.DistinctKeys.array (distinctKeys_argumentsJson arguments)
    have hreturns := distinctKeys_of_members (distinctKeys_members returns)
    have hsignature : (Json.object [("arguments", .array (argumentsJson arguments)),
        ("return", .object returns.members)]).DistinctKeys :=
      .object (by simp) (by simp [harguments, hreturns])
    simp [members, Json.DistinctKeys.string, hsignature]
  | object properties => by
    have hproperties := Json.DistinctKeys.array (distinctKeys_propertiesJson properties)
    have hsignature :
        (Json.object [("properties", .array (propertiesJson properties))]).DistinctKeys :=
      .object (by simp) (by simp [hproperties])
    simp [members, Json.DistinctKeys.string, hsignature]

private theorem distinctKeys_jsonAll :
    ∀ (elements : List Signature), ∀ item ∈ jsonAll elements, item.DistinctKeys
  | [] => by simp [jsonAll]
  | element :: elements => by
    rw [jsonAll, List.forall_mem_cons]
    exact ⟨distinctKeys_of_members (distinctKeys_members element), distinctKeys_jsonAll elements⟩

private theorem distinctKeys_argumentsJson :
    ∀ (arguments : List (Argument Signature)), ∀ item ∈ argumentsJson arguments, item.DistinctKeys
  | [] => by simp [argumentsJson]
  | ⟨name, type⟩ :: arguments => by
    rw [argumentsJson, List.forall_mem_cons]
    have htype := distinctKeys_of_members (distinctKeys_members type)
    refine ⟨.object (by simp) ?_, distinctKeys_argumentsJson arguments⟩
    simp [Json.DistinctKeys.string, htype]

private theorem distinctKeys_propertiesJson :
    ∀ (properties : List (Property Signature)),
      ∀ item ∈ propertiesJson properties, item.DistinctKeys
  | [] => by simp [propertiesJson]
  | ⟨key, required, type⟩ :: properties => by
    rw [propertiesJson, List.forall_mem_cons]
    have htype := distinctKeys_of_property (distinctKeys_members type) required
    refine ⟨.object (by simp) ?_, distinctKeys_propertiesJson properties⟩
    simp [distinctKeys_key key, htype]

end

/-- No object that a signature is written with has a key twice. -/
theorem distinctKeys_toJson (signature : Signature) : signature.toJson.DistinctKeys :=
  distinctKeys_of_members (distinctKeys_members signature)

end Signature

end PropDoc
