import PropDoc.Proofs.Project.TypeLookup
import PropDoc.Proofs.Signature.Parentheses
import PropDoc.Props

/-!
# References with type arguments

A props type may be referred to by a plain name or by a qualified one, with type arguments or
without. Type arguments after a plain name make no difference. A qualified name stands for its last
part, but not before type arguments: there the whole of it is looked up, dots included, and since no
declaration and no import has a dot in its name, nothing is found.
-/

namespace PropDoc

open PropDoc.Syntax

/-- No declaration of the project or of a file has a dot in its name, and neither has a name that
the file imports. -/
structure Project.PlainNames (project : Project) (file : SourceFile) : Prop where
  declared : ∀ other ∈ file :: project.files, ∀ name, other.Declares name → '.' ∉ name.toList
  imported : ∀ link ∈ file.links, link.kind = .brings → ∀ linked ∈ link.names,
    '.' ∉ linked.here.toList

/-- A name with a qualifier before its last part, which has no dot itself. -/
structure SourceFile.Qualifies (file : SourceFile) (reference : Node) : Prop where
  kind : reference.kind = "nested_type_identifier"
  dotted : '.' ∈ (file.text reference).toList
  last : ∀ last, reference.field? "name" = some last → '.' ∉ (file.text last).toList

namespace ParameterType

/-- The file that declares the members, unless they are written in place. -/
def owner? : ParameterType → Option SourceFile
  | inPlace _ => none
  | declared _ _ file => some file

/-- Two answers are the same: the same members in the same file, no type both times, or the same
name that nothing declares. -/
inductive SameAnswer :
    Except Error (Option ParameterType) → Except Error (Option ParameterType) → Prop where
  | members {type type' : ParameterType} : type.members = type'.members →
      type.owner? = type'.owner? → SameAnswer (.ok (some type)) (.ok (some type'))
  | nothing : SameAnswer (.ok none) (.ok none)
  | unresolved {path path' : Path} {name : String} :
      SameAnswer (.error (.unresolvedType path name)) (.error (.unresolvedType path' name))

/-- The answer for a name that nothing declares. -/
def notFound (file : SourceFile) (strict : Bool) (name : String) :
    Except Error (Option ParameterType) :=
  if strict then .error (.unresolvedType file.path name) else .ok none

variable {project : Project} {file : SourceFile} {strict : Bool} {name : String}

/-! ### Names with dots -/

private theorem importOf?_of_dot (h : project.PlainNames file) (hdot : '.' ∈ name.toList) :
    Project.importOf? file name = none := by
  rw [Project.importOf?, List.findSome?_eq_none_iff]
  intro link hlink
  obtain ⟨hmem, hkind⟩ := List.mem_filter.mp hlink
  rw [Option.map_eq_none_iff, Link.there?, Option.map_eq_none_iff, List.find?_eq_none]
  intro linked hlinked hhere
  have hplain := h.imported link hmem (of_decide_eq_true hkind) linked hlinked
  rw [beq_iff_eq.mp hhere] at hplain
  exact hplain hdot

/-- A name with a dot means nothing in a project of plain names. -/
theorem findType?_of_dot (h : project.PlainNames file) (hdot : '.' ∈ name.toList) :
    project.findType? file name = none := by
  have hown : ∀ other ∈ file :: project.files, Project.ownType? other name = none := by
    intro other hother
    rw [Project.ownType?_eq_none_iff]
    exact fun hdeclares ↦ h.declared other hother name hdeclares hdot
  have hany : project.anyType? name = none := by
    rw [Project.anyType?, List.findSome?_eq_none_iff]
    exact fun other hother ↦ hown other (List.mem_cons_of_mem file hother)
  rw [Project.findType?, hown file List.mem_cons_self, importOf?_of_dot h hdot, hany]
  rfl

private theorem lookUp_of_dot (h : project.PlainNames file) (hdot : '.' ∈ name.toList) :
    lookUp project file strict name = notFound file strict name := by
  rw [lookUp, findType?_of_dot h hdot, notFound]

/-! ### References -/

variable {function reference type : Node}

private theorem ofFunction_of_plain (htype : propsType? function = some reference)
    (hkind : reference.kind = "type_identifier") :
    ofFunction project file strict function =
      lookUp project file strict (file.text reference) := by
  simp [ofFunction, htype, hkind, referenceName?]

private theorem ofFunction_of_named {node : Node} (htype : propsType? function = some type)
    (hkind : type.kind = "generic_type" ∨ type.kind = "nested_type_identifier")
    (hname : type.field? "name" = some node) :
    ofFunction project file strict function = lookUp project file strict (file.text node) := by
  rcases hkind with hkind | hkind <;> simp [ofFunction, htype, hkind, referenceName?, hname]

private theorem ofFunction_of_unnamed (htype : propsType? function = some reference)
    (hkind : reference.kind = "nested_type_identifier") (hname : reference.field? "name" = none) :
    ofFunction project file strict function = .ok none := by
  simp [ofFunction, htype, hkind, referenceName?, hname]

-- What is not found under a name with a dot is the same answer as for a name without one only if
-- both are no error.
private theorem sameAnswer_notFound_iff {answer : Except Error (Option ParameterType)}
    (hother : ∀ path other, answer = .error (.unresolvedType path other) → other ≠ name) :
    SameAnswer answer (notFound file strict name) ↔ strict = false ∧ answer = .ok none := by
  cases strict with
  | true =>
    rw [notFound, if_pos rfl]
    constructor
    · rintro ⟨⟩
      exact absurd rfl (hother _ _ rfl)
    · rintro ⟨hstrict, -⟩
      cases hstrict
  | false =>
    rw [notFound, if_neg Bool.false_ne_true]
    constructor
    · rintro ⟨⟩
      exact ⟨rfl, rfl⟩
    · rintro ⟨-, rfl⟩
      exact .nothing

private theorem eq_of_lookUp_eq_error {path : Path} {other : String}
    (h : lookUp project file strict name = .error (.unresolvedType path other)) :
    other = name := by
  rw [lookUp] at h
  split at h
  · cases h
  · split at h
    · cases h
      rfl
    · cases h

/-- How type arguments bear on the declaration that a props reference names. After a plain name they
make no difference. A qualified name means its last part without type arguments, but with them it is
looked up as a whole and not found; so the answer is the same only where nothing is found without
them either and that is no error. -/
theorem ofFunction_typeArguments {plain generic : Node}
    (hplain : propsType? plain = some reference) (hgeneric : propsType? generic = some type)
    (hkind : type.kind = "generic_type")
    (hname : type.field? "name" = some (reference.withField "name"))
    (project : Project) (file : SourceFile) (strict : Bool) :
    (reference.kind = "type_identifier" →
      ofFunction project file strict generic = ofFunction project file strict plain) ∧
    (reference.kind = "nested_type_identifier" → ∀ last, reference.field? "name" = some last →
      ofFunction project file strict plain = lookUp project file strict (file.text last)) ∧
    (file.Qualifies reference → project.PlainNames file →
      ofFunction project file strict generic = notFound file strict (file.text reference) ∧
      (SameAnswer (ofFunction project file strict plain) (ofFunction project file strict generic) ↔
        strict = false ∧ ofFunction project file strict plain = .ok none)) := by
  have hwhole : ofFunction project file strict generic =
      lookUp project file strict (file.text reference) := by
    rw [ofFunction_of_named hgeneric (.inl hkind) hname, SourceFile.text, Node.text_withField]
    rfl
  refine ⟨fun hplainKind ↦ ?_, fun hnested last hlast ↦ ?_, fun hqualified hnames ↦ ?_⟩
  · rw [hwhole, ofFunction_of_plain hplain hplainKind]
  · exact ofFunction_of_named hplain (.inr hnested) hlast
  · rw [hwhole, lookUp_of_dot hnames hqualified.dotted]
    refine ⟨rfl, sameAnswer_notFound_iff ?_⟩
    intro path other herror
    cases hlast : reference.field? "name" with
    | none =>
      rw [ofFunction_of_unnamed hplain hqualified.kind hlast] at herror
      cases herror
    | some last =>
      rw [ofFunction_of_named hplain (.inr hqualified.kind) hlast] at herror
      rw [eq_of_lookUp_eq_error herror]
      intro hwhole
      exact hqualified.last last hlast (hwhole ▸ hqualified.dotted)

/-! ### A qualified name with type arguments -/

/-- A function whose parameter, the only one, is annotated with a type. -/
def annotatedWith (type : Node) : Node :=
  .mk { kind := "function_declaration", field := "declaration", start := 37, stop := 71 } [
    .mk { kind := "identifier", field := "name", start := 46, stop := 47 } [],
    .mk { kind := "formal_parameters", field := "parameters", start := 47, stop := 68 } [
      .mk { kind := "required_parameter", start := 48, stop := 67 } [
        .mk { kind := "identifier", field := "pattern", start := 48, stop := 49 } [],
        .mk { kind := "type_annotation", field := "type", start := 49, stop := 67 } [type]]]]

/-- The name `NS.Props`. -/
def qualifiedProps : Node :=
  .mk { kind := "nested_type_identifier", start := 51, stop := 59 } [
    .mk { kind := "identifier", field := "module", start := 51, stop := 53 } [],
    .mk { kind := ".", named := false, start := 53, stop := 54 } [],
    .mk { kind := "type_identifier", field := "name", start := 54, stop := 59 } []]

/-- The name `Props` alone. -/
def plainProps : Node := .mk { kind := "type_identifier", start := 54, stop := 59 } []

/-- A name with the type argument `string`. -/
def withArgument (name : Node) : Node :=
  .mk { kind := "generic_type", start := name.start, stop := 67 } [
    name.withField "name",
    .mk { kind := "type_arguments", field := "type_arguments", start := 59, stop := 67 } [
      .mk { kind := "predefined_type", start := 60, stop := 66 } []]]

/-- A file that declares `Props` and refers to it with a qualifier and a type argument. -/
def qualifiedFile : SourceFile where
  path := ⟨"A.tsx"⟩
  source := .ofString
    "interface Props \x7b a: string \x7d\nexport function A(p: NS.Props<string>) \x7b\x7d\n"
  root := .mk { kind := "program", stop := 72 } [
    .mk { kind := "interface_declaration", stop := 29 } [
      .mk { kind := "type_identifier", field := "name", start := 10, stop := 15 } [],
      .mk { kind := "interface_body", field := "body", start := 16, stop := 29 } []],
    .mk { kind := "export_statement", start := 30, stop := 71 } [
      annotatedWith (withArgument qualifiedProps)]]

/-- The project of that file. -/
def qualifiedProject : Project := ⟨⟨""⟩, [qualifiedFile], 1⟩

private theorem plainNames_qualifiedProject : qualifiedProject.PlainNames qualifiedFile where
  declared := by
    have hnames : ∀ name ∈ qualifiedFile.typeDeclarations.map qualifiedFile.typeName?,
        name = some "Props" := by
      decide +kernel
    intro other hother name hdeclares
    obtain rfl : other = qualifiedFile := by simpa [qualifiedProject] using hother
    obtain ⟨declaration, hmem, hname⟩ := hdeclares
    have hprops := hnames _ (List.mem_map_of_mem hmem)
    obtain rfl : name = "Props" := Option.some.inj (hname.symm.trans hprops)
    decide
  imported := by decide +kernel

private theorem qualifies_qualifiedProps : qualifiedFile.Qualifies qualifiedProps where
  kind := rfl
  dotted := by decide +kernel
  last := by
    intro last hlast
    obtain rfl : (plainProps.withField "name") = last := Option.some.inj hlast
    decide +kernel

private theorem exists_ofFunction_qualifiedProps (strict : Bool) :
    ∃ type, ofFunction qualifiedProject qualifiedFile strict (annotatedWith qualifiedProps) =
      .ok (some type) ∧ type.members.kind = "interface_body" := by
  have hkind : ((ofFunction qualifiedProject qualifiedFile strict
      (annotatedWith qualifiedProps)).toOption.join.map fun type ↦ type.members.kind) =
        some "interface_body" := by
    cases strict <;> decide +kernel
  cases hanswer : ofFunction qualifiedProject qualifiedFile strict
      (annotatedWith qualifiedProps) with
  | error error => simp [hanswer, Except.toOption] at hkind
  | ok answer =>
    cases answer with
    | none => simp [hanswer, Except.toOption] at hkind
    | some type => exact ⟨type, rfl, by simpa [hanswer, Except.toOption] using hkind⟩

/-- With a type argument the plain name is found as before; the qualified one is not, and where that
is no error the component loses its props. -/
theorem ofFunction_typeArguments_lenient :
    ofFunction qualifiedProject qualifiedFile true (annotatedWith (withArgument plainProps)) =
      ofFunction qualifiedProject qualifiedFile true (annotatedWith plainProps) ∧
    qualifiedFile.Qualifies qualifiedProps ∧ qualifiedProject.PlainNames qualifiedFile ∧
    ofFunction qualifiedProject qualifiedFile false (annotatedWith (withArgument qualifiedProps)) =
      .ok none ∧
    ¬ SameAnswer
      (ofFunction qualifiedProject qualifiedFile false (annotatedWith qualifiedProps))
      (ofFunction qualifiedProject qualifiedFile false
        (annotatedWith (withArgument qualifiedProps))) := by
  have hplain : propsType? (annotatedWith plainProps) = some plainProps := rfl
  have hqualified : propsType? (annotatedWith qualifiedProps) = some qualifiedProps := rfl
  have hplain' : propsType? (annotatedWith (withArgument plainProps)) =
      some (withArgument plainProps) := rfl
  have hqualified' : propsType? (annotatedWith (withArgument qualifiedProps)) =
      some (withArgument qualifiedProps) := rfl
  obtain ⟨hsame, -, -⟩ := ofFunction_typeArguments hplain hplain' rfl rfl qualifiedProject
    qualifiedFile true
  obtain ⟨-, -, hdotted⟩ := ofFunction_typeArguments hqualified hqualified' rfl rfl
    qualifiedProject qualifiedFile false
  obtain ⟨hnone, hiff⟩ := hdotted qualifies_qualifiedProps plainNames_qualifiedProject
  refine ⟨hsame rfl, qualifies_qualifiedProps, plainNames_qualifiedProject, hnone, ?_⟩
  rw [hiff]
  rintro ⟨-, hnothing⟩
  obtain ⟨type, hfound, -⟩ := exists_ofFunction_qualifiedProps false
  rw [hfound] at hnothing
  cases hnothing

/-- `NS.Props` is found as `Props`, and `NS.Props<string>` is an error. -/
theorem ofFunction_qualified_argument :
    propsType? (annotatedWith qualifiedProps) = some qualifiedProps ∧
    propsType? (annotatedWith (withArgument qualifiedProps)) = some (withArgument qualifiedProps) ∧
    (withArgument qualifiedProps).field? "name" = some (qualifiedProps.withField "name") ∧
    (∃ type, ofFunction qualifiedProject qualifiedFile true (annotatedWith qualifiedProps) =
      .ok (some type) ∧ type.members.kind = "interface_body") ∧
    ofFunction qualifiedProject qualifiedFile true (annotatedWith (withArgument qualifiedProps)) =
      .error (.unresolvedType ⟨"A.tsx"⟩ "NS.Props") ∧
    ¬ SameAnswer
      (ofFunction qualifiedProject qualifiedFile true (annotatedWith qualifiedProps))
      (ofFunction qualifiedProject qualifiedFile true
        (annotatedWith (withArgument qualifiedProps))) := by
  have hfound := exists_ofFunction_qualifiedProps true
  have htext : qualifiedFile.text (qualifiedProps.withField "name") = "NS.Props" := by
    decide +kernel
  have hlost : ofFunction qualifiedProject qualifiedFile true
      (annotatedWith (withArgument qualifiedProps)) =
        .error (.unresolvedType ⟨"A.tsx"⟩ "NS.Props") := by
    have hlookUp : ofFunction qualifiedProject qualifiedFile true
        (annotatedWith (withArgument qualifiedProps)) =
          lookUp qualifiedProject qualifiedFile true "NS.Props" := by
      rw [← htext]
      exact ofFunction_of_named rfl (.inl rfl) rfl
    rw [hlookUp, lookUp_of_dot plainNames_qualifiedProject (by decide)]
    rfl
  refine ⟨rfl, rfl, rfl, hfound, hlost, ?_⟩
  obtain ⟨type, hfound, -⟩ := hfound
  rw [hfound, hlost]
  rintro ⟨⟩

end ParameterType

end PropDoc
