import PropDoc.Proofs.Signature.Alike
import PropDoc.Proofs.Table
import PropDoc.Props
import PropDoc.Signature.Printer

/-!
# What a prop table is made of

The type decides which props there are, in which order, of which types and whether they have to be
given; the pattern decides their defaults and nothing else. Where the members of the type are
written makes no difference.
-/

namespace PropDoc

open PropDoc.Syntax

namespace Destructured

/-- The elements of the pattern that destructures the first parameter of a function. -/
def elements (function : Node) : List Node :=
  match (function.firstParameter?.bind fun parameter ↦ parameter.field? "pattern").filter
      fun pattern ↦ pattern.kind == "object_pattern" with
  | some pattern => pattern.namedChildren
  | none => []

/-- An element of a pattern reads the property with a name. -/
inductive Reads (source : Source) (element : Node) : String → Prop where
  | shorthand : element.kind = "shorthand_property_identifier_pattern" →
      Reads source element (element.text source)
  | assigned {left : Node} : element.kind = "object_assignment_pattern" →
      element.field? "left" = some left → Reads source element (left.text source)
  | renamed {key : Node} : element.kind = "pair_pattern" → element.field? "key" = some key →
      key.kind ≠ "computed_property_name" → key.kind ≠ "string" →
      Reads source element (key.text source)
  | quoted {key : Node} : element.kind = "pair_pattern" → element.field? "key" = some key →
      key.kind = "string" → Reads source element (Node.unquote (key.text source))

/-- An element of a pattern has an initializer. -/
inductive Initialized (element : Node) : Node → Prop where
  | assigned {value : Node} : element.kind = "object_assignment_pattern" →
      element.field? "right" = some value → Initialized element value
  | renamed {target value : Node} : element.kind = "pair_pattern" →
      element.field? "value" = some target → target.kind = "assignment_pattern" →
      target.field? "right" = some value → Initialized element value

/-- The first element of a function's pattern that reads a property has an initializer with a
text. -/
def DefaultsTo (source : Source) (function : Node) (name text : String) : Prop :=
  ∃ before element after value, elements function = before ++ element :: after ∧
    Reads source element name ∧ (∀ earlier ∈ before, ¬ Reads source earlier name) ∧
    Initialized element value ∧ value.text source = text

/-! ### Elements of patterns -/

variable {source : Source} {element : Node}

private theorem initialized_iff_of_assigned (h : element.kind = "object_assignment_pattern")
    (value : Node) : Initialized element value ↔ element.field? "right" = some value := by
  constructor
  · rintro (⟨-, hright⟩ | ⟨hpair, -, -, -⟩)
    · exact hright
    · simp [h] at hpair
  · exact .assigned h

private theorem initialized_iff_of_renamed (h : element.kind = "pair_pattern") (value : Node) :
    Initialized element value ↔
      (((element.field? "value").filter fun value ↦ value.kind == "assignment_pattern").bind
        fun value ↦ value.field? "right") = some value := by
  simp only [Option.bind_eq_some_iff, Option.filter_eq_some_iff, beq_iff_eq]
  constructor
  · rintro (⟨hassigned, -⟩ | ⟨-, htarget, hkind, hright⟩)
    · simp [h] at hassigned
    · exact ⟨_, ⟨htarget, hkind⟩, hright⟩
  · rintro ⟨target, ⟨htarget, hkind⟩, hright⟩
    exact .renamed h htarget hkind hright

private theorem not_initialized_of_shorthand
    (h : element.kind = "shorthand_property_identifier_pattern") (value : Node) :
    ¬ Initialized element value := by
  rintro (⟨hkind, -⟩ | ⟨hkind, -, -, -⟩)
  · simp [h] at hkind
  · simp [h] at hkind

/-- What is made of an element has the name of the property that the element reads, and the text of
its initializer as default. -/
theorem reads_of_ofElement? {name : String} {default? : Option String}
    (h : ofElement? source element = some ⟨name, default?⟩) :
    Reads source element name ∧ ∀ text, default? = some text ↔
      ∃ value, Initialized element value ∧ value.text source = text := by
  unfold ofElement? at h
  split at h
  · next hkind =>
    obtain ⟨rfl, rfl⟩ := Destructured.mk.inj (Option.some.inj h)
    exact ⟨.shorthand hkind, by simp [not_initialized_of_shorthand hkind]⟩
  · next hkind =>
    obtain ⟨left, hleft, hitem⟩ := Option.map_eq_some_iff.mp h
    obtain ⟨rfl, rfl⟩ := Destructured.mk.inj hitem
    refine ⟨.assigned hkind hleft, fun text ↦ ?_⟩
    rw [Option.map_eq_some_iff]
    simp only [initialized_iff_of_assigned hkind]
  · next hkind =>
    obtain ⟨key, hkey, hitem⟩ := Option.bind_eq_some_iff.mp h
    split at hitem
    · cases hitem
    · next hfixed =>
      obtain ⟨rfl, rfl⟩ := Destructured.mk.inj (Option.some.inj hitem)
      refine ⟨?_, fun text ↦ ?_⟩
      · split
        · next hstring => exact .quoted hkind hkey (by simpa using hstring)
        · next hplain => exact .renamed hkind hkey (by simpa using hfixed) (by simpa using hplain)
      · rw [Option.map_eq_some_iff]
        simp only [initialized_iff_of_renamed hkind]
  · cases h

/-- Something is made of every element that reads a property. -/
theorem exists_ofElement?_of_reads {name : String} (h : Reads source element name) :
    ∃ default?, ofElement? source element = some ⟨name, default?⟩ := by
  cases h with
  | shorthand hkind => simp [ofElement?, hkind]
  | assigned hkind hleft => simp [ofElement?, hkind, hleft]
  | renamed hkind hkey hfixed hplain => simp [ofElement?, hkind, hkey, hfixed, hplain]
  | quoted hkind hkey hstring => simp [ofElement?, hkind, hkey, hstring]

private theorem any_ofElement?_iff (source : Source) (element : Node) (name : String) :
    (ofElement? source element).any (fun item ↦ item.name == name) = true ↔
      Reads source element name := by
  constructor
  · intro hany
    cases hitem : ofElement? source element with
    | none => simp [hitem] at hany
    | some item =>
      have hname : item.name = name := by simpa [hitem] using hany
      exact hname ▸ (reads_of_ofElement? hitem).1
  · intro hreads
    obtain ⟨default?, hitem⟩ := exists_ofElement?_of_reads hreads
    simp [hitem]

/-- The bindings of a function are read from the elements of its first parameter, one by one. -/
theorem ofFunction_eq_filterMap (source : Source) (function : Node) :
    ofFunction source function = (elements function).filterMap (ofElement? source) := by
  unfold ofFunction elements
  dsimp only
  generalize (function.firstParameter?.bind fun parameter ↦ parameter.field? "pattern").filter
    (fun pattern ↦ pattern.kind == "object_pattern") = pattern
  cases pattern <;> rfl

/-- The default of a property is the initializer of the first element that reads it. -/
theorem defaultFor?_eq_some_iff (source : Source) (function : Node) (name text : String) :
    PropTable.defaultFor? (ofFunction source function) name = some text ↔
      DefaultsTo source function name text := by
  rw [PropTable.defaultFor?, ofFunction_eq_filterMap, List.find?_filterMap]
  simp only [Option.bind_eq_some_iff, List.find?_eq_some_iff_append, any_ofElement?_iff,
    Bool.not_eq_eq_eq_not, Bool.not_true, ← Bool.not_eq_true]
  constructor
  · rintro ⟨item, ⟨element, ⟨hreads, before, after, hsplit, hbefore⟩, hitem⟩, htext⟩
    obtain ⟨value, hvalue, rfl⟩ := ((reads_of_ofElement? hitem).2 text).mp htext
    exact ⟨before, element, after, value, hsplit, hreads, hbefore, hvalue, rfl⟩
  · rintro ⟨before, element, after, value, hsplit, hreads, hbefore, hvalue, rfl⟩
    obtain ⟨default?, hitem⟩ := exists_ofElement?_of_reads hreads
    refine ⟨⟨name, default?⟩, ⟨element, ⟨hreads, before, after, hsplit, hbefore⟩, hitem⟩, ?_⟩
    exact ((reads_of_ofElement? hitem).2 _).mpr ⟨value, hvalue, rfl⟩

end Destructured

namespace PropTable

/-- The name of a property or method, if it is fixed. -/
def staticName? (types : Source) (member : Node) : Option String :=
  if member.isMember then member.memberKey? types else none

/-- A table lists the members of a body, read from the source of the types, with the defaults of a
function, read from the source of the component: each fixed name once, in the order of the first
members, and under it what the first member with the name says. -/
structure Lists (types : Source) (body : Node) (here : Source) (function : Node)
    (table : PropTable) : Prop where
  keys : table.keys = (body.parts.filterMap (staticName? types)).eraseDups
  record : ∀ key record, table.get? key = some record ↔
    ∃ before member after, body.parts = before ++ member :: after ∧
      staticName? types member = some key ∧
      (∀ earlier ∈ before, staticName? types earlier ≠ some key) ∧
      record.required = !member.isOptional ∧ record.type = Signature.ofMember types member ∧
      (∀ text, record.default? = some text ↔ Destructured.DefaultsTo here function key text) ∧
      record.description? = none

/-! ### Members -/

private theorem ofMember?_eq_map (types : Source) (read : List Destructured) (member : Node) :
    ofMember? types read member = (staticName? types member).map fun name ↦
      (name,
       { required := !member.isOptional
         default? := defaultFor? read name
         type := Signature.ofMember types member }) := by
  by_cases hmember : member.isMember <;> simp [ofMember?, staticName?, hmember]

private theorem any_ofMember? (types : Source) (read : List Destructured) (member : Node)
    (key : String) : (ofMember? types read member).any (fun entry ↦ entry.1 == key) =
      (staticName? types member == some key) := by
  rw [ofMember?_eq_map]
  cases staticName? types member <;> simp

private theorem ofFunction_eq_ofNewEntries (function : Node) (file : SourceFile)
    (type : ParameterType) :
    ofFunction function file type = Table.ofNewEntries (type.members.parts.filterMap
      (ofMember? (type.source file.source) (Destructured.ofFunction file.source function))) := rfl

/-- The names are those of the members. -/
theorem keys_ofFunction (function : Node) (file : SourceFile) (type : ParameterType) :
    (ofFunction function file type).keys =
      (type.members.parts.filterMap (staticName? (type.source file.source))).eraseDups := by
  rw [ofFunction_eq_ofNewEntries, Table.keys_ofNewEntries, List.map_filterMap]
  congr 2
  funext member
  rw [ofMember?_eq_map, Option.map_map]
  exact Option.map_id'

/-- Under a name is what the first member with the name says, with the default of that name. -/
theorem get?_ofFunction (function : Node) (file : SourceFile) (type : ParameterType)
    (key : String) :
    (ofFunction function file type).get? key =
      (type.members.parts.find? fun member ↦
        staticName? (type.source file.source) member == some key).map fun member ↦
          { required := !member.isOptional
            default? := defaultFor? (Destructured.ofFunction file.source function) key
            type := Signature.ofMember (type.source file.source) member } := by
  rw [ofFunction_eq_ofNewEntries, Table.get?_ofNewEntries, List.find?_filterMap]
  simp only [any_ofMember?]
  cases hfind : type.members.parts.find? fun member ↦
      staticName? (type.source file.source) member == some key with
  | none => rfl
  | some member =>
    have hname : staticName? (type.source file.source) member = some key := by
      simpa using List.find?_some hfind
    rw [Option.bind_some, ofMember?_eq_map, hname]
    rfl

private theorem lists_ofFunction (function : Node) (file : SourceFile) (type : ParameterType) :
    Lists (type.source file.source) type.members file.source function
      (ofFunction function file type) where
  keys := keys_ofFunction function file type
  record := by
    intro key record
    have hdefault := Destructured.defaultFor?_eq_some_iff file.source function key
    rw [get?_ofFunction]
    simp only [Option.map_eq_some_iff, List.find?_eq_some_iff_append, beq_iff_eq,
      Bool.not_eq_eq_eq_not, Bool.not_true, beq_eq_false_iff_ne]
    constructor
    · rintro ⟨member, ⟨hname, before, after, hsplit, hbefore⟩, rfl⟩
      exact ⟨before, member, after, hsplit, hname, hbefore, rfl, rfl, hdefault, rfl⟩
    · rintro ⟨before, member, after, hsplit, hname, hbefore, hrequired, htype, hread, hplain⟩
      refine ⟨member, ⟨hname, before, after, hsplit, hbefore⟩, ?_⟩
      have hsame : defaultFor? (Destructured.ofFunction file.source function) key =
          record.default? :=
        Option.ext fun text ↦ (hdefault text).trans (hread text).symm
      rw [hsame, ← hrequired, ← htype, ← hplain]

/-- What a prop table is made of. The members are read from the component's own source if they are
written in place, and from the source of the file that declares them otherwise; the defaults always
come from the component's source. So the pattern has no part in names, types and what is required,
and the type has none in the defaults. -/
theorem ofFunction_lists (file : SourceFile) :
    (∀ function body, Lists file.source body file.source function
      (ofFunction function file (.inPlace body))) ∧
    (∀ function name body owner, Lists owner.source body file.source function
      (ofFunction function file (.declared name body owner))) ∧
    (∀ function function' type,
      (ofFunction function file type).keys = (ofFunction function' file type).keys ∧
      ∀ key,
        ((ofFunction function file type).get? key).map
            (fun record ↦ (record.required, record.type)) =
          ((ofFunction function' file type).get? key).map
            (fun record ↦ (record.required, record.type))) ∧
    ∀ function type type' key record record',
      (ofFunction function file type).get? key = some record →
      (ofFunction function file type').get? key = some record' →
        record.default? = record'.default? := by
  refine ⟨fun function body ↦ lists_ofFunction function file (.inPlace body),
    fun function name body owner ↦ lists_ofFunction function file (.declared name body owner),
    ?_, ?_⟩
  · intro function function' type
    refine ⟨by rw [keys_ofFunction, keys_ofFunction], fun key ↦ ?_⟩
    simp only [get?_ofFunction, Option.map_map, Function.comp_def]
  · intro function type type' key record record' hrecord hrecord'
    rw [get?_ofFunction, Option.map_eq_some_iff] at hrecord hrecord'
    obtain ⟨member, -, hmember⟩ := hrecord
    obtain ⟨member', -, hmember'⟩ := hrecord'
    rw [← hmember, ← hmember']

/-- A body with one name twice, a quoted name and a computed one. -/
def repeatedBody : Node :=
  let member (start stop : Nat) (name : String) (width : Nat) (mark : List Node) : Node :=
    .mk { kind := "property_signature", start, stop } (
      .mk { kind := name, field := "name", start, stop := start + width } [] :: mark ++ [
        .mk { kind := "type_annotation", field := "type", start := stop - 3, stop } [
          .mk { kind := "type_identifier", start := stop - 1, stop } []]])
  .mk { kind := "object_type", start := 43, stop := 76 } [
    member 45 50 "property_identifier" 1 [
      .mk { kind := "?", named := false, start := 46, stop := 47 } []],
    member 52 60 "string" 5 [],
    member 62 66 "property_identifier" 1 [],
    member 68 74 "computed_property_name" 3 []]

/-- A function that destructures the same property twice and another under its quoted name. -/
def repeatedFunction : Node :=
  let assigned (start : Nat) : Node :=
    .mk { kind := "object_assignment_pattern", start, stop := start + 5 } [
      .mk { kind := "shorthand_property_identifier_pattern", field := "left", start,
            stop := start + 1 } [],
      .mk { kind := "number", field := "right", start := start + 4, stop := start + 5 } []]
  .mk { kind := "function_declaration", stop := 80 } [
    .mk { kind := "formal_parameters", field := "parameters", start := 10, stop := 77 } [
      .mk { kind := "required_parameter", start := 11, stop := 76 } [
        .mk { kind := "object_pattern", field := "pattern", start := 11, stop := 41 } [
          assigned 13,
          .mk { kind := "pair_pattern", start := 20, stop := 32 } [
            .mk { kind := "string", field := "key", start := 20, stop := 25 } [],
            .mk { kind := "assignment_pattern", field := "value", start := 27, stop := 32 } [
              .mk { kind := "identifier", field := "left", start := 27, stop := 28 } [],
              .mk { kind := "number", field := "right", start := 31, stop := 32 } []]],
          assigned 34],
        .mk { kind := "type_annotation", field := "type", start := 41, stop := 76 } [
          repeatedBody]]]]

/-- The last two members of that body as a body of their own. -/
def repeatedRest : Node := .mk { kind := "object_type" } (repeatedBody.children.drop 2)

/-- The file of that function. -/
def repeatedFile : SourceFile :=
  { path := ⟨"A.tsx"⟩
    source := .ofString ("function A(\x7b a = 1, 'b-c': d = 2, a = 3 \x7d: " ++
      "\x7b a?: X; 'b-c': Y; a: Z; [k]: W \x7d) \x7b\x7d")
    root := .mk { kind := "program", stop := 80 } [repeatedFunction] }

/-- Of two members of one name the first counts, and so does the first of two bindings. A type with
other flags leaves the defaults as they are. -/
theorem ofFunction_lists_repeated :
    Lists repeatedFile.source repeatedBody repeatedFile.source repeatedFunction
      (ofFunction repeatedFunction repeatedFile (.inPlace repeatedBody)) ∧
    ((ofFunction repeatedFunction repeatedFile (.inPlace repeatedBody)).entries.map fun entry ↦
      (entry.1, entry.2.required, entry.2.default?, entry.2.type.text)) =
        [("a", false, some "1", "X"), ("b-c", true, some "2", "Y")] ∧
    ∃ record record',
      (ofFunction repeatedFunction repeatedFile (.inPlace repeatedBody)).get? "a" = some record ∧
      (ofFunction repeatedFunction repeatedFile
        (.declared "P" repeatedRest repeatedFile)).get? "a" = some record' ∧
      record.required ≠ record'.required ∧ record.default? = record'.default? := by
  have hentries : ((ofFunction repeatedFunction repeatedFile (.inPlace repeatedBody)).entries.map
      fun entry ↦ (entry.1, entry.2.required, entry.2.default?, entry.2.type.text)) =
        [("a", false, some "1", "X"), ("b-c", true, some "2", "Y")] := by
    decide +kernel
  have hfirst : ((ofFunction repeatedFunction repeatedFile
      (.inPlace repeatedBody)).get? "a").map PropRecord.required = some false := by
    decide +kernel
  have hrest : ((ofFunction repeatedFunction repeatedFile
      (.declared "P" repeatedRest repeatedFile)).get? "a").map PropRecord.required = some true := by
    decide +kernel
  obtain ⟨record, hrecord, hoptional⟩ := Option.map_eq_some_iff.mp hfirst
  obtain ⟨record', hrecord', hrequired⟩ := Option.map_eq_some_iff.mp hrest
  obtain ⟨hlists, -, -, hdefault⟩ := ofFunction_lists repeatedFile
  exact ⟨hlists repeatedFunction repeatedBody, hentries, record, record', hrecord, hrecord',
    by simp [hoptional, hrequired], hdefault _ _ _ _ _ _ hrecord hrecord'⟩

/-! ### Where the members are written -/

private theorem ofMember?_of_alike {here there : Source} {a b : Node} (h : a.Alike here there b)
    (read : List Destructured) : ofMember? here read a = ofMember? there read b := by
  rw [ofMember?, ofMember?, Node.isMember, Node.isMember, h.kind_eq, h.memberKey?_eq,
    h.isOptional_eq, Signature.ofMember_of_alike h]

/-- Where a type is written makes no difference. Members written in place and members written alike
in the body of a declaration of any file, be it an interface or a synonym, give a function the same
props; and types that are written alike have the same signature. -/
theorem ofFunction_inPlace_eq_declared :
    (∀ (function : Node) (file owner : SourceFile) (inPlace body : Node) (name : String),
      List.Forall₂ (Node.Alike file.source owner.source) inPlace.children body.children →
        ofFunction function file (.inPlace inPlace) =
          ofFunction function file (.declared name body owner)) ∧
    ∀ (here there : Source) (a b : Node), a.Alike here there b →
      Signature.ofNode here a = Signature.ofNode there b := by
  refine ⟨?_, fun here there a b ↦ Signature.ofNode_of_alike⟩
  intro function file owner inPlace body name hchildren
  have hentries := filterMap_eq_of_forall₂ (Node.forall₂_parts hchildren)
    fun _ _ hmember ↦ ofMember?_of_alike hmember (Destructured.ofFunction file.source function)
  rw [ofFunction_eq_ofNewEntries, ofFunction_eq_ofNewEntries]
  exact congrArg Table.ofNewEntries hentries

/-- A body with one member, a callback, as it stands at an offset. -/
def callbackBody (kind : String) (n : Nat) : Node :=
  .mk { kind, start := n, stop := n + 26 } [
    .mk { kind := "\x7b", named := false, start := n, stop := n + 1 } [],
    .mk { kind := "property_signature", start := n + 2, stop := n + 24 } [
      .mk { kind := "string", field := "name", start := n + 2, stop := n + 5 } [],
      .mk { kind := "?", named := false, start := n + 5, stop := n + 6 } [],
      .mk { kind := "type_annotation", field := "type", start := n + 6, stop := n + 24 } [
        .mk { kind := ":", named := false, start := n + 6, stop := n + 7 } [],
        .mk { kind := "function_type", start := n + 8, stop := n + 24 } [
          .mk { kind := "formal_parameters", field := "parameters", start := n + 8,
                stop := n + 16 } [
            .mk { kind := "required_parameter", start := n + 9, stop := n + 15 } [
              .mk { kind := "identifier", field := "pattern", start := n + 9, stop := n + 10 } [],
              .mk { kind := "type_annotation", field := "type", start := n + 10, stop := n + 15 } [
                .mk { kind := "array_type", start := n + 12, stop := n + 15 } [
                  .mk { kind := "type_identifier", start := n + 12, stop := n + 13 } []]]]],
          .mk { kind := "predefined_type", field := "return_type", start := n + 20,
                stop := n + 24 } []]]],
    .mk { kind := "\x7d", named := false, start := n + 25, stop := n + 26 } []]

/-- A function whose parameter is destructured with a default and has a type in place. -/
def callbackFunction : Node :=
  .mk { kind := "function_declaration", start := 7, stop := 60 } [
    .mk { kind := "formal_parameters", field := "parameters", start := 17, stop := 56 } [
      .mk { kind := "required_parameter", start := 18, stop := 55 } [
        .mk { kind := "object_pattern", field := "pattern", start := 18, stop := 27 } [
          .mk { kind := "object_assignment_pattern", start := 20, stop := 25 } [
            .mk { kind := "shorthand_property_identifier_pattern", field := "left", start := 20,
                  stop := 21 } [],
            .mk { kind := "number", field := "right", start := 24, stop := 25 } []]],
        .mk { kind := "type_annotation", field := "type", start := 27, stop := 55 } [
          callbackBody "object_type" 29]]]]

/-- The file of that function. -/
def callbackFile : SourceFile :=
  { path := ⟨"A.tsx"⟩
    source := .ofString
      "export function A(\x7b n = 1 \x7d: \x7b 'n'?: (x: T[]) => void \x7d) \x7b\x7d\n"
    root := .mk { kind := "program", stop := 61 } [callbackFunction] }

/-- A file with an interface of the same members. -/
def callbackTypes : SourceFile :=
  { path := ⟨"types.ts"⟩
    source := .ofString "interface P \x7b 'n'?: (x: T[]) => void \x7d\n"
    root := .mk { kind := "program", stop := 39 } [
      .mk { kind := "interface_declaration", stop := 38 } [callbackBody "interface_body" 12]] }

/-- A type that is written in place and as an interface elsewhere, at other offsets and with a
callback in it, gives the same props. -/
theorem ofFunction_inPlace_eq_declared_callback :
    List.Forall₂ (Node.Alike callbackFile.source callbackTypes.source)
      (callbackBody "object_type" 29).children (callbackBody "interface_body" 12).children ∧
    ofFunction callbackFunction callbackFile (.inPlace (callbackBody "object_type" 29)) =
      ofFunction callbackFunction callbackFile
        (.declared "P" (callbackBody "interface_body" 12) callbackTypes) ∧
    ((ofFunction callbackFunction callbackFile
      (.inPlace (callbackBody "object_type" 29))).entries.map fun entry ↦
        (entry.1, entry.2.required, entry.2.default?, entry.2.type.text)) =
        [("n", false, some "1", "(x: T[]) => void")] := by
  have hmembers : List.Forall₂ (Node.Alike callbackFile.source callbackTypes.source)
      (callbackBody "object_type" 29).children (callbackBody "interface_body" 12).children :=
    Node.alikeAll_iff_forall₂.mp (by decide +kernel)
  exact ⟨hmembers, ofFunction_inPlace_eq_declared.1 _ _ _ _ _ _ hmembers, by decide +kernel⟩

end PropTable

end PropDoc
